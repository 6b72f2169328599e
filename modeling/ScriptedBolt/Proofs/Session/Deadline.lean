import ScriptedBolt.Proofs.Session.Run
import ScriptedBolt.Proofs.Session.Taking
import ScriptedBolt.Proofs.Wire.Expiry
import ScriptedBolt.Verdict

/-!
# Deadlines in a run

The deadline for inactivity holds for reads and for writes. One that expires in a read ends the run
as a timeout, wherever in the handshake or in a message the read is made, and so does one that
expires while the handshake is answered. One that expires while an action of the script is
performed does not: what is recorded then is that the client cannot be written to, with the words
of the fault.
-/

namespace ScriptedBolt

/-- The loss of the peer is no deadline that has expired. -/
theorem Error.isTimeout_of_isDisconnect {e : Error} (h : e.isDisconnect = true) :
    e.isTimeout = false := by
  cases e with
  | io f =>
    obtain ⟨kind, text⟩ := f
    cases kind <;> first | rfl | simp [isDisconnect, Fault.isDisconnect] at h
  | _ => simp [isDisconnect] at h

/-- The program exits with the status of a timeout for no other state. -/
theorem Verdict.code_eq_two_iff {state : State} :
    (ofState state).code = 2 ↔ ∃ d, state = .failed (.timeout d) := by
  constructor
  · intro h
    cases state with
    | failed failure =>
      cases failure with
      | timeout d => exact ⟨d, rfl⟩
      | _ => simp [ofState, ofFailure, code] at h
    | _ => simp [ofState, code] at h
  · rintro ⟨d, rfl⟩
    rfl

namespace Session

variable {ctx : Context} {v : Version} {script : Script} {link : Link} {cues : List Cue}

/-! ### Reads -/

/-- How a state of a session accounts for the deadlines that have expired in its reads. -/
inductive Accounts (settings : Settings) (before after : Source) : State → Prop
  /-- One has expired, and the state says so. -/
  | timeout (h : before.expiries = after.expiries + 1) :
    Accounts settings before after (.failed (.timeout (settings.timeout.getD .zero)))
  /-- None has expired, and the state does not say otherwise. -/
  | other {state : State} (hs : ∀ d, state ≠ .failed (.timeout d))
    (h : before.expiries = after.expiries) : Accounts settings before after state

/-- What accounts for the deadlines from one source on does so from another with as many of them. -/
theorem Accounts.of_eq {settings : Settings} {earlier before after : Source} {state : State}
    (h : Accounts settings before after state) (heq : earlier.expiries = before.expiries) :
    Accounts settings earlier after state := by
  cases h with
  | timeout h => exact .timeout (heq.trans h)
  | other hs h => exact .other hs (heq.trans h)

/-- A state is a timeout if there are fewer deadlines to come after it. -/
theorem Accounts.timeout_or_not {settings : Settings} {before after : Source} {state : State}
    (h : Accounts settings before after state) :
    (after.expiries < before.expiries ∧
      state = .failed (.timeout (settings.timeout.getD .zero))) ∨
    (¬after.expiries < before.expiries ∧ ∀ d, state ≠ .failed (.timeout d)) := by
  cases h with
  | timeout h => exact .inl ⟨by omega, rfl⟩
  | other hs h => exact .inr ⟨by omega, hs⟩

/-- An error that is made a failure accounts for the deadline that it tells of. -/
theorem accounts_failureOf {settings : Settings} {before after : Source} {e : Error}
    {otherwise : String → Failure} (ho : ∀ reason d, otherwise reason ≠ .timeout d)
    (h : before.expiries = after.expiries + e.isTimeout.toNat) :
    Accounts settings before after (.failed (failureOf settings otherwise e)) := by
  unfold failureOf
  cases he : e.isTimeout with
  | true =>
    rw [he] at h
    exact .timeout h
  | false =>
    rw [he] at h
    exact .other (fun d hd ↦ ho _ d (State.failed.inj hd)) h

/-- What comes of a cue: none of the deadlines in its reads has expired if it is taken, and else the
state at which the conversation ends accounts for them. -/
def CueAccounts (settings : Settings) (before : Source) : Except (State × Link) Link → Prop
  | .ok next => before.expiries = next.source.expiries
  | .error ended => Accounts settings before ended.2.source ended.1

/-- A line that the client is to send accounts for the deadlines in its reads. -/
theorem accounts_hear (ctx : Context) (v : Version) (script : Script) (left : Nat) (link : Link)
    (expected : Expect) :
    CueAccounts ctx.settings link.source (take ctx v script left link (.hear expected)) := by
  have hread := Frame.expiries_readMessage v .client ctx.settings.maxMessageSize link.source
  unfold take
  generalize Frame.readMessage v .client ctx.settings.maxMessageSize link.source = received at *
  rcases received with ⟨error | _ | m, count, rest⟩
  · dsimp only at hread ⊢
    cases hgone : error.isDisconnect with
    | true =>
      rw [expired, Error.isTimeout_of_isDisconnect hgone] at hread
      exact .other (by simp) hread
    | false => exact accounts_failureOf (by simp) hread
  · exact .other (by simp) hread
  · dsimp only at hread ⊢
    cases script.matchesLine expected m with
    | true => exact hread
    | false => exact .other (by simp) hread

/-- An action of the script reads nothing, and no fault of its write is a timeout. -/
theorem accounts_perform (ctx : Context) (v : Version) (script : Script) (left : Nat) (link : Link)
    (r : Reply) :
    CueAccounts ctx.settings link.source (take ctx v script left link (.perform r)) := by
  obtain ⟨line, action⟩ := r
  unfold take
  cases action with
  | exit => exact .other (by simp) rfl
  | _ =>
    dsimp only
    generalize bytesOf ctx.settings v _ = result
    rcases result with e | _ | bytes
    · exact .other (by simp) rfl
    · exact rfl
    · unfold write
      dsimp only
      generalize link.sink.send bytes = sent
      rcases sent with ⟨f | _, sink⟩
      · exact .other (by simp) rfl
      · exact rfl

/-- Whatever comes of a cue accounts for the deadlines in its reads. -/
theorem accounts_take (ctx : Context) (v : Version) (script : Script) (left : Nat) (link : Link)
    (cue : Cue) : CueAccounts ctx.settings link.source (take ctx v script left link cue) := by
  cases cue with
  | hear expected => exact accounts_hear ctx v script left link expected
  | perform r => exact accounts_perform ctx v script left link r

/-- The end of a conversation accounts for the deadlines in its reads. -/
theorem accounts_follow (ctx : Context) (v : Version) (script : Script) (cues : List Cue)
    (link : Link) : Accounts ctx.settings link.source (follow ctx v script cues link).2.source
      (follow ctx v script cues link).1 := by
  induction cues generalizing link with
  | nil => exact .other (by simp [follow]) rfl
  | cons cue cues ih =>
    have htake := accounts_take ctx v script (cues.length + 1) link cue
    rw [follow]
    split
    · next next ht =>
      rw [ht] at htake
      exact (ih next).of_eq htake
    · next ended ht =>
      rw [ht] at htake
      exact htake

/-! ### Writes -/

/-- Whether the fault of a deadline that expires keeps the handshake from being answered. -/
def ReplyExpires (script : Script) (link : Link) : Prop :=
  ∃ p v f, Handshake.opening? link.source = some p ∧
    Handshake.negotiate p script.version? = .ok v ∧
    (link.sink.send (script.answerTo v)).1 = .error f ∧ f.isTimeout = true

/-- Once a version is chosen, the handshake is kept from being answered if its one reply is. -/
theorem replyExpires_iff {p : Handshake.Proposals} (ho : Handshake.opening? link.source = some p)
    (hn : Handshake.negotiate p script.version? = .ok v) : ReplyExpires script link ↔
      ∃ f, (link.sink.send (script.answerTo v)).1 = .error f ∧ f.isTimeout = true := by
  constructor
  · rintro ⟨q, w, f, hq, hw, hf⟩
    obtain rfl := Option.some.inj (ho.symm.trans hq)
    obtain rfl := Except.ok.inj (hn.symm.trans hw)
    exact ⟨f, hf⟩
  · rintro ⟨f, hf⟩
    exact ⟨p, v, f, ho, hn, hf⟩

/-- Whether a fault keeps an action of the script from being performed when its turn has come. The
moment before a cue is the one after the handshake and the cues before it, and there is one more
when the cue is taken. -/
def ActionFails (ctx : Context) (script : Script) (link : Link) (f : Fault) : Prop :=
  ∃ v i r before bytes, (shakeHands ctx script link).1 = .ok v ∧
    script.cues[i]? = some (.perform r) ∧ (moments ctx script link)[i + 1]? = some before ∧
    i + 2 < (moments ctx script link).length ∧
    bytesOf ctx.settings v r.action = .ok (some bytes) ∧ (before.sink.send bytes).1 = .error f

/-- An action whose bytes cannot be written ends the session, whatever the fault is. -/
theorem take_of_failing (script : Script) (left : Nat) {r : Reply} {bytes : Bytes} {f : Fault}
    (hbytes : bytesOf ctx.settings v r.action = .ok (some bytes))
    (hfails : (link.sink.send bytes).1 = .error f) :
    ∃ after, take ctx v script left link (.perform r) =
      .error (.failed (.writeError (Error.io f).message), after) := by
  rw [take_of_bytesOf ctx v script left link hbytes]
  generalize link.sink.send bytes = sent at *
  obtain ⟨result, sink⟩ := sent
  obtain rfl : result = .error f := hfails
  exact ⟨_, rfl⟩

/-- A session that follows cues ends with the write that fails for one of them. -/
theorem follow_of_failing {i : Nat} {r : Reply} {before : Link} {bytes : Bytes} {f : Fault}
    (hcue : cues[i]? = some (.perform r))
    (hbefore : (link :: footsteps ctx v script cues link)[i]? = some before)
    (hreached : i < (footsteps ctx v script cues link).length)
    (hbytes : bytesOf ctx.settings v r.action = .ok (some bytes))
    (hfails : (before.sink.send bytes).1 = .error f) :
    (follow ctx v script cues link).1 = .failed (.writeError (Error.io f).message) := by
  induction cues generalizing link i with
  | nil => simp at hcue
  | cons cue cues ih =>
    cases i with
    | zero =>
      obtain rfl : cue = .perform r := by simpa using hcue
      obtain rfl : link = before := by simpa using hbefore
      obtain ⟨after, ht⟩ := take_of_failing script (cues.length + 1) hbytes hfails
      rw [follow, ht]
    | succ i =>
      rw [footsteps] at hbefore hreached
      rw [follow]
      split at hbefore
      · next next ht =>
        rw [ht] at hreached
        exact ih hcue hbefore (Nat.lt_of_succ_lt_succ hreached)
      · next ended ht =>
        rw [ht] at hreached
        simp at hreached

/-! ### Runs -/

/-- A run fails for an action that cannot be performed, whatever the fault is. -/
theorem state_of_actionFails (hfull : script.Full) {f : Fault}
    (h : ActionFails ctx script link f) : (run ctx script link).conversation.state =
      .failed (.writeError (Error.io f).message) := by
  obtain ⟨v, i, r, before, bytes, hv, hcue, hbefore, hreached, hbytes, hfails⟩ := h
  obtain ⟨hstate, -, hmoments⟩ := run_of_agreed hfull hv
  rw [hmoments] at hbefore hreached
  rw [hstate]
  refine follow_of_failing hcue hbefore ?_ hbytes hfails
  simpa using hreached

private theorem isTimeout_of_negotiate {p : Handshake.Proposals} {fixed : Option Version}
    {e : Error} (h : Handshake.negotiate p fixed = .error e) : e.isTimeout = false := by
  unfold Handshake.negotiate at h
  repeat' split at h
  all_goals first | exact Except.error.inj h ▸ rfl | simp at h

/-- How a run accounts for the deadlines that expire in it: one that keeps it from answering the
handshake is a timeout without any in its reads, and otherwise its state accounts for those. -/
def RunAccounts (ctx : Context) (script : Script) (link : Link) : Prop :=
  let ended := run ctx script link
  (ReplyExpires script link ∧
    ended.conversation.state = .failed (.timeout (ctx.settings.timeout.getD .zero))) ∨
  (¬ReplyExpires script link ∧
    Accounts ctx.settings link.source ended.link.source ended.conversation.state)

/-- Reading the opening is accounted for by what is left when hands are shaken. -/
theorem expiries_shakeHands (ctx : Context) (script : Script) (link : Link) :
    link.source.expiries = (shakeHands ctx script link).2.1.source.expiries +
      expired Error.isTimeout (Handshake.read link.source).1 := by
  rw [source_shakeHands]
  exact Handshake.expiries_of_read rfl

/-- A run that is refused for what it has read, and not for its answer, accounts for the reads. -/
theorem runAccounts_of_reads (hlines : script.blocks ≠ []) (hno : ¬ReplyExpires script link)
    {e : Error} (hshaken : (shakeHands ctx script link).1 = .error e)
    (h : link.source.expiries =
      (shakeHands ctx script link).2.1.source.expiries + e.isTimeout.toNat) :
    RunAccounts ctx script link := by
  refine .inr ⟨hno, ?_⟩
  rw [state_of_refused hlines hshaken, (run_of_refused hshaken).2.1]
  exact accounts_failureOf (by simp) h

/-- A run without a handshake accounts for its deadlines. -/
theorem runAccounts_of_refused (ctx : Context) (hlines : script.blocks ≠ []) {e : Error}
    (h : Refused script link e) : RunAccounts ctx script link := by
  have hshaken := (shakeHands_error_iff ctx).mpr h
  have hread := expiries_shakeHands ctx script link
  cases h with
  | spoilt hs =>
    rw [Handshake.read_of_spoilt hs] at hread
    refine runAccounts_of_reads hlines ?_ hshaken hread
    rintro ⟨p, v, f, ho, -⟩
    simp [Handshake.opening?_eq_none_iff.mpr ⟨e, hs⟩] at ho
  | disagreed ho hn =>
    obtain ⟨rest, hr, -⟩ := Handshake.read_of_opening ho
    rw [hr] at hread
    refine runAccounts_of_reads hlines ?_ hshaken ?_
    · rintro ⟨q, v, f, hq, hv, -⟩
      obtain rfl := Option.some.inj (ho.symm.trans hq)
      simp [hn] at hv
    · rw [isTimeout_of_negotiate hn]
      exact hread
  | @unanswered p v f ho hn hw =>
    obtain ⟨rest, hr, -⟩ := Handshake.read_of_opening ho
    rw [hr] at hread
    cases hf : f.isTimeout with
    | true =>
      refine .inl ⟨⟨p, v, f, ho, hn, hw, hf⟩, ?_⟩
      rw [state_of_refused hlines hshaken, failureOf, Error.isTimeout, if_pos hf]
    | false =>
      refine runAccounts_of_reads hlines ?_ hshaken ?_
      · rw [replyExpires_iff ho hn, hw]
        rintro ⟨g, hg, ht⟩
        obtain rfl := Except.error.inj hg
        simp [hf] at ht
      · rw [Error.isTimeout, hf]
        exact hread

/-- A run with a handshake accounts for its deadlines. -/
theorem runAccounts_of_agreed (hfull : script.Full) (h : (shakeHands ctx script link).1 = .ok v) :
    RunAccounts ctx script link := by
  obtain ⟨p, ho, hn, hw⟩ := agreed_of_shakeHands ctx h
  obtain ⟨rest, hr, -⟩ := Handshake.read_of_opening ho
  have hread := expiries_shakeHands ctx script link
  rw [hr] at hread
  obtain ⟨hstate, hlink, -⟩ := run_of_agreed hfull h
  refine .inr ⟨?_, ?_⟩
  · rw [replyExpires_iff ho hn, hw]
    rintro ⟨f, hf, -⟩
    simp at hf
  · rw [hstate, hlink]
    exact (accounts_follow ctx v script script.cues _).of_eq hread

/-- Every run accounts for its deadlines. -/
theorem runAccounts (ctx : Context) (hfull : script.Full) (hlines : script.blocks ≠ [])
    (link : Link) : RunAccounts ctx script link := by
  cases h : (shakeHands ctx script link).1 with
  | error e => exact runAccounts_of_refused ctx hlines ((shakeHands_error_iff ctx).mp h)
  | ok v => exact runAccounts_of_agreed hfull h

/-- A run ends as a timeout, and the program with its status, exactly if a deadline expires in a
read, wherever that is, or while the handshake is answered. When one expires while an action is
performed, the run fails like for any other fault of a write. -/
theorem run_timeout_iff (ctx : Context) {text : String} (hparse : Script.parse text = .ok script)
    (hlines : script.blocks ≠ []) (link : Link) :
    let ended := run ctx script link
    let expires := ended.link.source.expiries < link.source.expiries ∨ ReplyExpires script link
    (∀ d, ended.conversation.state = .failed (.timeout d) ↔
      d = ctx.settings.timeout.getD .zero ∧ expires) ∧
    ((Verdict.ofState ended.conversation.state).code = 2 ↔ expires) ∧
    ∀ f, f.isTimeout = true → ActionFails ctx script link f →
      ended.conversation.state = .failed (.writeError (Error.io f).message) ∧
        (Verdict.ofState ended.conversation.state).code = 1 := by
  intro ended expires
  have hfull := Script.full_of_parse hparse
  have heither : expires ∧
      ended.conversation.state = .failed (.timeout (ctx.settings.timeout.getD .zero)) ∨
      ¬expires ∧ ∀ d, ended.conversation.state ≠ .failed (.timeout d) := by
    rcases runAccounts ctx hfull hlines link with ⟨hreply, hstate⟩ | ⟨hreply, haccounts⟩
    · exact .inl ⟨.inr hreply, hstate⟩
    · rcases haccounts.timeout_or_not with ⟨hlt, hstate⟩ | ⟨hle, hstate⟩
      · exact .inl ⟨.inl hlt, hstate⟩
      · exact .inr ⟨not_or.mpr ⟨hle, hreply⟩, hstate⟩
  refine ⟨fun d ↦ ?_, ?_, fun f _ hf ↦ ?_⟩
  · rcases heither with ⟨hexpires, hstate⟩ | ⟨hnone, hstate⟩
    · rw [hstate, State.failed.injEq, Failure.timeout.injEq, eq_comm]
      exact (and_iff_left hexpires).symm
    · exact iff_of_false (hstate d) (fun h ↦ hnone h.2)
  · rw [Verdict.code_eq_two_iff]
    rcases heither with ⟨hexpires, hstate⟩ | ⟨hnone, hstate⟩
    · exact iff_of_true ⟨_, hstate⟩ hexpires
    · exact iff_of_false (fun ⟨d, hd⟩ ↦ hstate d hd) hnone
  · have hstate := state_of_actionFails hfull hf
    exact ⟨hstate, by rw [hstate]; rfl⟩

/-! ### Deadlines at a keep-alive -/

open Script (pulse parse_pulse)

/-- Settings with a deadline. -/
private def hurried : Context := ⟨{ Settings.default with timeout := some ⟨5⟩ }, "peer"⟩

/-- A client that is silent after the magic. -/
private def silent : Link where
  source := [.deliver Handshake.magic, .fail ⟨.wouldBlock, "silent"⟩]
  sink := .unbounded

/-- A client that proposes version 1.0, and takes no more than so many bytes in time. -/
private def stalled (limit : Nat) : Link where
  source := [.deliver (Handshake.magic ++ (⟨1, 0, 0, 0⟩ : Handshake.Proposals).bytes)]
  sink := .bounded (some limit) none (some ⟨.timedOut, "slow"⟩) none

private theorem expires_silent :
    (run hurried pulse silent).link.source.expiries < silent.source.expiries := by
  have hshaken : (shakeHands hurried pulse silent).1 =
      .error (.io ⟨.wouldBlock, "silent"⟩) := by rfl
  rw [(run_of_refused hshaken).2.1]
  decide

private theorem replyExpires_stalled : ReplyExpires pulse (stalled 3) :=
  ⟨⟨1, 0, 0, 0⟩, ⟨1, 0⟩, ⟨.timedOut, "slow"⟩, rfl, rfl, by with_unfolding_all rfl, rfl⟩

private theorem actionFails_stalled :
    ActionFails hurried pulse (stalled 4) ⟨.timedOut, "slow"⟩ := by
  have hopening : Handshake.opening? (stalled 4).source = some ⟨1, 0, 0, 0⟩ := rfl
  have hversion : Handshake.negotiate ⟨1, 0, 0, 0⟩ pulse.version? = .ok ⟨1, 0⟩ := rfl
  have hanswer : ((stalled 4).sink.send (pulse.answerTo ⟨1, 0⟩)).1 = .ok () := by
    with_unfolding_all rfl
  obtain ⟨rest, -, -, hafter, -, hok⟩ := shakeHands_of_agreed hurried hopening hversion
  have hshaken := hok hanswer
  obtain ⟨-, -, hmoments⟩ := run_of_agreed (Script.full_of_parse parse_pulse) hshaken
  refine ⟨⟨1, 0⟩, 0, ⟨1, .keepAlive⟩, _, [0, 0], hshaken, rfl, rfl, ?_, rfl, ?_⟩
  · have hcues : pulse.cues = [.perform ⟨1, .keepAlive⟩] := rfl
    rw [hmoments, hcues, footsteps]
    split <;> simp
  · rw [hafter]
    with_unfolding_all rfl

/-- A client that is silent in its opening or does not take the reply in time ends the run as a
timeout; one that takes the reply and not the keep-alive does not. -/
theorem run_timeout_iff_pulse :
    (run hurried pulse silent).conversation.state = .failed (.timeout ⟨5⟩) ∧
      (Verdict.ofState (run hurried pulse (stalled 3)).conversation.state).code = 2 ∧
      (Verdict.ofState (run hurried pulse (stalled 4)).conversation.state).code = 1 := by
  have hlines : pulse.blocks ≠ [] := List.cons_ne_nil _ _
  obtain ⟨hsilent, -, -⟩ := run_timeout_iff hurried parse_pulse hlines silent
  obtain ⟨-, hreply, -⟩ := run_timeout_iff hurried parse_pulse hlines (stalled 3)
  obtain ⟨-, -, haction⟩ := run_timeout_iff hurried parse_pulse hlines (stalled 4)
  exact ⟨(hsilent ⟨5⟩).mpr ⟨rfl, .inl expires_silent⟩, hreply.mpr (.inr replyExpires_stalled),
    (haction _ rfl actionFails_stalled).2⟩

/-- A client that does not take the keep-alive in time ends the run, but not as a timeout. -/
theorem run_not_timeout_stalled :
    Script.parse "S: <NOOP>" = .ok pulse ∧ pulse.blocks ≠ [] ∧
      (⟨.timedOut, "slow"⟩ : Fault).isTimeout = true ∧
      ActionFails hurried pulse (stalled 4) ⟨.timedOut, "slow"⟩ ∧
      (run hurried pulse (stalled 4)).conversation.state = .failed (.writeError "IO error: slow") ∧
      (Verdict.ofState (run hurried pulse (stalled 4)).conversation.state).code = 1 := by
  have hstate := state_of_actionFails (Script.full_of_parse parse_pulse) actionFails_stalled
  exact ⟨parse_pulse, List.cons_ne_nil _ _, rfl, actionFails_stalled, hstate, by rw [hstate]; rfl⟩

end Session

end ScriptedBolt
