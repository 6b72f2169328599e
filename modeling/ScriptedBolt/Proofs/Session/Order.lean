import ScriptedBolt.Proofs.Session.Passage
import ScriptedBolt.Proofs.Session.Run

/-!
# The order of a session

At no time does the server speak ahead of its script. Whatever a run comes to, what it has
written by any moment is the beginning of the reply and the actions in their order, and once it
has written any of an action, the messages of all lines before that action have been read. Both
follow from the passage that leads to the moment: an action that is begun is either one of those
taken or the one after them.
-/

namespace ScriptedBolt.Session

variable {ctx : Context} {v : Version} {script : Script} {link after : Link}

/-- What a passage has written is the beginning of what there is to write. -/
theorem Passage.written_prefix {cues done rest : List Cue} {frames : List Bytes}
    {lost part : Bytes} (hp : Passage ctx v script link done frames lost part after)
    (hw : cues = done ++ rest) (hpart : part <+: spoken ctx.settings v (rest.take 1)) :
    ∃ out, after.sink.output.toList = link.sink.output.toList ++ out ∧
      out <+: spoken ctx.settings v cues ∧ out = spoken ctx.settings v done ++ part := by
  refine ⟨_, by rw [hp.output, List.append_assoc], ?_, rfl⟩
  rw [hw, spoken_append, List.prefix_append_right_inj]
  refine hpart.trans ?_
  conv => rhs; rw [← List.take_append_drop 1 rest]
  rw [spoken_append]
  exact List.prefix_append ..

/-- A passage that has written any of an action has read the messages of all lines before it. -/
theorem Passage.heard_before {done rest before behind : List Cue} {r : Reply}
    {frames : List Bytes} {lost part : Bytes}
    (hp : Passage ctx v script link done frames lost part after)
    (hpart : part <+: spoken ctx.settings v (rest.take 1))
    (hw : done ++ rest = before ++ .perform r :: behind)
    (hlen : (spoken ctx.settings v before).length <
      (spoken ctx.settings v done ++ part).length) :
    ∃ (heard : List Bytes) (other : Bytes),
      List.Forall₂ (Heard v script) (Cue.expects before) heard ∧
      link.source.bytes = heard.flatten ++ other ++ after.source.bytes := by
  have inDone (more : List Cue) (hd : done = before ++ more) :
      ∃ (heard : List Bytes) (other : Bytes),
        List.Forall₂ (Heard v script) (Cue.expects before) heard ∧
        link.source.bytes = heard.flatten ++ other ++ after.source.bytes := by
    have hexpects : Cue.expects done = Cue.expects before ++ Cue.expects more := by
      rw [hd]
      exact List.filterMap_append
    have hheard := List.forall₂_take (Cue.expects before).length hp.heard
    rw [hexpects, List.take_left] at hheard
    refine ⟨_, (frames.drop (Cue.expects before).length).flatten ++ lost, hheard, ?_⟩
    conv => lhs; rw [hp.source, ← List.take_append_drop (Cue.expects before).length frames]
    rw [List.flatten_append]
    simp only [List.append_assoc]
  rcases List.append_eq_append_iff.mp hw with ⟨more, hb, hr⟩ | ⟨more, hd, -⟩
  · cases more with
    | nil => exact inDone [] (by rw [hb, List.append_nil, List.append_nil])
    | cons cue more =>
      -- The action lies beyond the one that is being written, so none of it is.
      exfalso
      rw [hr] at hpart
      have hle := hpart.length_le
      rw [List.cons_append, List.take_succ_cons, List.take_zero] at hpart hle
      have hmore := spoken_append ctx.settings v [cue] more
      rw [List.singleton_append] at hmore
      rw [hb, spoken_append, hmore, List.length_append, List.length_append,
        List.length_append] at hlen
      omega
  · exact inDone more hd

/-- Whether `out` is in order as what a run has written by a moment. Nothing is written unless the
opening of the client is read, and the word zero at most if no version can be chosen. Else it is
the beginning of the reply and of the actions within reach, and the messages of all lines before
an action have been read if any of that action is written. -/
inductive InOrder (ctx : Context) (script : Script) (link now : Link) (out : Bytes) : Prop
  | unopened (ho : Handshake.opening? link.source = none) (h : out = [])
  | declined {p : Handshake.Proposals} {e : Error}
    (ho : Handshake.opening? link.source = some p)
    (hn : Handshake.negotiate p script.version? = .error e) (h : out <+: [0, 0, 0, 0])
  | agreed {p : Handshake.Proposals} {v : Version}
    (ho : Handshake.opening? link.source = some p)
    (hn : Handshake.negotiate p script.version? = .ok v)
    (h : out <+: script.answerTo v ++ spoken ctx.settings v (within ctx.settings v script.cues))
    (hheard : ∀ before r behind,
      within ctx.settings v script.cues = before ++ .perform r :: behind →
      (script.answerTo v ++ spoken ctx.settings v before).length < out.length →
      ∃ (heard : List Bytes) (other : Bytes),
        List.Forall₂ (Heard v script) (Cue.expects before) heard ∧
        link.source.bytes = Handshake.magic ++ p.bytes ++ heard.flatten ++ other ++
          now.source.bytes)

/-- Whether a connection is where a mismatch leaves it: all the actions before the line that is
not matched are written and no more, and nothing is read after the message that does not match
it. -/
inductive Stopped (ctx : Context) (script : Script) (link now : Link) (e : Expect) (m : Message) :
    Prop
  | mismatched {p : Handshake.Proposals} {v : Version} {before behind : List Cue}
    {heard : List Bytes} {frame : Bytes} (ho : Handshake.opening? link.source = some p)
    (hn : Handshake.negotiate p script.version? = .ok v)
    (hw : within ctx.settings v script.cues = before ++ .hear e :: behind)
    (hheard : List.Forall₂ (Heard v script) (Cue.expects before) heard)
    (hb : Frame.Brings v .client frame m) (hm : script.matchesLine e m = false)
    (hsource : link.source.bytes = Handshake.magic ++ p.bytes ++ heard.flatten ++ frame ++
      now.source.bytes)
    (hout : now.sink.output.toList = link.sink.output.toList ++ script.answerTo v ++
      spoken ctx.settings v before)

/-- A part of the reply is in order whatever has been read. -/
private theorem inOrder_of_reply {p : Handshake.Proposals} {now : Link} {out : Bytes}
    (ho : Handshake.opening? link.source = some p)
    (hn : Handshake.negotiate p script.version? = .ok v) (h : out <+: script.answerTo v) :
    InOrder ctx script link now out := by
  refine .agreed ho hn (h.trans (List.prefix_append ..)) ?_
  intro before r behind _ hlen
  have hle := h.length_le
  rw [List.length_append] at hlen
  omega

/-- Nothing written is always in order. -/
private theorem inOrder_nil (now : Link) : InOrder ctx script link now [] := by
  cases ho : Handshake.opening? link.source with
  | none => exact .unopened ho rfl
  | some p =>
    cases hn : Handshake.negotiate p script.version? with
    | error e => exact .declined ho hn List.nil_prefix
    | ok v => exact inOrder_of_reply ho hn List.nil_prefix

/-- What a handshake writes that does not succeed is in order. -/
private theorem inOrder_of_refused {e : Error} (h : Refused script link e) (now : Link) :
    ∃ out, (shakeHands ctx script link).2.1.sink.output.toList =
      link.sink.output.toList ++ out ∧ InOrder ctx script link now out := by
  cases h with
  | spoilt hs =>
    obtain ⟨-, hsink⟩ := shakeHands_of_spoilt ctx script hs
    exact ⟨[], by rw [hsink, List.append_nil], inOrder_nil now⟩
  | disagreed ho hn =>
    obtain ⟨-, hsink⟩ := shakeHands_of_disagreed ctx ho hn
    obtain ⟨part, hpart, hout, -⟩ := Sink.output_send link.sink [0, 0, 0, 0]
    exact ⟨part, by rw [hsink, hout], .declined ho hn hpart⟩
  | @unanswered p v f ho hn hw =>
    obtain ⟨rest, -, -, hafter, -, -⟩ := shakeHands_of_agreed ctx ho hn
    obtain ⟨part, hpart, hout, -⟩ := Sink.output_send link.sink (script.answerTo v)
    exact ⟨part, by rw [hafter, hout], inOrder_of_reply ho hn hpart⟩

/-- What is written while the cues are followed is in order. -/
private theorem inOrder_of_footsteps {p : Handshake.Proposals} {now : Link}
    (ho : Handshake.opening? link.source = some p)
    (hn : Handshake.negotiate p script.version? = .ok v)
    (hbytes : link.source.bytes = Handshake.magic ++ p.bytes ++ after.source.bytes)
    (hout : after.sink.output.toList = link.sink.output.toList ++ script.answerTo v)
    (h : now ∈ footsteps ctx v script script.cues after) :
    ∃ out, now.sink.output.toList = link.sink.output.toList ++ out ∧
      InOrder ctx script link now out := by
  obtain ⟨done, rest, frames, lost, part, hw, hpart, hp⟩ := passage_of_footsteps h
  obtain ⟨out, hsaid, hprefix, heq⟩ := hp.written_prefix hw hpart
  refine ⟨script.answerTo v ++ out, ?_, .agreed ho hn ?_ ?_⟩
  · rw [hsaid, hout, List.append_assoc]
  · exact (List.prefix_append_right_inj _).mpr hprefix
  · intro before r behind hr hlen
    rw [List.length_append, List.length_append, Nat.add_lt_add_iff_left, heq] at hlen
    obtain ⟨heard, other, hheard, hsource⟩ :=
      hp.heard_before hpart (hw.symm.trans hr) hlen
    refine ⟨heard, other, hheard, ?_⟩
    rw [hbytes, hsource]
    simp only [List.append_assoc]

/-- What is written by any moment of a run is in order. -/
theorem inOrder_of_moments (hfull : script.Full) {now : Link}
    (h : now ∈ moments ctx script link) :
    ∃ out, now.sink.output.toList = link.sink.output.toList ++ out ∧
      InOrder ctx script link now out := by
  have hfirst : ∃ out, link.sink.output.toList = link.sink.output.toList ++ out ∧
      InOrder ctx script link link out := ⟨[], (List.append_nil _).symm, inOrder_nil link⟩
  cases hs : (shakeHands ctx script link).1 with
  | error e =>
    obtain ⟨-, -, hmoments⟩ := run_of_refused hs
    rw [hmoments, List.mem_cons, List.mem_singleton] at h
    rcases h with rfl | rfl
    · exact hfirst
    · exact inOrder_of_refused ((shakeHands_error_iff ctx).mp hs) _
  | ok v =>
    obtain ⟨p, after, ho, hn, hbytes, hout, -, hmoments⟩ := follow_of_agreed hfull hs
    rw [hmoments, List.mem_cons, List.mem_cons] at h
    rcases h with rfl | rfl | h
    · exact hfirst
    · exact ⟨_, hout, inOrder_of_reply ho hn List.prefix_rfl⟩
    · exact inOrder_of_footsteps ho hn hbytes hout h

/-- A run that ends with a mismatch is where the mismatch leaves it. -/
theorem stopped_of_mismatch (hfull : script.Full) {e : Expect} {m : Message}
    (h : (run ctx script link).conversation.state = .failed (.mismatch e m)) :
    Stopped ctx script link (run ctx script link).link e m := by
  cases hs : (shakeHands ctx script link).1 with
  | error error =>
    obtain ⟨hrun, -, -⟩ := run_of_refused hs
    rw [hrun] at h
    unfold Conversation.fail failureOf at h
    split at h
    · simp only [Conversation.start, Conversation.stateAt] at h
      split at h <;> simp at h
    · split at h <;> simp at h
  | ok v =>
    obtain ⟨p, after, ho, hn, hbytes, hout, hfollow, -⟩ := follow_of_agreed hfull hs
    rw [h] at hfollow
    obtain ⟨before, behind, heard, frame, hwithin, hb, hm, hp⟩ := passage_of_mismatch hfollow
    refine .mismatched ho hn hwithin hp.heard hb hm ?_ ?_
    · rw [hbytes, hp.source]
      simp only [List.append_assoc]
    · rw [hp.output, List.append_nil, hout]

/-- What a run has written by any moment is in order, up to its end. After a mismatch nothing
more is read or written. -/
theorem run_never_ahead {text : String} (hparse : Script.parse text = .ok script) :
    (∀ now ∈ moments ctx script link, ∃ out,
      now.sink.output.toList = link.sink.output.toList ++ out ∧
      InOrder ctx script link now out) ∧
    (moments ctx script link).getLast? = some (run ctx script link).link ∧
    ∀ e m, (run ctx script link).conversation.state = .failed (.mismatch e m) →
      Stopped ctx script link (run ctx script link).link e m := by
  have hfull := Script.full_of_parse hparse
  refine ⟨?_, getLast?_moments hfull, ?_⟩
  · intro now h
    exact inOrder_of_moments hfull h
  · intro e m h
    exact stopped_of_mismatch hfull h

/-- A client that proposes version 1.0 and resets, and then acknowledges a failure. -/
private def stray : Link where
  source := [.deliver (Handshake.magic ++ (⟨1, 0, 0, 0⟩ : Handshake.Proposals).bytes ++
    Frame.ofPayload 2 [0xB0, 0x0F] ++ Frame.ofPayload 2 [0xB0, 0x0E])]
  sink := .unbounded

private theorem mismatched_stray :
    (run ⟨.default, "peer"⟩ Script.encore stray).conversation.state =
      .failed (.mismatch ⟨3, ⟨"RESET", []⟩⟩ ⟨"ACK_FAILURE", []⟩) := by
  with_unfolding_all rfl

private theorem output_stray :
    (run ⟨.default, "peer"⟩ Script.encore stray).link.sink.output.toList = [0, 0, 0, 1, 0, 0] := by
  with_unfolding_all rfl

/-- With a client that strays from the script after its reset, the version is answered and the
keep-alive is written, and the run stops at the message that does not match. -/
theorem run_never_ahead_of_stray :
    let ended := run ⟨.default, "peer"⟩ Script.encore stray
    ended.link.sink.output.toList = [0, 0, 0, 1, 0, 0] ∧
      (∀ now ∈ moments ⟨.default, "peer"⟩ Script.encore stray, ∃ out,
        now.sink.output.toList = out ∧
        InOrder ⟨.default, "peer"⟩ Script.encore stray now out) ∧
      Stopped ⟨.default, "peer"⟩ Script.encore stray ended.link ⟨3, ⟨"RESET", []⟩⟩
        ⟨"ACK_FAILURE", []⟩ := by
  obtain ⟨horder, -, hstop⟩ := run_never_ahead Script.parse_encore
  exact ⟨output_stray, horder, hstop _ _ mismatched_stray⟩

end ScriptedBolt.Session
