import ScriptedBolt.Proofs.Session.Follow
import ScriptedBolt.Proofs.Session.Opening

/-!
# Runs

A run is a handshake, and then the cues of its script are followed with the version that was
chosen. `moments` are the points at which a run can be observed. In between two of them either
only the source is read or only the sink is written, so what a run has done at any time is told
by the moments around it. A handshake that does not succeed is recorded as the failure of the
run, unless the script has no lines: then there is no conversation left to fail.
-/

namespace ScriptedBolt.Session

/-- The connection at first, after the handshake, and after each message and action. -/
def moments (ctx : Context) (script : Script) (link : Link) : List Link :=
  let shaken := shakeHands ctx script link
  link :: shaken.2.1 ::
    match shaken.1 with
    | .error _ => []
    | .ok v => trail ctx v (.start script) shaken.2.1

variable {ctx : Context} {script : Script} {link : Link}

/-- After a handshake that succeeds, the cues of the script are followed. -/
theorem run_of_agreed (hfull : script.Full) {v : Version}
    (h : (shakeHands ctx script link).1 = .ok v) :
    let after := (shakeHands ctx script link).2.1
    (run ctx script link).conversation.state = (follow ctx v script script.cues after).1 ∧
      (run ctx script link).link = (follow ctx v script script.cues after).2 ∧
      moments ctx script link = link :: after :: footsteps ctx v script script.cues after := by
  have hgo := Conversation.stateAt_ne_failed script 0
  obtain ⟨hstate, hlink, htrail⟩ := converse_eq_follow ctx v hfull
    (Conversation.placed_start hfull) hgo (shakeHands ctx script link).2.1
  rw [run_eq, moments]
  generalize shakeHands ctx script link = shaken at *
  obtain ⟨result, after, notes⟩ := shaken
  obtain rfl : result = .ok v := h
  exact ⟨hstate, hlink, congrArg (fun steps ↦ link :: after :: steps) htrail⟩

/-- A run whose handshake succeeds goes on from a connection on which the opening is read and the
reply is written, by following the cues. -/
theorem follow_of_agreed (hfull : script.Full) {v : Version}
    (h : (shakeHands ctx script link).1 = .ok v) :
    ∃ p after, Handshake.opening? link.source = some p ∧
      Handshake.negotiate p script.version? = .ok v ∧
      link.source.bytes = Handshake.magic ++ p.bytes ++ after.source.bytes ∧
      after.sink.output.toList = link.sink.output.toList ++ script.answerTo v ∧
      follow ctx v script script.cues after =
        ((run ctx script link).conversation.state, (run ctx script link).link) ∧
      moments ctx script link = link :: after :: footsteps ctx v script script.cues after := by
  obtain ⟨p, ho, hn, hw⟩ := agreed_of_shakeHands ctx h
  obtain ⟨rest, -, hbytes, hafter, -, -⟩ := shakeHands_of_agreed ctx ho hn
  obtain ⟨accepted, -, hout, hwhole⟩ := Sink.output_send link.sink (script.answerTo v)
  obtain rfl := hwhole hw
  obtain ⟨hstate, hlink, hmoments⟩ := run_of_agreed hfull h
  rw [hafter] at hstate hlink hmoments
  exact ⟨p, _, ho, hn, hbytes, hout, Prod.ext hstate.symm hlink.symm, hmoments⟩

/-- A handshake that fails is recorded, and nothing is done after it. -/
theorem run_of_refused {e : Error} (h : (shakeHands ctx script link).1 = .error e) :
    (run ctx script link).conversation =
        (Conversation.start script).fail (failureOf ctx.settings .handshake e) ∧
      (run ctx script link).link = (shakeHands ctx script link).2.1 ∧
      moments ctx script link = [link, (shakeHands ctx script link).2.1] := by
  rw [run_eq, moments]
  generalize shakeHands ctx script link = shaken at *
  obtain ⟨result, after, notes⟩ := shaken
  obtain rfl : result = .error e := h
  exact ⟨rfl, rfl, rfl⟩

private theorem getLast?_footsteps (v : Version) (cues : List Cue) (link : Link) :
    (link :: footsteps ctx v script cues link).getLast? =
      some (follow ctx v script cues link).2 := by
  induction cues generalizing link with
  | nil => rfl
  | cons cue cues ih =>
    rw [footsteps, follow]
    split
    · next next _ =>
      rw [List.getLast?_cons_cons]
      exact ih next
    · rfl

/-- The last moment of a run is its end. -/
theorem getLast?_moments (hfull : script.Full) :
    (moments ctx script link).getLast? = some (run ctx script link).link := by
  cases h : (shakeHands ctx script link).1 with
  | error e =>
    obtain ⟨-, hlink, hmoments⟩ := run_of_refused h
    rw [hmoments, hlink]
    rfl
  | ok v =>
    obtain ⟨-, hlink, hmoments⟩ := run_of_agreed hfull h
    rw [hmoments, hlink, List.getLast?_cons_cons]
    exact getLast?_footsteps v script.cues _

/-- A conversation has ended from the start if and only if its script has no lines. -/
theorem isTerminal_start (script : Script) :
    (Conversation.start script).isTerminal = true ↔ script.blocks = [] := by
  unfold Conversation.isTerminal Conversation.start Conversation.stateAt
  cases script.blocks with
  | nil => exact iff_of_true rfl rfl
  | cons block blocks =>
    cases block with
    | client lines => simp [State.isTerminal]
    | server lines => simp [State.isTerminal]

/-! ### Runs without a handshake -/

/-- A run fails for the reason that its handshake fails for. -/
theorem state_of_refused (hlines : script.blocks ≠ []) {e : Error}
    (h : (shakeHands ctx script link).1 = .error e) :
    (run ctx script link).conversation.state =
      .failed (failureOf ctx.settings .handshake e) := by
  have hgoing : ¬(Conversation.start script).isTerminal = true :=
    mt (isTerminal_start script).mp hlines
  rw [(run_of_refused h).1, Conversation.fail, if_neg hgoing]

/-- A run whose handshake does not succeed fails with the handshake, or with a timeout if a
deadline has expired. Only a script without lines is complete all the same: its conversation has
ended before the failure can be recorded. -/
theorem run_fails_of_refused (ctx : Context) {e : Error} (h : Refused script link e) :
    (script.blocks ≠ [] → (run ctx script link).conversation.state =
      .failed (if e.isTimeout then .timeout (ctx.settings.timeout.getD .zero)
        else .handshake e.reason)) ∧
    (script.blocks = [] → (run ctx script link).conversation.state = .completed) := by
  obtain ⟨hrun, -, -⟩ := run_of_refused ((shakeHands_error_iff ctx).mpr h)
  rw [hrun]
  constructor
  · intro hne
    have hgoing : ¬(Conversation.start script).isTerminal = true :=
      mt (isTerminal_start script).mp hne
    rw [Conversation.fail, if_neg hgoing]
    rfl
  · intro hnil
    rw [Conversation.fail, if_pos ((isTerminal_start script).mpr hnil)]
    show Conversation.stateAt script 0 = .completed
    rw [Conversation.stateAt, hnil]
    rfl

/-- A peer that offers version 9.0 alone. -/
private def stranger : Link where
  source := [.deliver (Handshake.magic ++ [0, 0, 0, 9] ++ List.replicate 12 0)]
  sink := .unbounded

private theorem refused_stranger (script : Script) (h : script.version? = none) :
    Refused script stranger (.handshake (.noneSupported [⟨9, 0⟩])) := by
  refine .disagreed (p := ⟨9, 0, 0, 0⟩) (by decide) ?_
  rw [h]
  rfl

/-- A script with a line fails with the handshake, one without completes. -/
theorem run_fails_of_refused_stranger :
    (run ⟨.default, "peer"⟩ ⟨[.client [⟨1, ⟨"RESET", []⟩⟩]], []⟩ stranger).conversation.state =
        .failed (.handshake "No supported protocol version offered (offered 9.0)") ∧
      (run ⟨.default, "peer"⟩ ⟨[], []⟩ stranger).conversation.state = .completed := by
  have hfails := (run_fails_of_refused ⟨.default, "peer"⟩
    (refused_stranger ⟨[.client [⟨1, ⟨"RESET", []⟩⟩]], []⟩ rfl)).1 (by simp)
  exact ⟨hfails, (run_fails_of_refused _ (refused_stranger ⟨[], []⟩ rfl)).2 rfl⟩

/-- The empty text is a script whose run completes although no version can be spoken. -/
theorem completes_unshaken :
    Script.parse "" = .ok ⟨[], []⟩ ∧
      Refused ⟨[], []⟩ stranger (.handshake (.noneSupported [⟨9, 0⟩])) ∧
      (run ⟨.default, "peer"⟩ ⟨[], []⟩ stranger).conversation.state = .completed := by
  refine ⟨by cbv, refused_stranger ⟨[], []⟩ rfl, ?_⟩
  obtain ⟨hrun, -, -⟩ := run_of_refused
    ((shakeHands_error_iff ⟨.default, "peer"⟩).mpr (refused_stranger ⟨[], []⟩ rfl))
  rw [hrun]
  rfl

end ScriptedBolt.Session
