import Mathlib.Data.List.Forall2
import ScriptedBolt.Proofs.Conversation.Turns

/-!
# Walking a script

A caller walks a conversation through its script with the messages of a client: it reports every
block of the server as performed at once, and otherwise tells of the next message. What comes of
that is what comes of comparing the messages with the lines of the client one by one
(`walk_compares`), whatever the blocks between these lines are: the first message that does not
match its line fails the conversation there, and without one the walk ends behind the last line, or
before the first line that no message is left for.
-/

namespace ScriptedBolt

/-- Whether a message matches the line of the client that stands at the same index, if both are
there. -/
def Script.AgreesAt (s : Script) (ms : List Message) (i : Nat) : Prop :=
  ∀ e m, (Cue.expects s.cues)[i]? = some e → ms[i]? = some m → s.matchesLine e m = true

open Conversation (Turn)

/-- Whether a line is the line of the client at an index, with the turns before it and behind it. -/
structure Script.LineAt (s : Script) (i : Nat) (e : Expect) (before behind : List Turn) :
    Prop where
  turns_eq : s.turns = before ++ .hear e :: behind
  before_eq : Turn.expects before = (Cue.expects s.cues).take i

namespace Conversation

private theorem ahead_repliesSent_of_sending {c : Conversation} (hs : c.state = .sendingServer) :
    c.repliesSent.ahead < c.ahead := by
  cases hb : c.script.blocks[c.block]? with
  | some b =>
    have hweight := weight_succ hb
    have hadvance := ahead_advance_le c
    simp only [repliesSent, ahead, hs] at hadvance ⊢
    omega
  | none =>
    have hle := List.getElem?_eq_none_iff.mp hb
    have hnext : c.script.blocks[c.block + 1]? = none := List.getElem?_eq_none_iff.mpr (by omega)
    simp only [repliesSent, ahead, hs, advance, stateAt, hnext, weight]
    omega

/-- Whether the server has its turn. -/
def isSending (c : Conversation) : Bool :=
  match c.state with
  | .sendingServer => true
  | _ => false

theorem isSending_iff (c : Conversation) : c.isSending = true ↔ c.state = .sendingServer := by
  unfold isSending
  split <;> simp_all

/-- Walks a conversation through its script with messages. Gives the conversation at the end, and
what it offered to be performed at each report that a block was. -/
def walk (c : Conversation) (ms : List Message) : Conversation × List (Option (List Reply)) :=
  if hs : c.isSending then
    have := ahead_repliesSent_of_sending ((isSending_iff c).mp hs)
    let rest := walk c.repliesSent ms
    (rest.1, c.replies? :: rest.2)
  else
    match ms with
    | [] => (c, [])
    | m :: ms => walk (c.receive m) ms
termination_by (ms.length, c.ahead)

variable {c : Conversation}

/-! ### Steps of a walk -/

/-- While the server has its turn, a walk reports its block. -/
theorem walk_of_sending (hs : c.isSending = true) (ms : List Message) :
    c.walk ms = ((c.repliesSent.walk ms).1, c.replies? :: (c.repliesSent.walk ms).2) := by
  rw [walk.eq_def, dif_pos hs]

/-- A walk ends where it has no message to go on with. -/
theorem walk_nil (hs : ¬c.isSending = true) : c.walk [] = (c, []) := by
  rw [walk.eq_def, dif_neg hs]

/-- A walk goes on with the next message. -/
theorem walk_cons (hs : ¬c.isSending = true) (m : Message) (ms : List Message) :
    c.walk (m :: ms) = (c.receive m).walk ms := by
  rw [walk.eq_def, dif_neg hs]

/-- A walk with more messages goes on where the walk without them ends. -/
theorem walk_append (c : Conversation) (ms more : List Message) :
    c.walk (ms ++ more) =
      (((c.walk ms).1.walk more).1, (c.walk ms).2 ++ ((c.walk ms).1.walk more).2) := by
  fun_induction walk c ms with
  | case1 c ms hs _ rest ih =>
    rw [walk_of_sending hs, ih]
    rfl
  | case2 c hs => rfl
  | case3 c hs m ms ih => rw [List.cons_append, walk_cons hs, ih]

/-- A walk from the end stays there. -/
theorem walk_of_terminal (h : c.isTerminal = true) (ms : List Message) : c.walk ms = (c, []) := by
  have hs : ¬c.isSending = true := by
    rw [isSending_iff]
    intro hs
    simp [isTerminal, State.isTerminal, hs] at h
  have hsame (m : Message) : c.receive m = c := by
    unfold receive
    split
    · next hs _ => simp [isTerminal, State.isTerminal, hs] at h
    · rfl
  induction ms with
  | nil => exact walk_nil hs
  | cons m ms ih => rw [walk_cons hs, hsame, ih]

/-! ### Whole walks -/

/-- Whether a walk passes turns and offers the blocks among them, and is then on its script with no
block to report. -/
structure Walked (c : Conversation) (passed : List Turn)
    (result : Conversation × List (Option (List Reply))) : Prop where
  onScript : result.1.OnScript
  script_eq : result.1.script = c.script
  still : result.1.state ≠ .sendingServer
  upcoming_eq : c.upcoming = passed ++ result.1.upcoming
  offered : result.2 = (Turn.performances passed).map some

/-- A walk whose messages match the first lines of the client passes these lines. -/
theorem OnScript.walked (h : c.OnScript) {lines rest : List Expect} {ms : List Message}
    (hm : List.Forall₂ (fun e m ↦ c.script.matchesLine e m = true) lines ms)
    (hl : Turn.expects c.upcoming = lines ++ rest) :
    ∃ passed, Walked c passed (c.walk ms) ∧ Turn.expects passed = lines := by
  fun_induction walk c ms generalizing lines with
  | case1 c ms hs _ after ih =>
    obtain ⟨replies, -, hr, hu, hsent, hscript⟩ := h.speaks ((isSending_iff c).mp hs)
    have hl' : Turn.expects c.repliesSent.upcoming = lines ++ rest := by
      rw [hu] at hl
      exact hl
    obtain ⟨passed, hw, hlines⟩ := ih hsent (hscript ▸ hm) hl'
    refine ⟨.speak replies :: passed,
      ⟨hw.onScript, hw.script_eq.trans hscript, hw.still, ?_, ?_⟩, hlines⟩
    · rw [hu, hw.upcoming_eq]
      rfl
    · rw [hr, hw.offered]
      rfl
  | case2 c hs =>
    cases hm
    exact ⟨[], ⟨h, rfl, mt (isSending_iff c).mpr hs, rfl, rfl⟩, rfl⟩
  | case3 c hs m ms ih =>
    cases hm with
    | @cons e _ lines _ hmatch hm =>
      obtain ⟨-, ht, behind, hu⟩ := h.hears_of_expects (mt (isSending_iff c).mpr hs) hl
      have hbehind : Turn.expects behind = lines ++ rest := by
        rw [hu] at hl
        exact (List.cons.inj hl).2
      obtain ⟨hon, hup, hscript⟩ := h.receive ht hu hmatch
      obtain ⟨passed, hw, hlines⟩ := ih hon (hscript ▸ hm) (hup ▸ hbehind)
      refine ⟨.hear e :: passed,
        ⟨hw.onScript, hw.script_eq.trans hscript, hw.still, ?_, hw.offered⟩,
        congrArg (e :: ·) hlines⟩
      rw [hu, ← hup, hw.upcoming_eq]
      rfl

variable {script : Script} {ms : List Message}

/-- After the messages of lines that agree, a walk stands before the next line, or behind the last
one. -/
theorem walked_take (hfull : script.Full) {n : Nat} (hagree : ∀ j < n, script.AgreesAt ms j)
    (hms : n ≤ ms.length) (hlines : n ≤ (Cue.expects script.cues).length) :
    let result := (start script).walk (ms.take n)
    ∃ passed, Walked (start script) passed result ∧
      Turn.expects passed = (Cue.expects script.cues).take n ∧
      Turn.expects result.1.upcoming = (Cue.expects script.cues).drop n := by
  have hmatch : List.Forall₂ (fun e m ↦ script.matchesLine e m = true)
      ((Cue.expects script.cues).take n) (ms.take n) := by
    rw [List.forall₂_iff_get]
    refine ⟨by simp [hms, hlines], ?_⟩
    intro j hj hj'
    rw [List.length_take] at hj hj'
    have hjn : j < n := by omega
    apply hagree j hjn
    · simp
    · simp
  have hall : Turn.expects (start script).upcoming =
      (Cue.expects script.cues).take n ++ (Cue.expects script.cues).drop n := by
    rw [upcoming_start, Script.expects_turns, List.take_append_drop]
  obtain ⟨passed, hw, htaken⟩ := (onScript_start hfull).walked hmatch hall
  refine ⟨passed, hw, htaken, ?_⟩
  rw [hw.upcoming_eq, Turn.expects, List.filterMap_append] at hall
  exact List.append_cancel_left (htaken ▸ hall)

/-- A walk stops at the first line that agrees with no message. -/
theorem walk_of_mismatch (hfull : script.Full) {i : Nat} {e : Expect} {m : Message}
    (he : (Cue.expects script.cues)[i]? = some e) (hm : ms[i]? = some m)
    (hmatch : script.matchesLine e m = false) (hagree : ∀ j < i, script.AgreesAt ms j) :
    ((start script).walk ms).1.state = .failed (.mismatch e m) ∧
      ∃ before behind, script.LineAt i e before behind ∧
        ((start script).walk ms).2 = (Turn.performances before).map some := by
  obtain ⟨hlt, he⟩ := List.getElem?_eq_some_iff.mp he
  obtain ⟨hlt', hm⟩ := List.getElem?_eq_some_iff.mp hm
  obtain ⟨passed, hw, htaken, hexp⟩ :=
    walked_take hfull hagree (Nat.le_of_lt hlt') (Nat.le_of_lt hlt)
  rw [List.drop_eq_getElem_cons hlt, he] at hexp
  obtain ⟨-, ht, behind, hu⟩ := hw.onScript.hears_of_expects hw.still hexp
  have hfailed := receive_of_mismatch ht (by rw [hw.script_eq]; exact hmatch)
  have hsplit : ms = ms.take i ++ m :: ms.drop (i + 1) := by
    rw [← hm, ← List.drop_eq_getElem_cons hlt', List.take_append_drop]
  rw [hsplit, walk_append, walk_cons (mt (isSending_iff _).mp hw.still),
    walk_of_terminal (isTerminal_of_failed hfailed), List.append_nil]
  exact ⟨hfailed, passed, behind, ⟨hu ▸ hw.upcoming_eq, htaken⟩, hw.offered⟩

/-- A walk with an agreeing message for each line goes through the whole script. -/
theorem walk_of_agreement (hfull : script.Full) (hagree : ∀ j, script.AgreesAt ms j)
    (hle : (Cue.expects script.cues).length ≤ ms.length) :
    ((start script).walk ms).1.state = .completed ∧
      ((start script).walk ms).2 = (Turn.performances script.turns).map some := by
  obtain ⟨passed, hw, htaken, hexp⟩ := walked_take hfull (fun j _ ↦ hagree j) hle (Nat.le_refl _)
  rw [List.drop_length] at hexp
  have hcompleted := hw.onScript.completed_of_expects hw.still hexp
  have hpassed := hw.upcoming_eq
  rw [hw.onScript.upcoming_of_completed hcompleted, List.append_nil] at hpassed
  have hend := walk_of_terminal (isTerminal_of_completed hcompleted)
    (ms.drop (Cue.expects script.cues).length)
  have hwalk := walk_append (start script) (ms.take (Cue.expects script.cues).length)
    (ms.drop (Cue.expects script.cues).length)
  rw [List.take_append_drop, hend, List.append_nil] at hwalk
  rw [hwalk, ← upcoming_start, hpassed]
  exact ⟨hcompleted, hw.offered⟩

/-- A walk with agreeing messages, but not enough, stops before the first line without one. -/
theorem walk_of_shortage (hfull : script.Full) {e : Expect} (hagree : ∀ j, script.AgreesAt ms j)
    (he : (Cue.expects script.cues)[ms.length]? = some e) :
    let last := ((start script).walk ms).1
    last.state = .awaitingClient ∧ last.expected? = some e ∧
      ∃ before behind, script.LineAt ms.length e before behind ∧
        ((start script).walk ms).2 = (Turn.performances before).map some ∧
        last.remaining = ((Turn.hear e :: behind).flatMap Turn.cues).length := by
  obtain ⟨hlt, he⟩ := List.getElem?_eq_some_iff.mp he
  obtain ⟨passed, hw, htaken, hexp⟩ :=
    walked_take hfull (fun j _ ↦ hagree j) (Nat.le_refl ms.length) (Nat.le_of_lt hlt)
  rw [List.take_length] at hw hexp
  rw [List.drop_eq_getElem_cons hlt, he] at hexp
  obtain ⟨hs, ht, behind, hu⟩ := hw.onScript.hears_of_expects hw.still hexp
  exact ⟨hs, (expected?_of_turn ht).2, passed, behind, ⟨hu ▸ hw.upcoming_eq, htaken⟩, hw.offered,
    by rw [hw.onScript.remaining_eq hs, hu]⟩

/-- What becomes of a walk depends on the first message that does not match the line of the client
at its index. The walk ends at that line; without such a message it ends behind the last line, or at
the first line that no message is left for. The server's blocks that it passes are offered in order,
each for one report, and more messages change nothing once it has ended. -/
theorem walk_compares {text : String} (hparse : Script.parse text = .ok script)
    (ms : List Message) :
    let lines := Cue.expects script.cues
    let last := ((start script).walk ms).1
    let offered := ((start script).walk ms).2
    (∀ i e m, lines[i]? = some e → ms[i]? = some m → script.matchesLine e m = false →
      (∀ j < i, script.AgreesAt ms j) →
      last.state = .failed (.mismatch e m) ∧ ∃ before behind, script.LineAt i e before behind ∧
        offered = (Turn.performances before).map some) ∧
    ((∀ j, script.AgreesAt ms j) → lines.length ≤ ms.length →
      last.state = .completed ∧ offered = (Turn.performances script.turns).map some) ∧
    (∀ e, (∀ j, script.AgreesAt ms j) → lines[ms.length]? = some e →
      last.state = .awaitingClient ∧ last.expected? = some e ∧
      ∃ before behind, script.LineAt ms.length e before behind ∧
        offered = (Turn.performances before).map some ∧
        last.remaining = ((Turn.hear e :: behind).flatMap Turn.cues).length) ∧
    (last.isTerminal = true → ∀ more, (start script).walk (ms ++ more) = (last, offered)) := by
  have hfull := Script.full_of_parse hparse
  refine ⟨fun i e m he hm hmatch hagree ↦ walk_of_mismatch hfull he hm hmatch hagree,
    walk_of_agreement hfull, fun e hagree he ↦ walk_of_shortage hfull hagree he, ?_⟩
  intro hend more
  rw [walk_append, walk_of_terminal hend, List.append_nil]

/-- A reset completes a script of a reset and a keep-alive, which is offered once. Another message
fails at the line of the reset, before anything is offered. -/
theorem walk_compares_dialogue :
    (((start Script.dialogue).walk [⟨"RESET", []⟩, ⟨"RESET", []⟩]).1.state = .completed ∧
      ((start Script.dialogue).walk [⟨"RESET", []⟩, ⟨"RESET", []⟩]).2 =
        [some [⟨2, .keepAlive⟩]]) ∧
    ((start Script.dialogue).walk [⟨"GOODBYE", []⟩]).1.state =
        .failed (.mismatch ⟨1, ⟨"RESET", []⟩⟩ ⟨"GOODBYE", []⟩) ∧
      ((start Script.dialogue).walk [⟨"GOODBYE", []⟩]).2 = [] := by
  have hreset := walk_compares Script.parse_dialogue [⟨"RESET", []⟩, ⟨"RESET", []⟩]
  have hgoodbye := walk_compares Script.parse_dialogue [⟨"GOODBYE", []⟩]
  constructor
  · apply hreset.2.1
    · intro j e m he hm
      match j with
      | 0 =>
        obtain rfl := Option.some.inj he
        obtain rfl := Option.some.inj hm
        rfl
      | j + 1 => exact absurd (show none = some e from he) nofun
    · decide
  · obtain ⟨hfailed, before, behind, ⟨hturns, hbefore⟩, hoffered⟩ :=
      hgoodbye.1 0 _ _ rfl rfl rfl (by simp)
    refine ⟨hfailed, hoffered.trans ?_⟩
    cases before with
    | nil => rfl
    | cons turn before =>
      obtain rfl : .hear ⟨1, ⟨"RESET", []⟩⟩ = turn := (List.cons.inj hturns).1
      simp [Turn.expects, Turn.expect?] at hbefore

end Conversation

end ScriptedBolt
