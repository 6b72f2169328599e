import Mathlib.Data.List.Chain
import ScriptedBolt.Proofs.Conversation.Events
import ScriptedBolt.Proofs.Conversation.Turns
import ScriptedBolt.Proofs.Session.Run
import ScriptedBolt.Proofs.Wire.Calls

/-!
# The rounds of a run

A session goes round: while its conversation has not ended, it takes the turn that is due. Each
round tells the conversation of one event, and either that event ends it or the turn is behind the
cursor. So the turns that are taken are the first ones of the script, each of them once, and there
is no round that has no turn to take. On a sink that is decided, each write but the last takes a
byte.
-/

namespace ScriptedBolt.Session

open Conversation (Turn)

/-- What the next round comes to; nothing if there is no turn to take. -/
def round? (ctx : Context) (v : Version) (c : Conversation) (link : Link) : Option Progress :=
  match c.turn with
  | .done => none
  | .hear _ => some (hear ctx v c link)
  | .speak replies => some (speak ctx v c link replies)

private theorem ahead_round_lt {ctx : Context} {v : Version} {c : Conversation} {link : Link}
    {step : Progress} (h : round? ctx v c link = some step) :
    step.conversation.ahead < c.ahead := by
  unfold round? at h
  split at h
  · simp at h
  · next ht =>
    obtain rfl := Option.some.inj h
    exact ahead_hear_lt ctx v link ht
  · next ht =>
    obtain rfl := Option.some.inj h
    exact ahead_speak_lt ctx v link ht

/-- The conversation at the start of each round. -/
def roundsFrom (ctx : Context) (v : Version) (c : Conversation) (link : Link) :
    List Conversation :=
  match h : round? ctx v c link with
  | none => []
  | some step =>
    have := ahead_round_lt h
    c :: roundsFrom ctx v step.conversation step.link
termination_by c.ahead

/-- The conversation at the start of each round of a run; none if the handshake fails. -/
def rounds (ctx : Context) (script : Script) (link : Link) : List Conversation :=
  let shaken := shakeHands ctx script link
  match shaken.1 with
  | .error _ => []
  | .ok v => roundsFrom ctx v (.start script) shaken.2.1

variable {ctx : Context} {v : Version} {c : Conversation} {link : Link}

/-! ### One round -/

/-- Without a turn to take a conversation stays as it is. -/
theorem converse_of_none (h : round? ctx v c link = none) :
    (converse ctx v c link).conversation = c ∧ roundsFrom ctx v c link = [] := by
  constructor
  · rw [converse_eq]
    cases ht : c.turn with
    | done => rfl
    | hear e => simp [round?, ht] at h
    | speak replies => simp [round?, ht] at h
  · rw [roundsFrom]
    split
    · rfl
    · next he => simp [h] at he

/-- A conversation goes on from where a round leaves it. -/
theorem converse_of_round {step : Progress} (h : round? ctx v c link = some step) :
    (converse ctx v c link).conversation =
        (converse ctx v step.conversation step.link).conversation ∧
      roundsFrom ctx v c link = c :: roundsFrom ctx v step.conversation step.link := by
  constructor
  · rw [converse_eq]
    cases ht : c.turn with
    | done => simp [round?, ht] at h
    | hear e =>
      obtain rfl : hear ctx v c link = step := by simpa [round?, ht] using h
      rfl
    | speak replies =>
      obtain rfl : speak ctx v c link replies = step := by simpa [round?, ht] using h
      rfl
  · rw [roundsFrom]
    split
    · next he => simp [h] at he
    · next he =>
      obtain rfl := Option.some.inj (h.symm.trans he)
      rfl

/-- What a conversation is told in its turn. -/
inductive Told (c : Conversation) : Conversation → Prop
  /-- The client has sent a message. -/
  | message {e : Expect} (ht : c.turn = .hear e) (m : Message) : Told c (c.receive m)
  /-- The client has closed its side. -/
  | closed {e : Expect} (ht : c.turn = .hear e) : Told c c.disconnected
  /-- The block of the server was performed. -/
  | performed {replies : List Reply} (ht : c.turn = .speak replies) : Told c c.repliesSent
  | exit {replies : List Reply} (ht : c.turn = .speak replies) : Told c c.exit
  | failure (failure : Failure) : Told c (c.fail failure)

private theorem told_hear {e : Expect} (ht : c.turn = .hear e) :
    Told c (hear ctx v c link).conversation := by
  unfold hear tellResult tell close
  dsimp only
  split
  · exact .message ht _
  · exact .closed ht
  · split
    · exact .closed ht
    · exact .failure _

private theorem told_perform {turn : List Reply} (ht : c.turn = .speak turn) {r : Reply}
    {ended : Progress} (h : perform ctx v c link r = .error ended) :
    Told c ended.conversation := by
  unfold perform at h
  split at h
  · obtain rfl := Except.error.inj h
    exact .exit ht
  · split at h
    · obtain rfl := Except.error.inj h
      exact .failure _
    · simp at h
    · split at h
      · simp at h
      · obtain rfl := Except.error.inj h
        exact .failure _

private theorem told_speak {turn : List Reply} (ht : c.turn = .speak turn)
    (replies : List Reply) : Told c (speak ctx v c link replies).conversation := by
  induction replies generalizing link with
  | nil =>
    rw [speak_nil]
    exact .performed ht
  | cons r replies ih =>
    rw [speak_cons]
    cases hp : perform ctx v c link r with
    | error ended => exact told_perform ht hp
    | ok after => exact ih

/-- In a round a conversation is told of one thing, as its turn is. -/
theorem told_of_round {step : Progress} (h : round? ctx v c link = some step) :
    Told c step.conversation := by
  unfold round? at h
  split at h
  · simp at h
  · next ht =>
    obtain rfl := Option.some.inj h
    exact told_hear ht
  · next replies ht =>
    obtain rfl := Option.some.inj h
    exact told_speak ht replies

/-- Whether one of the sides has its turn, with something to hear or to perform. -/
def Ready (c : Conversation) : Prop :=
  (c.state = .awaitingClient ∧ c.expected?.isSome = true) ∨
    (c.state = .sendingServer ∧ c.replies?.isSome = true)

/-- A conversation on its script is ready for a turn, or has ended. -/
theorem ready_or_done (h : c.OnScript) :
    (Ready c ∧ c.turn ≠ .done ∧ ∃ rest, c.upcoming = c.turn :: rest) ∨ c.isTerminal = true := by
  cases hs : c.state with
  | awaitingClient =>
    obtain ⟨e, rest, ht, hu⟩ := h.hears hs
    have he := (Conversation.expected?_of_turn ht).2
    exact .inl ⟨.inl ⟨hs, by rw [he]; rfl⟩, by simp [ht], rest, ht ▸ hu⟩
  | sendingServer =>
    obtain ⟨replies, ht, hr, hu, -, -⟩ := h.speaks hs
    exact .inl ⟨.inr ⟨hs, by rw [hr]; rfl⟩, by simp [ht], _, ht ▸ hu⟩
  | completed => exact .inr (Conversation.isTerminal_of_completed hs)
  | failed failure => exact absurd hs (h.unfailed failure)

/-- What a conversation is told takes its turn away, or ends it. -/
theorem onward_of_told (h : c.OnScript) {d : Conversation} (htold : Told c d) {rest : List Turn}
    (hu : c.upcoming = c.turn :: rest) :
    d.isTerminal = true ∨ d.OnScript ∧ d.upcoming = rest := by
  cases htold with
  | @message e ht m =>
    rw [ht] at hu
    cases hm : c.script.matchesLine e m with
    | true =>
      obtain ⟨hon, hup, -⟩ := h.receive ht hu hm
      exact .inr ⟨hon, hup⟩
    | false =>
      exact .inl (Conversation.isTerminal_of_failed (Conversation.receive_of_mismatch ht hm))
  | closed => exact .inl c.isTerminal_disconnected
  | performed ht =>
    have hs : c.state = .sendingServer := by
      unfold Conversation.turn at ht
      split at ht
      · split at ht <;> simp at ht
      · assumption
      · simp at ht
    obtain ⟨replies, ht', -, hu', hon, -⟩ := h.speaks hs
    rw [ht', hu'] at hu
    exact .inr ⟨hon, (List.cons.inj hu).2⟩
  | exit => exact .inl c.isTerminal_exit
  | failure failure => exact .inl (c.isTerminal_fail failure)

/-- A round is taken if and only if there is a turn. -/
theorem round_eq_none_iff : round? ctx v c link = none ↔ c.turn = .done := by
  unfold round?
  split
  · next ht => simp [ht]
  · next ht => simp [ht]
  · next ht => simp [ht]

/-! ### All rounds -/

/-- What the rounds of a conversation come to, with the conversation that they end with. -/
structure Rounds (c : Conversation) (all : List Conversation) (last : Conversation) : Prop where
  ends : last.isTerminal = true
  turns : all.map Conversation.turn <+: c.upcoming
  ready : ∀ d ∈ all, Ready d
  first : (all ++ [last]).head? = some c
  told : (all ++ [last]).IsChain Told

/-- A conversation that has ended goes round no more. -/
theorem rounds_of_terminal (ctx : Context) (v : Version) (h : c.isTerminal = true) (link : Link) :
    Rounds c (roundsFrom ctx v c link) (converse ctx v c link).conversation ∧
      roundsFrom ctx v c link = [] := by
  have hnone : round? ctx v c link = none :=
    round_eq_none_iff.mpr (Conversation.turn_of_terminal h)
  obtain ⟨hlast, hrounds⟩ := converse_of_none hnone
  rw [hlast, hrounds]
  exact ⟨⟨h, List.nil_prefix, by simp, rfl, .singleton c⟩, rfl⟩

/-- A conversation on its script goes round to its end. -/
theorem rounds_of_onScript (ctx : Context) (v : Version) (h : c.OnScript) (link : Link) :
    Rounds c (roundsFrom ctx v c link) (converse ctx v c link).conversation := by
  generalize hn : c.ahead = n
  induction n using Nat.strongRecOn generalizing c link with
  | ind n ih =>
    rcases ready_or_done h with ⟨hready, hturn, rest, hu⟩ | hend
    · cases hround : round? ctx v c link with
      | none => exact absurd (round_eq_none_iff.mp hround) hturn
      | some step =>
        obtain ⟨hlast, hrounds⟩ := converse_of_round hround
        have htold := told_of_round hround
        have hnext : Rounds step.conversation (roundsFrom ctx v step.conversation step.link)
              (converse ctx v step.conversation step.link).conversation ∧
            (roundsFrom ctx v step.conversation step.link).map Conversation.turn <+: rest := by
          rcases onward_of_told h htold hu with hend | ⟨hon, hup⟩
          · obtain ⟨hall, hnil⟩ := rounds_of_terminal ctx v hend step.link
            exact ⟨hall, by rw [hnil]; exact List.nil_prefix⟩
          · have hall := ih _ (hn ▸ ahead_round_lt hround) hon step.link rfl
            exact ⟨hall, hup ▸ hall.turns⟩
        obtain ⟨hall, hprefix⟩ := hnext
        rw [hlast, hrounds]
        refine ⟨hall.ends, ?_, List.forall_mem_cons.mpr ⟨hready, hall.ready⟩, rfl, ?_⟩
        · rw [hu, List.map_cons]
          exact (List.prefix_cons_inj _).mpr hprefix
        · refine hall.told.cons ?_
          intro d hd
          obtain rfl := Option.some.inj (hall.first.symm.trans hd)
          exact htold
    · exact (rounds_of_terminal ctx v hend link).1

/-! ### Writes -/

variable {script : Script}

/-- No more writes than bytes accepted, and one if the conversation has ended. -/
private def Spent (sink : Sink) : Except (State × Link) Link → Prop
  | .ok next => sink.Thrifty 0 next.sink
  | .error ended => sink.Thrifty 1 ended.2.sink

private theorem spent_take (ctx : Context) (v : Version) (script : Script) (left : Nat)
    (h : link.sink.Decided) (cue : Cue) : Spent link.sink (take ctx v script left link cue) := by
  have hok := Sink.Thrifty.refl h 0
  have herror := Sink.Thrifty.refl h 1
  unfold take
  cases cue with
  | hear e =>
    dsimp only
    split
    · split
      · exact hok
      · exact herror
    · exact herror
    · split
      · exact herror
      · exact herror
  | perform r =>
    obtain ⟨line, action⟩ := r
    cases action with
    | exit => exact herror
    | _ =>
      dsimp only
      split
      · exact herror
      · exact hok
      · next bytes _ =>
        obtain ⟨hone, hnone⟩ := Sink.send_of_decided h bytes
        unfold write
        cases hw : link.sink.send bytes with
        | mk result sink =>
          rw [hw] at hone hnone
          cases result with
          | ok u => exact hnone rfl
          | error f => exact hone

/-- Following cues takes no more writes than bytes accepted, and one. -/
theorem follow_of_decided (link : Link) (h : link.sink.Decided) (cues : List Cue) :
    link.sink.Thrifty 1 (follow ctx v script cues link).2.sink := by
  induction cues generalizing link with
  | nil => exact .refl h 1
  | cons cue cues ih =>
    have hspent := spent_take ctx v script (cues.length + 1) h cue
    rw [follow]
    split
    · next next ht =>
      rw [ht] at hspent
      exact hspent.trans (ih next hspent.decided)
    · next ended ht =>
      rw [ht] at hspent
      exact hspent

/-- A run takes no more writes than bytes accepted, and one. -/
theorem run_of_decided (ctx : Context) (hfull : script.Full) (h : link.sink.Decided) :
    link.sink.Thrifty 1 (run ctx script link).link.sink := by
  cases hs : (shakeHands ctx script link).1 with
  | error e =>
    obtain ⟨-, hlink, -⟩ := run_of_refused hs
    rw [hlink]
    cases (shakeHands_error_iff ctx).mp hs with
    | spoilt hspoilt =>
      rw [(shakeHands_of_spoilt ctx script hspoilt).2]
      exact .refl h 1
    | disagreed ho hn =>
      rw [(shakeHands_of_disagreed ctx ho hn).2]
      exact (Sink.send_of_decided h _).1
    | unanswered ho hn hw =>
      obtain ⟨rest, -, -, hafter, -, -⟩ := shakeHands_of_agreed ctx ho hn
      rw [hafter]
      exact (Sink.send_of_decided h _).1
  | ok v =>
    obtain ⟨p, ho, hn, hw⟩ := agreed_of_shakeHands ctx hs
    obtain ⟨rest, -, -, hafter, -, -⟩ := shakeHands_of_agreed ctx ho hn
    obtain ⟨-, hlink, -⟩ := run_of_agreed hfull hs
    have hreply := (Sink.send_of_decided h (script.answerTo v)).2 hw
    rw [hlink, hafter]
    exact hreply.trans (follow_of_decided ⟨rest, _⟩ hreply.decided script.cues)

/-! ### Runs -/

/-- Without a handshake there are no rounds. -/
theorem rounds_of_refused {e : Error} (h : (shakeHands ctx script link).1 = .error e) :
    rounds ctx script link = [] := by
  rw [rounds, h]

/-- After a handshake the conversation goes round from its start. -/
theorem rounds_of_agreed (hfull : script.Full) (h : (shakeHands ctx script link).1 = .ok v) :
    Rounds (.start script) (rounds ctx script link) (run ctx script link).conversation := by
  have hall := rounds_of_onScript ctx v (Conversation.onScript_start hfull)
    (shakeHands ctx script link).2.1
  rw [rounds, run_eq]
  generalize shakeHands ctx script link = shaken at *
  obtain ⟨result, after, notes⟩ := shaken
  obtain rfl : result = .ok v := h
  exact hall

/-- A run ends. The turns that it takes are the first ones of its script, each once and in order; at
the start of each round the side whose turn it is has something to hear or to perform, and each
round tells the conversation of one event. If each write takes something or fails for good, there
are no more writes than bytes accepted, and one. -/
theorem run_ends (ctx : Context) {text : String} (hparse : Script.parse text = .ok script)
    (hsink : link.sink.Decided) :
    let last := (run ctx script link).conversation
    let all := rounds ctx script link
    last.isTerminal = true ∧
      all.map Conversation.turn <+: script.turns ∧
      (∀ c ∈ all, Ready c) ∧
      (all ++ [last]).IsChain Told ∧
      (run ctx script link).link.sink.calls + link.sink.output.size ≤
        link.sink.calls + (run ctx script link).link.sink.output.size + 1 := by
  have hfull := Script.full_of_parse hparse
  have hwrites := (run_of_decided ctx hfull hsink).calls_le
  cases hs : (shakeHands ctx script link).1 with
  | error e =>
    obtain ⟨hrun, -, -⟩ := run_of_refused hs
    rw [rounds_of_refused hs, hrun]
    exact ⟨Conversation.isTerminal_fail _ _, List.nil_prefix, by simp, .singleton _, hwrites⟩
  | ok v =>
    have hall := rounds_of_agreed hfull hs
    exact ⟨hall.ends, hall.turns, hall.ready, hall.told, hwrites⟩

/-- A sink that takes one byte at a time, and five in all. -/
private def choked : Sink := .bounded (some 5) (some 1) (some ⟨.brokenPipe, "gone"⟩) none

private theorem decided_choked : choked.Decided where
  answers call taken offered _ := by
    unfold choked Sink.bounded
    cases hroom : 5 - taken with
    | zero => exact .inr ⟨⟨.brokenPipe, "gone"⟩, by simp only [hroom], by decide⟩
    | succ room => exact .inl ⟨0, by simp only [hroom]; congr 1⟩

/-- A run with a client that resets ends after at most one write more than the bytes accepted. -/
theorem run_ends_choked :
    let resetter : Link := ⟨[.deliver (Handshake.magic ++
      (⟨1, 0, 0, 0⟩ : Handshake.Proposals).bytes ++ Frame.ofPayload 1 [0xB0, 0x0F])], choked⟩
    let ended := run ⟨.default, "peer"⟩ Script.dialogue resetter
    choked.Decided ∧ ended.conversation.isTerminal = true ∧
      (rounds ⟨.default, "peer"⟩ Script.dialogue resetter).map Conversation.turn <+:
        Script.dialogue.turns ∧
      ended.link.sink.calls ≤ ended.link.sink.output.size + 1 := by
  intro resetter ended
  have hsink : resetter.sink.Decided := decided_choked
  obtain ⟨hend, hturns, -, -, hcalls⟩ := run_ends ⟨.default, "peer"⟩ Script.parse_dialogue hsink
  refine ⟨decided_choked, hend, hturns, ?_⟩
  rw [Nat.add_assoc, show resetter.sink.calls = 0 from rfl, Nat.zero_add] at hcalls
  exact hcalls

end ScriptedBolt.Session
