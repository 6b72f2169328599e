import Mathlib.Data.Prod.Lex
import ScriptedBolt.Proofs.Conversation.Cursor

/-!
# Events of a conversation

A conversation can be told anything at any time: nothing outside of it keeps a message from coming
in the turn of the server, or a failure after the end. `Step` says all that an event can do to a
conversation whose cursor is in its place, and from it follows what holds after any events at all
(`after_start_orderly`): the state tells what the cursor stands on, the cursor never moves back, and
the end is final.
-/

namespace ScriptedBolt.Conversation

/-- What a conversation can be told. -/
inductive Event where
  | message (m : Message)
  | repliesSent
  | exit
  | disconnected
  | failure (failure : Failure)

/-- The conversation after an event. -/
def on (c : Conversation) : Event → Conversation
  | .message m => c.receive m
  | .repliesSent => c.repliesSent
  | .exit => c.exit
  | .disconnected => c.disconnected
  | .failure failure => c.fail failure

/-- The conversation after events, one after the other. -/
def after (c : Conversation) (events : List Event) : Conversation := events.foldl on c

/-- The block and the offset in it, in the order in which the lines of a script stand. -/
def cursor (c : Conversation) : Nat ×ₗ Nat := toLex (c.block, c.offset)

/-- What an event can do to a conversation. -/
inductive Step (c : Conversation) : Conversation → Prop
  | still : Step c c
  /-- The cursor moves on in a block of the client. -/
  | line {lines : List Expect} (hs : c.state = .awaitingClient)
    (hb : c.script.blocks[c.block]? = some (.client lines)) (hlt : c.offset + 1 < lines.length) :
    Step c { c with offset := c.offset + 1 }
  /-- The cursor moves on to the next block. -/
  | block (hs : c.isTerminal = false) (hlt : c.block < c.script.blocks.length) : Step c c.advance
  /-- The cursor moves behind the last block. -/
  | exit (hs : c.isTerminal = false) (hlt : c.block < c.script.blocks.length) :
    Step c ⟨c.script, c.script.blocks.length, 0, .completed⟩
  | failure (hs : c.isTerminal = false) (failure : Failure) :
    Step c { c with state := .failed failure }

/-- What holds of a conversation whatever it has been told. -/
structure Orderly (c : Conversation) : Prop where
  awaiting : c.state = .awaitingClient → ∃ lines,
    c.script.blocks[c.block]? = some (.client lines) ∧
      ∃ h : c.offset < lines.length, c.expected? = some lines[c.offset]
  sending : c.state = .sendingServer → ∃ replies,
    c.script.blocks[c.block]? = some (.server replies) ∧ c.offset = 0 ∧ replies ≠ [] ∧
      c.replies? = some replies
  completed : c.state = .completed →
    c.block = c.script.blocks.length ∧ c.offset = 0 ∧ c.remaining = 0
  going : c.isTerminal = false →
    1 ≤ c.remaining ∧ c.disconnected.state = .failed (.incomplete c.remaining)
  /-- The number of lines that remain is a difference of which the first is not the smaller. -/
  counted : c.offset ≤ Block.countLines (c.script.blocks.drop c.block)

variable {c d : Conversation}

/-! ### Going on -/

/-- A conversation goes on while one of the two sides has its turn. -/
theorem going_iff :
    c.isTerminal = false ↔ c.state = .awaitingClient ∨ c.state = .sendingServer := by
  unfold isTerminal
  cases c.state <;> simp [State.isTerminal]

/-- While a conversation goes on, its cursor stands on a block. -/
theorem block_lt_of_going (h : c.Placed) (hs : c.isTerminal = false) :
    c.block < c.script.blocks.length := by
  rcases going_iff.mp hs with hstate | hstate
  · obtain ⟨lines, hb, -⟩ := h.awaiting hstate
    exact (List.getElem?_eq_some_iff.mp hb).1
  · obtain ⟨lines, hb, -⟩ := h.sending hstate
    exact (List.getElem?_eq_some_iff.mp hb).1

/-- While a conversation goes on, lines remain. -/
theorem remaining_pos_of_going (h : c.Placed) (hs : c.isTerminal = false) : 1 ≤ c.remaining := by
  rw [remaining_eq]
  rcases going_iff.mp hs with hstate | hstate
  · obtain ⟨expected, rest, -, hp⟩ := hears_of_awaiting h hstate
    rw [hp, List.length_cons]
    omega
  · obtain ⟨lines, hb, hne, ho⟩ := h.sending hstate
    have hpos := List.length_pos_iff.mpr hne
    rw [pending_of_block hb, ho, List.drop_zero, List.length_append, Block.length_cues,
      Block.length]
    omega

/-- A client that closes its side while a conversation goes on leaves lines behind. -/
theorem disconnected_of_going (h : c.Placed) (hs : c.isTerminal = false) :
    c.disconnected = { c with state := .failed (.incomplete c.remaining) } := by
  have hpos := remaining_pos_of_going h hs
  rw [disconnected, if_neg (by simp [hs]), if_neg (by omega)]

/-- An exit ends a conversation. -/
theorem isTerminal_exit (c : Conversation) : c.exit.isTerminal = true := by
  unfold exit
  split
  · assumption
  · rfl

/-- A failure ends a conversation. -/
theorem isTerminal_fail (c : Conversation) (failure : Failure) :
    (c.fail failure).isTerminal = true := by
  unfold fail
  split
  · assumption
  · rfl

/-- A client that closes its side ends a conversation. -/
theorem isTerminal_disconnected (c : Conversation) : c.disconnected.isTerminal = true := by
  unfold disconnected
  split
  · assumption
  · split <;> rfl

/-! ### Steps -/

private theorem step_receive (h : c.Placed) (m : Message) : Step c (c.receive m) := by
  unfold receive
  split
  · next expected hs _ =>
    have hgoing := going_iff.mpr (.inl hs)
    have hlt := block_lt_of_going h hgoing
    split
    · obtain ⟨lines, hb, -⟩ := h.awaiting hs
      simp only [hb, Option.map_some, Option.getD_some, Block.length]
      split
      · exact .block hgoing hlt
      · exact .line hs hb (by omega)
    · exact .failure hgoing _
  · exact .still

/-- An event does nothing else to a conversation whose cursor is in its place. -/
theorem step_on (h : c.Placed) (event : Event) : Step c (c.on event) := by
  have hend {d : Conversation} (hd : c.isTerminal = false → Step c d) :
      Step c (if c.isTerminal then c else d) := by
    split
    · exact .still
    · next hs => exact hd (Bool.eq_false_iff.mpr hs)
  cases event with
  | message m => exact step_receive h m
  | repliesSent =>
    show Step c c.repliesSent
    unfold repliesSent
    split
    · next hs =>
      have hgoing := going_iff.mpr (.inr hs)
      exact .block hgoing (block_lt_of_going h hgoing)
    · exact .still
  | exit => exact hend fun hs ↦ .exit hs (block_lt_of_going h hs)
  | disconnected =>
    cases hs : c.isTerminal with
    | true =>
      rw [on, disconnected, if_pos hs]
      exact .still
    | false =>
      rw [on, disconnected_of_going h hs]
      exact .failure hs _
  | failure failure => exact hend fun hs ↦ .failure hs failure

/-- A conversation keeps its script. -/
theorem Step.script_eq (h : Step c d) : d.script = c.script := by
  cases h <;> rfl

/-- The cursor stays in its place. -/
theorem Step.placed (h : Step c d) (hfull : c.script.Full) (hc : c.Placed) : d.Placed := by
  cases h with
  | still => exact hc
  | line hs hb hlt =>
    unfold Placed
    simp only [hs]
    exact ⟨_, hb, hlt⟩
  | block hs hlt => exact placed_advance hfull hlt
  | exit hs hlt => exact ⟨rfl, rfl⟩
  | failure hs failure => trivial

/-- The cursor does not leave the lines that are counted. -/
theorem Step.counted (h : Step c d)
    (hc : c.offset ≤ Block.countLines (c.script.blocks.drop c.block)) :
    d.offset ≤ Block.countLines (d.script.blocks.drop d.block) := by
  cases h with
  | still => exact hc
  | line hs hb hlt =>
    have hweight := weight_succ hb
    simp only [weight, Block.length] at hweight ⊢
    omega
  | block hs hlt => exact Nat.zero_le _
  | exit hs hlt => exact Nat.zero_le _
  | failure hs failure => exact hc

/-- The cursor does not move back. -/
theorem Step.cursor_le (h : Step c d) : c.cursor ≤ d.cursor := by
  have ofBlock {block offset : Nat} (hlt : c.block < block) :
      c.cursor ≤ toLex (block, offset) := Prod.Lex.toLex_le_toLex.mpr (.inl hlt)
  cases h with
  | still => exact le_rfl
  | line hs hb hlt => exact Prod.Lex.toLex_le_toLex.mpr (.inr ⟨rfl, Nat.le_succ _⟩)
  | block hs hlt => exact ofBlock (Nat.lt_succ_self _)
  | exit hs hlt => exact ofBlock hlt
  | failure hs failure => exact le_rfl

/-- Nothing happens to a conversation that has ended. -/
theorem Step.eq_of_terminal (h : Step c d) (hc : c.isTerminal = true) : d = c := by
  cases h with
  | still => rfl
  | line hs hb hlt => simp [isTerminal, State.isTerminal, hs] at hc
  | block hs hlt => simp [hs] at hc
  | exit hs hlt => simp [hs] at hc
  | failure hs failure => simp [hs] at hc

/-! ### Any events -/

/-- What is kept from the start of a conversation on. -/
structure Kept (script : Script) (c : Conversation) : Prop where
  script_eq : c.script = script
  placed : c.Placed
  counted : c.offset ≤ Block.countLines (c.script.blocks.drop c.block)

variable {script : Script}

/-- A conversation starts with its cursor in its place. -/
theorem kept_start (hfull : script.Full) : Kept script (start script) where
  script_eq := rfl
  placed := placed_start hfull
  counted := Nat.zero_le _

/-- An event keeps it there. -/
theorem Kept.on (h : Kept script c) (hfull : script.Full) (event : Event) :
    Kept script (c.on event) := by
  obtain ⟨rfl, hplaced, hcounted⟩ := h
  have hstep := step_on hplaced event
  exact ⟨hstep.script_eq, hstep.placed hfull hplaced, hstep.counted hcounted⟩

/-- Events keep what one event keeps, never move the cursor back and do nothing after the end. -/
theorem Kept.after (h : Kept script c) (hfull : script.Full) (events : List Event) :
    Kept script (c.after events) ∧ c.cursor ≤ (c.after events).cursor ∧
      (c.isTerminal = true → c.after events = c) := by
  induction events generalizing c with
  | nil => exact ⟨h, le_rfl, fun _ ↦ rfl⟩
  | cons event events ih =>
    have hstep := step_on h.placed event
    obtain ⟨hkept, hle, hsame⟩ := ih (h.on hfull event)
    refine ⟨hkept, hstep.cursor_le.trans hle, ?_⟩
    intro hend
    have hon := hstep.eq_of_terminal hend
    exact (hsame (by rwa [hon])).trans hon

/-- A conversation whose cursor is in its place is in order. -/
theorem Kept.orderly (h : Kept script c) : c.Orderly where
  awaiting hs := by
    obtain ⟨lines, hb, hlt⟩ := h.placed.awaiting hs
    exact ⟨lines, hb, hlt, expected?_of_client hb hlt⟩
  sending hs := by
    obtain ⟨replies, hb, hne, ho⟩ := h.placed.sending hs
    exact ⟨replies, hb, ho, hne, by simp only [replies?, hs, hb]⟩
  completed hs := by
    obtain ⟨hb, ho⟩ := h.placed.completed hs
    have hpending := pending_of_completed h.placed hs
    exact ⟨hb, ho, by rw [remaining_eq, hpending, List.length_nil]⟩
  going hs := ⟨remaining_pos_of_going h.placed hs, by rw [disconnected_of_going h.placed hs]⟩
  counted := h.counted

/-- Whatever a conversation of a script that was read has been told, it is in order. Whatever it is
told then, its cursor does not move back, and if it has ended it stays as it is. -/
theorem after_start_orderly {text : String} (hparse : Script.parse text = .ok script)
    (events more : List Event) :
    let c := (start script).after events
    c.script = script ∧ c.Orderly ∧ c.cursor ≤ (c.after more).cursor ∧
      (c.isTerminal = true → c.after more = c) := by
  have hfull := Script.full_of_parse hparse
  obtain ⟨hkept, -, -⟩ := (kept_start hfull).after hfull events
  obtain ⟨-, hle, hsame⟩ := hkept.after hfull more
  exact ⟨hkept.script_eq, hkept.orderly, hle, hsame⟩

/-- A client that closes its side after its only message leaves the line of the server behind, and
that stays so. -/
theorem after_start_orderly_dialogue :
    let c := (start Script.dialogue).after [.repliesSent, .message ⟨"RESET", []⟩, .disconnected]
    c.state = .failed (.incomplete 1) ∧ c.Orderly ∧
      c.after [.repliesSent, .message ⟨"RESET", []⟩, .exit] = c := by
  obtain ⟨-, horderly, -, hsame⟩ := after_start_orderly Script.parse_dialogue
    [.repliesSent, .message ⟨"RESET", []⟩, .disconnected]
    [.repliesSent, .message ⟨"RESET", []⟩, .exit]
  exact ⟨rfl, horderly, hsame rfl⟩

end ScriptedBolt.Conversation
