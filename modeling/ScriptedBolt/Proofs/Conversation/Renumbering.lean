import ScriptedBolt.Proofs.Conversation.Relaxation
import ScriptedBolt.Proofs.Script.Layout

/-!
# Conversations and the numbers of lines

A conversation reads the numbers of lines only to tell in which line a message was expected. With
other numbers it goes the same way: after any events it is the conversation there was, with the other
numbers (`after_renumber`).
-/

namespace ScriptedBolt

/-- A line of the client with another number. -/
def Expect.renumber (number : Nat → Nat) (expected : Expect) : Expect :=
  { expected with line := number expected.line }

/-- A failure that names another line. -/
def Failure.renumber (number : Nat → Nat) : Failure → Failure
  | mismatch expected got => mismatch (expected.renumber number) got
  | failure => failure

/-- A state that names another line. -/
def State.renumber (number : Nat → Nat) : State → State
  | failed failure => failed (failure.renumber number)
  | state => state

namespace Conversation

/-- An event that names another line. -/
def Event.renumber (number : Nat → Nat) : Event → Event
  | .failure f => .failure (f.renumber number)
  | event => event

/-- A conversation with other numbers for the lines of its script. -/
def renumber (number : Nat → Nat) (c : Conversation) : Conversation :=
  { c with script := c.script.renumber number, state := c.state.renumber number }

variable {number : Nat → Nat} {c : Conversation} {s s' : Script}

/-- A block of a script has other numbers. -/
theorem blocks_renumber (block : Nat) :
    (s.renumber number).blocks[block]? = s.blocks[block]?.map (Block.renumber number) :=
  List.getElem?_map

/-- A block keeps its length. -/
@[simp] theorem length_renumber (b : Block) : (b.renumber number).length = b.length := by
  cases b <;> simp [Block.renumber, Block.length]

/-- A state is terminal or not whatever line it names. -/
@[simp] theorem isTerminal_renumber : (c.renumber number).isTerminal = c.isTerminal := by
  simp only [isTerminal, renumber]
  cases c.state <;> rfl

/-- The line that a failure names has its other number. -/
@[simp] theorem state_renumber : (c.renumber number).state = c.state.renumber number := rfl

/-- A state that names no line is the same with other numbers. -/
theorem state_of_renumber {state : State} (h : (c.renumber number).state = state)
    (hgoing : ∀ failure, state ≠ .failed failure) : c.state = state := by
  rw [state_renumber] at h
  cases hs : c.state with
  | failed failure =>
    rw [hs] at h
    exact absurd h.symm (hgoing _)
  | _ =>
    rw [hs] at h
    exact h

/-- A block starts in the same state. -/
theorem stateAt_renumber (block : Nat) :
    stateAt (s.renumber number) block = (stateAt s block).renumber number := by
  rw [stateAt, stateAt, blocks_renumber]
  cases s.blocks[block]? with
  | none => rfl
  | some b => cases b <;> rfl

/-- A script starts in the same state. -/
theorem start_renumber : start (s.renumber number) = (start s).renumber number := by
  rw [start, stateAt_renumber]
  rfl

/-- The next block starts in the same way. -/
theorem advance_renumber : (c.renumber number).advance = c.advance.renumber number := by
  simp only [advance, renumber, stateAt_renumber]

/-- The same line is expected, with its other number. -/
theorem expected?_renumber :
    (c.renumber number).expected? = c.expected?.map (Expect.renumber number) := by
  simp only [expected?, renumber, blocks_renumber]
  cases c.script.blocks[c.block]? with
  | none => rfl
  | some b =>
    cases b with
    | client lines => exact List.getElem?_map
    | server lines => rfl

/-- As many lines are left. -/
theorem remaining_renumber : (c.renumber number).remaining = c.remaining := by
  have hcount (blocks : List Block) :
      Block.countLines (blocks.map (Block.renumber number)) = Block.countLines blocks := by
    induction blocks with
    | nil => rfl
    | cons b blocks ih =>
      show (b.renumber number).length + Block.countLines _ = b.length + Block.countLines blocks
      rw [ih, length_renumber]
  simp only [remaining, renumber, Script.renumber, ← List.map_drop, hcount]

/-- What a message does when a line of the client is expected. -/
private theorem receive_of_expected {expected : Expect} (hs : c.state = .awaitingClient)
    (he : c.expected? = some expected) (m : Message) : c.receive m =
      if c.script.matchesLine expected m then
        if (c.script.blocks[c.block]?.map Block.length).getD 0 ≤ c.offset + 1 then c.advance
        else { c with offset := c.offset + 1 }
      else { c with state := .failed (.mismatch expected m) } := by
  simp only [receive, hs, he]

/-- A message does the same. -/
theorem receive_renumber (m : Message) :
    (c.renumber number).receive m = (c.receive m).renumber number := by
  by_cases hhear : ∃ expected, c.turn = .hear expected
  · obtain ⟨expected, ht⟩ := hhear
    obtain ⟨hs, he⟩ := expected?_of_turn ht
    have hs' : (c.renumber number).state = .awaitingClient := by
      show c.state.renumber number = _
      rw [hs]
      rfl
    have he' : (c.renumber number).expected? = some (expected.renumber number) := by
      rw [expected?_renumber, he]
      rfl
    have hmatches : (c.renumber number).script.matchesLine (expected.renumber number) m =
        c.script.matchesLine expected m := rfl
    have hlength : (c.renumber number).script.blocks[(c.renumber number).block]?.map Block.length =
        c.script.blocks[c.block]?.map Block.length := by
      show (c.script.renumber number).blocks[c.block]?.map Block.length = _
      rw [blocks_renumber, Option.map_map]
      congr 1
      funext b
      exact length_renumber b
    rw [receive_of_expected hs' he', receive_of_expected hs he, hmatches, hlength, advance_renumber,
      apply_ite (renumber number), apply_ite (renumber number)]
    rfl
  · have hhear' : ∀ expected, (c.renumber number).turn ≠ .hear expected := by
      intro expected ht
      obtain ⟨hs, he⟩ := expected?_of_turn ht
      rw [expected?_renumber] at he
      obtain ⟨line, hline, -⟩ := Option.map_eq_some_iff.mp he
      apply hhear
      refine ⟨line, ?_⟩
      have hs' : c.state = .awaitingClient := state_of_renumber hs nofun
      simp only [turn, hs', hline]
    rw [receive_of_not_hear hhear', receive_of_not_hear (not_exists.mp hhear)]

/-- So does every event. -/
theorem on_renumber (event : Event) :
    (c.renumber number).on (event.renumber number) = (c.on event).renumber number := by
  by_cases hend : c.isTerminal = true
  · rw [on_of_terminal hend, on_of_terminal (isTerminal_renumber.trans hend)]
  cases event with
  | message m => exact receive_renumber m
  | repliesSent =>
    simp only [on, Event.renumber, repliesSent, state_renumber]
    cases c.state with
    | sendingServer => exact advance_renumber
    | awaitingClient => rfl
    | completed => rfl
    | failed failure => rfl
  | exit =>
    simp only [on, Event.renumber, exit, isTerminal_renumber, hend, Bool.false_eq_true, if_false]
    simp only [renumber, Script.renumber, List.length_map, State.renumber]
  | disconnected =>
    simp only [on, Event.renumber, disconnected, isTerminal_renumber, hend, remaining_renumber,
      Bool.false_eq_true, if_false]
    split
    · rfl
    · rfl
  | failure failure =>
    simp only [on, Event.renumber, fail, isTerminal_renumber, hend, Bool.false_eq_true, if_false]
    rfl

/-- So do any events, one after the other. -/
theorem after_renumber (events : List Event) :
    (c.renumber number).after (events.map (Event.renumber number)) =
      (c.after events).renumber number := by
  induction events generalizing c with
  | nil => rfl
  | cons event events ih =>
    rw [List.map_cons, after, List.foldl_cons, on_renumber]
    exact ih

end Conversation

end ScriptedBolt
