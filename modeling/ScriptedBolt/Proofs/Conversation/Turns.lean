import ScriptedBolt.Proofs.Conversation.Cursor

/-!
# The turns of a script

The client has a turn for each of its lines, the server one for all the lines of a block. What a
conversation does turn by turn is said about the row of these turns, without blocks and offsets:
the cursor stands before one of them (`upcoming`), and each turn that is taken as the script has it
takes the first one away. A conversation is `OnScript` while that is so.
-/

namespace ScriptedBolt

namespace Conversation.Turn

/-- The message that is expected, in a turn of the client. -/
def expect? : Turn → Option Expect
  | hear expected => some expected
  | _ => none

/-- The actions to perform, in a turn of the server. -/
def replies? : Turn → Option (List Reply)
  | speak replies => some replies
  | _ => none

/-- The lines of a turn. -/
def cues : Turn → List Cue
  | hear expected => [.hear expected]
  | speak replies => replies.map .perform
  | done => []

/-- The messages that are expected in turns. -/
def expects (turns : List Turn) : List Expect := turns.filterMap expect?

/-- The blocks that are to be performed in turns. -/
def performances (turns : List Turn) : List (List Reply) := turns.filterMap replies?

end Conversation.Turn

open Conversation (Turn)

/-- The turns of a block. -/
def Block.turns : Block → List Turn
  | client lines => lines.map .hear
  | server lines => [.speak lines]

/-- The turns of a script. -/
def Script.turns (s : Script) : List Turn := s.blocks.flatMap Block.turns

/-- The turns of a block have its lines. -/
theorem Block.cues_turns (block : Block) : block.turns.flatMap Turn.cues = block.cues := by
  cases block with
  | client lines =>
    rw [turns, cues, List.flatMap_map, List.map_eq_flatMap]
    rfl
  | server lines =>
    rw [turns, List.flatMap_singleton]
    rfl

/-- The turns of blocks have their lines. -/
theorem Block.flatMap_cues_turns (blocks : List Block) :
    (blocks.flatMap turns).flatMap Turn.cues = blocks.flatMap cues := by
  rw [List.flatMap_assoc]
  exact congrArg (List.flatMap · blocks) (funext cues_turns)

/-- In the turns of a block the messages of its lines are expected. -/
theorem Block.expects_turns (block : Block) :
    Turn.expects block.turns = Cue.expects block.cues := by
  cases block with
  | client lines =>
    rw [turns, cues, Turn.expects, Cue.expects, List.filterMap_map, List.filterMap_map]
    rfl
  | server lines =>
    have hnone : Cue.expects (cues (.server lines)) = [] := by
      rw [cues, Cue.expects, List.filterMap_map]
      exact List.filterMap_eq_nil_iff.mpr fun _ _ ↦ rfl
    rw [hnone]
    rfl

/-- In the turns of a script the messages of its lines are expected. -/
theorem Script.expects_turns (s : Script) : Turn.expects s.turns = Cue.expects s.cues := by
  rw [turns, cues, Turn.expects, Cue.expects, List.filterMap_flatMap, List.filterMap_flatMap]
  exact congrArg (List.flatMap · s.blocks) (funext Block.expects_turns)

namespace Conversation

variable {c : Conversation}

/-- The turns from the cursor on. -/
def upcoming (c : Conversation) : List Turn :=
  ((c.script.blocks.drop c.block).flatMap Block.turns).drop c.offset

/-- All turns are to come at the start. -/
theorem upcoming_start (script : Script) : (start script).upcoming = script.turns := rfl

/-- At the start of the next block the turns behind the current block are to come. -/
theorem upcoming_of_block {b : Block} (hb : c.script.blocks[c.block]? = some b) :
    c.upcoming = (b.turns ++ c.advance.upcoming).drop c.offset := by
  obtain ⟨hlt, rfl⟩ := List.getElem?_eq_some_iff.mp hb
  rw [upcoming, List.drop_eq_getElem_cons hlt, List.flatMap_cons]
  rfl

/-- In a block of the client the lines from the cursor on come before the next block. -/
theorem upcoming_of_client {lines : List Expect}
    (hb : c.script.blocks[c.block]? = some (.client lines)) (hle : c.offset ≤ lines.length) :
    c.upcoming = (lines.drop c.offset).map .hear ++ c.advance.upcoming := by
  rw [upcoming_of_block hb, Block.turns, List.map_drop]
  exact List.drop_append_of_le_length (by rwa [List.length_map])

/-- Whether a conversation is where its script has got to, and has not failed. -/
structure OnScript (c : Conversation) : Prop where
  full : c.script.Full
  placed : c.Placed
  unfailed : ∀ failure, c.state ≠ .failed failure

/-- A conversation is on its script at the start. -/
theorem onScript_start {script : Script} (h : script.Full) : (start script).OnScript where
  full := h
  placed := placed_start h
  unfailed := stateAt_ne_failed script 0

/-- Nothing is to come once a conversation has completed. -/
theorem OnScript.upcoming_of_completed (h : c.OnScript) (hs : c.state = .completed) :
    c.upcoming = [] := by
  obtain ⟨hb, ho⟩ := h.placed.completed hs
  rw [upcoming, hb, ho, List.drop_length]
  rfl

/-- When the client has its turn, it is the first to come. -/
theorem OnScript.hears (h : c.OnScript) (hs : c.state = .awaitingClient) :
    ∃ e rest, c.turn = .hear e ∧ c.upcoming = .hear e :: rest := by
  obtain ⟨lines, hb, hlt⟩ := h.placed.awaiting hs
  have he := expected?_of_client hb hlt
  refine ⟨lines[c.offset], (lines.drop (c.offset + 1)).map .hear ++ c.advance.upcoming, ?_, ?_⟩
  · simp only [turn, hs, he]
  · rw [upcoming_of_client hb (Nat.le_of_lt hlt), List.drop_eq_getElem_cons hlt]
    rfl

/-- When the client has its turn, the lines that remain are those of the turns to come. -/
theorem OnScript.remaining_eq (h : c.OnScript) (hs : c.state = .awaitingClient) :
    c.remaining = (c.upcoming.flatMap Turn.cues).length := by
  obtain ⟨lines, hb, hlt⟩ := h.placed.awaiting hs
  have hle := Nat.le_of_lt hlt
  have hnext : c.advance.pending = c.advance.upcoming.flatMap Turn.cues :=
    (Block.flatMap_cues_turns (c.script.blocks.drop (c.block + 1))).symm
  have hhere : ((lines.drop c.offset).map Turn.hear).flatMap Turn.cues =
      (lines.drop c.offset).map .hear := Block.cues_turns (.client (lines.drop c.offset))
  rw [Conversation.remaining_eq, pending_of_block hb, upcoming_of_client hb hle, Block.cues,
    List.drop_append_of_le_length (by rwa [List.length_map]), hnext, List.flatMap_append, hhere,
    List.map_drop]

/-- A message that matches takes the turn away. -/
theorem OnScript.receive (h : c.OnScript) {e : Expect} {rest : List Turn} (ht : c.turn = .hear e)
    (hu : c.upcoming = .hear e :: rest) {m : Message} (hm : c.script.matchesLine e m = true) :
    (c.receive m).OnScript ∧ (c.receive m).upcoming = rest ∧
      (c.receive m).script = c.script := by
  obtain ⟨hs, he⟩ := expected?_of_turn ht
  obtain ⟨e', behind, ht', hp⟩ := hears_of_awaiting h.placed hs
  obtain rfl : e = e' := Turn.hear.inj (ht.symm.trans ht')
  obtain ⟨hplaced, -, hscript, hgo⟩ := receive_of_matches h.full h.placed ht hp hm
  refine ⟨⟨hscript ▸ h.full, hplaced, hgo⟩, ?_, hscript⟩
  obtain ⟨lines, hb, hlt⟩ := h.placed.awaiting hs
  have hrest : rest = (lines.drop (c.offset + 1)).map .hear ++ c.advance.upcoming := by
    rw [upcoming_of_client hb (Nat.le_of_lt hlt), List.drop_eq_getElem_cons hlt] at hu
    exact (List.cons.inj hu).2.symm
  rw [hrest]
  simp only [Conversation.receive, hs, he, hm, ↓reduceIte, hb, Option.map_some, Option.getD_some,
    Block.length]
  split
  · next hle => rw [List.drop_of_length_le hle, List.map_nil, List.nil_append]
  · next hgt =>
    exact upcoming_of_client (c := { c with offset := c.offset + 1 }) hb (Nat.le_of_not_le hgt)

/-- When the server has its turn, it is the first to come. Performing its block takes the turn
away. -/
theorem OnScript.speaks (h : c.OnScript) (hs : c.state = .sendingServer) :
    ∃ replies, c.turn = .speak replies ∧ c.replies? = some replies ∧
      c.upcoming = .speak replies :: c.repliesSent.upcoming ∧ c.repliesSent.OnScript ∧
      c.repliesSent.script = c.script := by
  obtain ⟨replies, ht, -, hplaced, hscript, hgo⟩ := speaks_of_sending h.full h.placed hs
  obtain ⟨lines, hb, -, ho⟩ := h.placed.sending hs
  have hr : c.replies? = some lines := by simp only [replies?, hs, hb]
  have hsent : c.repliesSent = c.advance := by simp only [repliesSent, hs]
  obtain rfl : lines = replies := by
    simp only [turn, hs, hr] at ht
    exact Turn.speak.inj ht
  refine ⟨lines, ht, hr, ?_, ⟨hscript ▸ h.full, hplaced, hgo⟩, hscript⟩
  rw [hsent, upcoming_of_block hb, ho]
  rfl

/-- Where a message is expected and the server has no turn before it, the client has its turn. -/
theorem OnScript.hears_of_expects (h : c.OnScript) (hs : c.state ≠ .sendingServer) {e : Expect}
    {rest : List Expect} (he : Turn.expects c.upcoming = e :: rest) :
    c.state = .awaitingClient ∧ c.turn = .hear e ∧ ∃ behind, c.upcoming = .hear e :: behind := by
  cases hstate : c.state with
  | awaitingClient =>
    obtain ⟨e', behind, ht, hu⟩ := h.hears hstate
    rw [hu] at he
    obtain rfl : e' = e := (List.cons.inj he).1
    exact ⟨rfl, ht, behind, hu⟩
  | sendingServer => exact absurd hstate hs
  | completed =>
    rw [h.upcoming_of_completed hstate] at he
    simp [Turn.expects] at he
  | failed failure => exact absurd hstate (h.unfailed failure)

/-- Where no message is expected and the server has no turn, the conversation has completed. -/
theorem OnScript.completed_of_expects (h : c.OnScript) (hs : c.state ≠ .sendingServer)
    (he : Turn.expects c.upcoming = []) : c.state = .completed := by
  cases hstate : c.state with
  | awaitingClient =>
    obtain ⟨e, behind, -, hu⟩ := h.hears hstate
    rw [hu] at he
    simp [Turn.expects, Turn.expect?] at he
  | sendingServer => exact absurd hstate hs
  | completed => rfl
  | failed failure => exact absurd hstate (h.unfailed failure)

end Conversation

end ScriptedBolt
