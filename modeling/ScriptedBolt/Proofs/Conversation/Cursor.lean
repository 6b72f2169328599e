import ScriptedBolt.Conversation
import ScriptedBolt.Proofs.Script.Cues

/-!
# Where the cursor stands

The state of a conversation says what the cursor stands on, as long as no block of its script is
empty. `Placed` is that invariant. While it holds, the cues from the cursor on are all that a
conversation still depends on: hearing the message it expects takes the first of them away, and
performing a block takes the cues of that block away.
-/

namespace ScriptedBolt.Conversation

variable {c : Conversation}

/-- The cues from the cursor on. -/
def pending (c : Conversation) : List Cue :=
  ((c.script.blocks.drop c.block).flatMap Block.cues).drop c.offset

/-- Whether the cursor stands where the state says: on a line of the client, at the start of a
block of the server, or behind the last block. -/
def Placed (c : Conversation) : Prop :=
  match c.state with
  | .awaitingClient => ∃ lines, c.script.blocks[c.block]? = some (.client lines) ∧
      c.offset < lines.length
  | .sendingServer => ∃ lines, c.script.blocks[c.block]? = some (.server lines) ∧
      lines ≠ [] ∧ c.offset = 0
  | .completed => c.block = c.script.blocks.length ∧ c.offset = 0
  | .failed _ => True

/-- A failure is an end. -/
theorem isTerminal_of_failed {failure : Failure} (h : c.state = .failed failure) :
    c.isTerminal = true := by
  rw [isTerminal, h]
  rfl

/-- The end of the script is an end. -/
theorem isTerminal_of_completed (h : c.state = .completed) : c.isTerminal = true := by
  rw [isTerminal, h]
  rfl

/-- After the end nobody has a turn. -/
theorem turn_of_terminal (h : c.isTerminal = true) : c.turn = .done := by
  unfold isTerminal State.isTerminal at h
  unfold turn
  split at h
  · next hs => rw [hs]
  · next hs => rw [hs]
  · simp at h
  · simp at h

/-- In the turn of the client the cursor stands on one of its lines. -/
theorem Placed.awaiting (h : c.Placed) (hs : c.state = .awaitingClient) :
    ∃ lines, c.script.blocks[c.block]? = some (.client lines) ∧ c.offset < lines.length := by
  unfold Placed at h
  rwa [hs] at h

/-- In the turn of the server the cursor stands at the start of its block. -/
theorem Placed.sending (h : c.Placed) (hs : c.state = .sendingServer) :
    ∃ lines, c.script.blocks[c.block]? = some (.server lines) ∧ lines ≠ [] ∧ c.offset = 0 := by
  unfold Placed at h
  rwa [hs] at h

/-- After the end of the script the cursor stands behind the last block. -/
theorem Placed.completed (h : c.Placed) (hs : c.state = .completed) :
    c.block = c.script.blocks.length ∧ c.offset = 0 := by
  unfold Placed at h
  rwa [hs] at h

/-- The line that the cursor stands on is the one expected. -/
theorem expected?_of_client {lines : List Expect}
    (hb : c.script.blocks[c.block]? = some (.client lines)) (hlt : c.offset < lines.length) :
    c.expected? = some lines[c.offset] := by
  rw [expected?, hb]
  exact List.getElem?_eq_getElem hlt

/-- No script fails at the start of a block. -/
theorem stateAt_ne_failed (script : Script) (block : Nat) (failure : Failure) :
    stateAt script block ≠ .failed failure := by
  unfold stateAt
  split <;> simp

/-- The lines that remain are the cues from the cursor on. -/
theorem remaining_eq (c : Conversation) : c.remaining = c.pending.length := by
  rw [remaining, pending, List.length_drop, Block.countLines_eq]

private theorem placed_at {script : Script} (h : script.Full) {block : Nat}
    (hb : block ≤ script.blocks.length) :
    Placed ⟨script, block, 0, stateAt script block⟩ := by
  unfold Placed stateAt
  cases he : script.blocks[block]? with
  | none => exact ⟨Nat.le_antisymm hb (List.getElem?_eq_none_iff.mp he), rfl⟩
  | some b =>
    have hpos := h b (List.mem_of_getElem? he)
    cases b with
    | client lines => exact ⟨lines, rfl, hpos⟩
    | server lines => exact ⟨lines, rfl, List.ne_nil_of_length_pos hpos, rfl⟩

/-- A conversation starts with the cursor in its place. -/
theorem placed_start {script : Script} (h : script.Full) : (start script).Placed :=
  placed_at h (Nat.zero_le _)

/-- The cursor is in its place at the start of the next block. -/
theorem placed_advance (h : c.script.Full) (hb : c.block < c.script.blocks.length) :
    c.advance.Placed := placed_at h hb

/-- At the start of the next block all cues behind the current block are to come. -/
theorem pending_of_block {b : Block} (hb : c.script.blocks[c.block]? = some b) :
    c.pending = (b.cues ++ c.advance.pending).drop c.offset := by
  obtain ⟨hlt, rfl⟩ := List.getElem?_eq_some_iff.mp hb
  rw [pending, List.drop_eq_getElem_cons hlt, List.flatMap_cons]
  rfl

/-- Nothing is to come once a conversation has completed. -/
theorem pending_of_completed (h : c.Placed) (hs : c.state = .completed) : c.pending = [] := by
  obtain ⟨hb, ho⟩ := h.completed hs
  rw [pending, hb, List.drop_length, ho]
  rfl

/-- When the client has its turn, the first cue to come is the message expected. -/
theorem hears_of_awaiting (h : c.Placed) (hs : c.state = .awaitingClient) :
    ∃ expected rest, c.turn = .hear expected ∧ c.pending = .hear expected :: rest := by
  obtain ⟨lines, hb, hlt⟩ := h.awaiting hs
  have he := expected?_of_client hb hlt
  have hle : c.offset ≤ (Block.client lines).cues.length := by
    rw [Block.length_cues]
    exact Nat.le_of_lt hlt
  refine ⟨lines[c.offset], (lines.drop (c.offset + 1)).map .hear ++ c.advance.pending, ?_, ?_⟩
  · simp only [turn, hs, he]
  · rw [pending_of_block hb, List.drop_append_of_le_length hle, Block.cues, ← List.map_drop,
      List.drop_eq_getElem_cons hlt]
    rfl

/-- A message that matches takes the first cue away. -/
theorem receive_of_matches (hfull : c.script.Full) (h : c.Placed) {expected : Expect}
    {rest : List Cue} (ht : c.turn = .hear expected) (hp : c.pending = .hear expected :: rest)
    {m : Message} (hm : c.script.matchesLine expected m = true) :
    (c.receive m).Placed ∧ (c.receive m).pending = rest ∧ (c.receive m).script = c.script ∧
      ∀ failure, (c.receive m).state ≠ .failed failure := by
  obtain ⟨hs, he⟩ := expected?_of_turn ht
  obtain ⟨lines, hb, hlt⟩ := h.awaiting hs
  have hlines := lines.length_map Cue.hear
  have hdrop : rest = c.pending.drop 1 := by rw [hp]; rfl
  rw [pending_of_block hb, List.drop_drop, Block.cues] at hdrop
  simp only [receive, hs, he, hm, ↓reduceIte, hb, Option.map_some, Option.getD_some, Block.length]
  split
  · next hle =>
    have hlast : c.offset + 1 = lines.length := by omega
    refine ⟨placed_advance hfull (List.getElem?_eq_some_iff.mp hb).1, ?_, rfl,
      stateAt_ne_failed _ _⟩
    rw [hdrop, hlast, ← hlines, List.drop_left]
  · next hgt =>
    have hlt' : c.offset + 1 < lines.length := Nat.lt_of_not_le hgt
    refine ⟨⟨lines, hb, hlt'⟩, ?_, rfl, ?_⟩
    · rw [hdrop]
      exact pending_of_block (c := { c with offset := c.offset + 1 }) hb
    · simp

/-- A message that does not match ends the conversation. -/
theorem receive_of_mismatch {expected : Expect} (ht : c.turn = .hear expected) {m : Message}
    (hm : c.script.matchesLine expected m = false) :
    (c.receive m).state = .failed (.mismatch expected m) := by
  obtain ⟨hs, he⟩ := expected?_of_turn ht
  simp only [receive, hs, he, hm, Bool.false_eq_true, ↓reduceIte]

/-- When the server has its turn, the first cues to come are those of its block. Performing it
takes them away. -/
theorem speaks_of_sending (hfull : c.script.Full) (h : c.Placed) (hs : c.state = .sendingServer) :
    ∃ replies, c.turn = .speak replies ∧
      c.pending = replies.map .perform ++ c.repliesSent.pending ∧ c.repliesSent.Placed ∧
      c.repliesSent.script = c.script ∧ ∀ failure, c.repliesSent.state ≠ .failed failure := by
  obtain ⟨lines, hb, -, ho⟩ := h.sending hs
  have hsent : c.repliesSent = c.advance := by simp only [repliesSent, hs]
  refine ⟨lines, ?_, ?_, ?_, ?_, ?_⟩
  · simp only [turn, hs, replies?, hb]
  · rw [hsent, pending_of_block hb, ho]
    rfl
  · rw [hsent]
    exact placed_advance hfull (List.getElem?_eq_some_iff.mp hb).1
  · rw [hsent]
    rfl
  · rw [hsent]
    exact stateAt_ne_failed _ _

/-- A client that closes its side while it has its turn leaves the lines from the cursor on. -/
theorem disconnected_of_hear {expected : Expect} {rest : List Cue}
    (ht : c.turn = .hear expected) (hp : c.pending = .hear expected :: rest) :
    c.disconnected.state = .failed (.incomplete (rest.length + 1)) := by
  obtain ⟨hs, -⟩ := expected?_of_turn ht
  have hrem : c.remaining = rest.length + 1 := by rw [remaining_eq, hp, List.length_cons]
  simp [disconnected, isTerminal, State.isTerminal, hs, hrem]

end ScriptedBolt.Conversation
