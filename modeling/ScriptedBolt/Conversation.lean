import ScriptedBolt.Script

/-!
# Conversations

A conversation walks a script. Its cursor is a block and an offset in it; its state says whose
turn it is, or how it ended. It does no reading or writing itself: it is told what happened,
and only moves the cursor and decides the state. Once it has ended nothing changes it.
-/

namespace ScriptedBolt

/-- Why a conversation failed. -/
inductive Failure where
  | mismatch (expected : Expect) (got : Message)
  | incomplete (remaining : Nat)
  | timeout (after : Span)
  | writeError (reason : String)
  | handshake (reason : String)
  | protocol (reason : String)

/-- The failure in words. -/
def Failure.message : Failure → String
  | mismatch expected got =>
    s!"Message mismatch at script line {expected.line}: expected <{expected.message.text}>, "
      ++ s!"received <{got.text}>"
  | incomplete remaining =>
    s!"Client disconnected with {remaining} script lines remaining"
  | timeout after => s!"Timed out after {after.text} of inactivity"
  | writeError reason => s!"Failed to write to client: {reason}"
  | handshake reason => s!"Handshake failed: {reason}"
  | protocol reason => s!"Protocol error: {reason}"

/-- Whose turn it is in a conversation, or how it ended. -/
inductive State where
  | awaitingClient
  | sendingServer
  | completed
  | failed (failure : Failure)

namespace State

/-- Whether the conversation has ended. -/
def isTerminal : State → Bool
  | completed | failed _ => true
  | awaitingClient | sendingServer => false

end State

/-- A conversation in progress. -/
structure Conversation where
  script : Script
  /-- The number of blocks behind the cursor. -/
  block : Nat
  /-- The number of lines of the current block behind the cursor. -/
  offset : Nat
  state : State

namespace Conversation

/-- The state of a script at the start of a block. -/
def stateAt (script : Script) (block : Nat) : State :=
  match script.blocks[block]? with
  | some (.client _) => .awaitingClient
  | some (.server _) => .sendingServer
  | none => .completed

/-- The conversation at the start of its script. -/
def start (script : Script) : Conversation := ⟨script, 0, 0, stateAt script 0⟩

/-- Whether the conversation has ended. -/
def isTerminal (c : Conversation) : Bool := c.state.isTerminal

/-- The line at the cursor, if it is one of the client. -/
def expected? (c : Conversation) : Option Expect :=
  match c.script.blocks[c.block]? with
  | some (.client lines) => lines[c.offset]?
  | _ => none

/-- The actions of the current block, if it is the server's turn. -/
def replies? (c : Conversation) : Option (List Reply) :=
  match c.state, c.script.blocks[c.block]? with
  | .sendingServer, some (.server lines) => some lines
  | _, _ => none

/-- The number of lines from the cursor on. -/
def remaining (c : Conversation) : Nat :=
  Block.countLines (c.script.blocks.drop c.block) - c.offset

/-- The conversation at the start of the next block. -/
def advance (c : Conversation) : Conversation :=
  ⟨c.script, c.block + 1, 0, stateAt c.script (c.block + 1)⟩

/-- Tells of a message of the client. It counts only while one is awaited. -/
def receive (c : Conversation) (m : Message) : Conversation :=
  match c.state, c.expected? with
  | .awaitingClient, some expected =>
    if c.script.matchesLine expected m then
      let length := (c.script.blocks[c.block]?.map Block.length).getD 0
      if length ≤ c.offset + 1 then c.advance else { c with offset := c.offset + 1 }
    else { c with state := .failed (.mismatch expected m) }
  | _, _ => c

/-- Tells that the current block of the server was performed. -/
def repliesSent (c : Conversation) : Conversation :=
  match c.state with
  | .sendingServer => c.advance
  | _ => c

/-- Ends the conversation with success, whatever is left of the script. -/
def exit (c : Conversation) : Conversation :=
  if c.isTerminal then c else ⟨c.script, c.script.blocks.length, 0, .completed⟩

/-- Records a failure. -/
def fail (c : Conversation) (failure : Failure) : Conversation :=
  if c.isTerminal then c else { c with state := .failed failure }

/-- Tells that the client has closed its side. -/
def disconnected (c : Conversation) : Conversation :=
  if c.isTerminal then c
  else if c.remaining = 0 then { c with state := .completed }
  else { c with state := .failed (.incomplete c.remaining) }

/-- What has to happen next. -/
inductive Turn where
  /-- The client has to send a message. -/
  | hear (expected : Expect)
  /-- The server has to perform its actions. -/
  | speak (replies : List Reply)
  /-- Nothing. -/
  | done

/-- What has to happen next. -/
def turn (c : Conversation) : Turn :=
  match c.state with
  | .awaitingClient =>
    match c.expected? with
    | some expected => .hear expected
    | none => .done
  | .sendingServer =>
    match c.replies? with
    | some replies => .speak replies
    | none => .done
  | _ => .done

/-- The number of lines of a script from the start of a block on, with one more for each block
and for the end. -/
def weight (script : Script) (block : Nat) : Nat :=
  Block.countLines (script.blocks.drop block) + (script.blocks.length - block) + 1

/-- A bound on the number of turns left. -/
def ahead (c : Conversation) : Nat :=
  match c.state with
  | .awaitingClient => weight c.script c.block - c.offset
  | .sendingServer => weight c.script c.block
  | _ => 0

/-- Moving past a block takes its lines and one more off the weight. -/
theorem weight_succ {script : Script} {block : Nat} {b : Block}
    (h : script.blocks[block]? = some b) :
    weight script block = b.length + 1 + weight script (block + 1) := by
  obtain ⟨hlt, he⟩ := List.getElem?_eq_some_iff.mp h
  simp only [weight, Block.countLines, List.drop_eq_getElem_cons hlt, he, List.foldr_cons]
  omega

/-- At the start of the next block no more is ahead than its weight. -/
theorem ahead_advance_le (c : Conversation) :
    c.advance.ahead ≤ weight c.script (c.block + 1) := by
  simp only [ahead, advance]
  split <;> omega

/-- When a message is awaited, the cursor is on a line of a client block. -/
theorem expected?_of_turn {c : Conversation} {expected : Expect}
    (h : c.turn = .hear expected) :
    c.state = .awaitingClient ∧ c.expected? = some expected := by
  unfold turn at h
  split at h
  · next hs => split at h <;> simp_all
  · split at h <;> simp_all
  · simp at h

private theorem offset_lt_of_turn {c : Conversation} {expected : Expect}
    (h : c.turn = .hear expected) :
    ∃ b, c.script.blocks[c.block]? = some b ∧ c.offset < b.length := by
  have ⟨_, he⟩ := expected?_of_turn h
  unfold expected? at he
  split at he
  · next lines hb =>
    obtain ⟨hlt, -⟩ := List.getElem?_eq_some_iff.mp he
    exact ⟨_, hb, hlt⟩
  · simp at he

private theorem ahead_pos_of_hear {c : Conversation} {expected : Expect}
    (h : c.turn = .hear expected) : 0 < c.ahead := by
  obtain ⟨b, hb, hlt⟩ := offset_lt_of_turn h
  have ⟨hs, _⟩ := expected?_of_turn h
  have := weight_succ hb
  simp only [ahead, hs]
  omega

/-- A message that is heard in its turn leaves fewer turns. -/
theorem ahead_receive_lt {c : Conversation} {expected : Expect} (h : c.turn = .hear expected)
    (m : Message) : (c.receive m).ahead < c.ahead := by
  obtain ⟨b, hb, hlt⟩ := offset_lt_of_turn h
  have ⟨hs, he⟩ := expected?_of_turn h
  have hw := weight_succ hb
  have hpos := ahead_pos_of_hear h
  have hadv := ahead_advance_le c
  have hc : c.ahead = weight c.script c.block - c.offset := by simp only [ahead, hs]
  simp only [receive, hs, he]
  split
  · split
    · omega
    · rw [hc]
      simp only [ahead]
      omega
  · exact hpos

/-- A failure ends the turns. -/
theorem ahead_fail (c : Conversation) (failure : Failure) : (c.fail failure).ahead = 0 := by
  unfold fail
  split
  · next h =>
    unfold isTerminal at h
    cases hs : c.state <;> simp_all [State.isTerminal, ahead]
  · rfl

/-- A client that has closed its side ends the turns. -/
theorem ahead_disconnected (c : Conversation) : c.disconnected.ahead = 0 := by
  unfold disconnected
  split
  · next h =>
    unfold isTerminal at h
    cases hs : c.state <;> simp_all [State.isTerminal, ahead]
  · split <;> rfl

/-- The end of the script ends the turns. -/
theorem ahead_exit (c : Conversation) : c.exit.ahead = 0 := by
  unfold exit
  split
  · next h =>
    unfold isTerminal at h
    cases hs : c.state <;> simp_all [State.isTerminal, ahead]
  · rfl

/-- Whatever ends the turns leaves fewer of them. -/
theorem pos_ahead_of_turn {c : Conversation} (h : c.turn ≠ .done) : 0 < c.ahead := by
  cases ht : c.turn with
  | hear expected => exact ahead_pos_of_hear ht
  | speak replies =>
    unfold turn at ht
    split at ht
    · split at ht <;> simp at ht
    · next hs =>
      simp only [ahead, hs, weight]
      omega
    · simp at ht
  | done => exact absurd ht h

/-- A block that is performed leaves fewer turns. -/
theorem ahead_repliesSent_lt {c : Conversation} {replies : List Reply}
    (h : c.turn = .speak replies) : c.repliesSent.ahead < c.ahead := by
  unfold turn at h
  split at h
  · split at h <;> simp at h
  · next hs =>
    split at h
    · next hr =>
      unfold replies? at hr
      split at hr
      · next hb =>
        have := weight_succ hb
        have := ahead_advance_le c
        have hc : c.ahead = weight c.script c.block := by simp only [ahead, hs]
        simp only [repliesSent, hs]
        omega
      · simp at hr
    · simp at h
  · simp at h

end Conversation

end ScriptedBolt
