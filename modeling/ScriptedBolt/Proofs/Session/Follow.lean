import ScriptedBolt.Proofs.Conversation.Cursor
import ScriptedBolt.Session

/-!
# Following the cues

A session takes turns, and a turn of the server is a whole block. What it does on a connection
can be said without either: it takes the cues of its script one after the other, until one of
them ends the conversation. `follow` is that plain reading of a script. A conversation whose
cursor is in its place follows the cues from the cursor on (`converse_eq_follow`), and its trail
over the connection is the same, cue by cue.
-/

namespace ScriptedBolt.Session

/-- Takes a cue, with `left` cues from it on. Gives the connection after it, or how the
conversation ends with it. -/
def take (ctx : Context) (v : Version) (script : Script) (left : Nat) (link : Link) :
    Cue → Except (State × Link) Link
  | .hear expected =>
    let received := Frame.readMessage v .client ctx.settings.maxMessageSize link.source
    let link := { link with source := received.rest }
    match received.result with
    | .ok (some m) =>
      if script.matchesLine expected m then .ok link
      else .error (.failed (.mismatch expected m), link)
    | .ok none => .error (.failed (.incomplete left), link)
    | .error e =>
      if e.isDisconnect then .error (.failed (.incomplete left), link)
      else .error (.failed (failureOf ctx.settings .protocol e), link)
  | .perform r =>
    match r.action with
    | .exit => .error (.completed, link)
    | action =>
      match bytesOf ctx.settings v action with
      | .error e => .error (.failed (.protocol s!"script line {r.line}: {e.message}"), link)
      | .ok none => .ok link
      | .ok (some bytes) =>
        match write bytes link with
        | (.ok (), link) => .ok link
        | (.error e, link) => .error (.failed (.writeError e.message), link)

/-- Takes cues until one ends the conversation. Gives how it ended, and the connection then. -/
def follow (ctx : Context) (v : Version) (script : Script) : List Cue → Link → State × Link
  | [], link => (.completed, link)
  | cue :: cues, link =>
    match take ctx v script (cues.length + 1) link cue with
    | .ok link => follow ctx v script cues link
    | .error ended => ended

/-- The connection after each cue that is taken. -/
def footsteps (ctx : Context) (v : Version) (script : Script) : List Cue → Link → List Link
  | [], _ => []
  | cue :: cues, link =>
    match take ctx v script (cues.length + 1) link cue with
    | .ok link => link :: footsteps ctx v script cues link
    | .error ended => [ended.2]

/-- The connection after each action of a turn of the server. -/
def speakTrail (ctx : Context) (v : Version) (c : Conversation) : List Reply → Link → List Link
  | [], _ => []
  | r :: replies, link =>
    match perform ctx v c link r with
    | .error ended => [ended.link]
    | .ok link => link :: speakTrail ctx v c replies link

/-- The connection after each message and each action of a conversation. -/
def trail (ctx : Context) (v : Version) (c : Conversation) (link : Link) : List Link :=
  match h : c.turn with
  | .done => []
  | .hear _ =>
    have := ahead_hear_lt ctx v link h
    let step := hear ctx v c link
    step.link :: trail ctx v step.conversation step.link
  | .speak replies =>
    have := ahead_speak_lt ctx v link h
    let step := speak ctx v c link replies
    speakTrail ctx v c replies link ++ trail ctx v step.conversation step.link
termination_by c.ahead

variable (ctx : Context) (v : Version) {c : Conversation}

/-! ### Turns -/

/-- A trail goes on by the turn of its conversation. -/
theorem trail_eq (c : Conversation) (link : Link) : trail ctx v c link =
    match c.turn with
    | .done => []
    | .hear _ =>
      let step := hear ctx v c link
      step.link :: trail ctx v step.conversation step.link
    | .speak replies =>
      let step := speak ctx v c link replies
      speakTrail ctx v c replies link ++ trail ctx v step.conversation step.link := by
  rw [trail]
  split
  · next h => simp only [h]
  · next h => simp only [h]
  · next h => simp only [h]

/-- Nothing happens once a conversation has ended. -/
theorem converse_of_terminal (h : c.isTerminal = true) (link : Link) :
    converse ctx v c link = ⟨c, link, []⟩ ∧ trail ctx v c link = [] := by
  rw [converse_eq, trail_eq, Conversation.turn_of_terminal h]
  exact ⟨rfl, rfl⟩

private theorem fail_of_going (h : c.isTerminal = false) (failure : Failure) :
    (c.fail failure).state = .failed failure := by
  rw [Conversation.fail, if_neg (by simp [h])]

private theorem exit_of_going (h : c.isTerminal = false) : c.exit.state = .completed := by
  rw [Conversation.exit, if_neg (by simp [h])]

/-- An action is performed as its cue is taken. -/
theorem perform_takes (hc : c.isTerminal = false) (script : Script) (left : Nat) (link : Link)
    (r : Reply) :
    (∃ after, perform ctx v c link r = .ok after ∧
      take ctx v script left link (.perform r) = .ok after) ∨
    ∃ ended, perform ctx v c link r = .error ended ∧ ended.conversation.isTerminal = true ∧
      take ctx v script left link (.perform r) = .error (ended.conversation.state, ended.link) := by
  have failed (failure : Failure) : (c.fail failure).isTerminal = true :=
    Conversation.isTerminal_of_failed (fail_of_going hc failure)
  obtain ⟨line, action⟩ := r
  unfold perform take
  cases action with
  | exit =>
    refine .inr ⟨_, rfl, ?_, ?_⟩
    · exact Conversation.isTerminal_of_completed (exit_of_going hc)
    · simp only [exit_of_going hc]
  | _ =>
    dsimp only
    generalize bytesOf ctx.settings v _ = result
    rcases result with e | _ | bytes
    · exact .inr ⟨_, rfl, failed _, by rw [fail_of_going hc]⟩
    · exact .inl ⟨link, rfl, rfl⟩
    · dsimp only
      generalize write bytes link = sent
      rcases sent with ⟨e | _, after⟩
      · exact .inr ⟨_, rfl, failed _, by rw [fail_of_going hc]⟩
      · exact .inl ⟨after, rfl, rfl⟩

/-- A block is performed as its cues are followed: up to its end, or to a cue that ends the
conversation. -/
theorem speak_follows (hc : c.isTerminal = false) (script : Script) (replies : List Reply)
    (rest : List Cue) (link : Link) :
    let step := speak ctx v c link replies
    let cues := replies.map .perform ++ rest
    (step.conversation = c.repliesSent ∧
      follow ctx v script cues link = follow ctx v script rest step.link ∧
      footsteps ctx v script cues link =
        speakTrail ctx v c replies link ++ footsteps ctx v script rest step.link) ∨
    (step.conversation.isTerminal = true ∧
      follow ctx v script cues link = (step.conversation.state, step.link) ∧
      footsteps ctx v script cues link = speakTrail ctx v c replies link) := by
  induction replies generalizing link with
  | nil =>
    rw [speak_nil]
    exact .inl ⟨rfl, rfl, rfl⟩
  | cons r replies ih =>
    have hcue :=
      perform_takes ctx v hc script ((replies.map Cue.perform ++ rest).length + 1) link r
    simp only [List.map_cons, List.cons_append, speak_cons, follow, footsteps, speakTrail]
    rcases hcue with ⟨after, hp, ht⟩ | ⟨ended, hp, hend, ht⟩
    · rw [hp, ht]
      rcases ih after with ⟨hs, hf, hm⟩ | ⟨hs, hf, hm⟩
      · exact .inl ⟨hs, hf, congrArg _ hm⟩
      · exact .inr ⟨hs, hf, congrArg _ hm⟩
    · rw [hp, ht]
      exact .inr ⟨hend, rfl, rfl⟩

/-- A message is heard as its cue is taken. -/
theorem hear_takes (hfull : c.script.Full) (h : c.Placed) {expected : Expect} {rest : List Cue}
    (ht : c.turn = .hear expected) (hp : c.pending = .hear expected :: rest) (link : Link) :
    let step := hear ctx v c link
    let taken := take ctx v c.script (rest.length + 1) link (.hear expected)
    (taken = .ok step.link ∧ step.conversation.Placed ∧ step.conversation.pending = rest ∧
      step.conversation.script = c.script ∧ ∀ failure, step.conversation.state ≠ .failed failure) ∨
    (taken = .error (step.conversation.state, step.link) ∧
      step.conversation.isTerminal = true) := by
  have hgoing : c.isTerminal = false := by
    rw [Conversation.isTerminal, (Conversation.expected?_of_turn ht).1]
    rfl
  have hclosed := Conversation.disconnected_of_hear ht hp
  simp only [hear, take]
  generalize Frame.readMessage v .client ctx.settings.maxMessageSize link.source = received
  rcases received with ⟨e | _ | m, count, rest'⟩
  · simp only [tellResult, close]
    cases e.isDisconnect with
    | true => exact .inr ⟨by simp [hclosed], Conversation.isTerminal_of_failed hclosed⟩
    | false =>
      have hstate := fail_of_going hgoing (failureOf ctx.settings .protocol e)
      exact .inr ⟨by simp [hstate], Conversation.isTerminal_of_failed hstate⟩
  · exact .inr ⟨by rw [tellResult, close, hclosed], Conversation.isTerminal_of_failed hclosed⟩
  · simp only [tellResult, tell]
    cases hmatch : c.script.matchesLine expected m with
    | true =>
      obtain ⟨hplaced, hpending, hscript, hgo⟩ :=
        Conversation.receive_of_matches hfull h ht hp hmatch
      exact .inl ⟨rfl, hplaced, hpending, hscript, hgo⟩
    | false =>
      have hstate := Conversation.receive_of_mismatch ht hmatch
      exact .inr ⟨by rw [hstate]; rfl, Conversation.isTerminal_of_failed hstate⟩

/-! ### Whole conversations -/

/-- A conversation whose cursor is in its place follows the cues from the cursor on. -/
theorem converse_eq_follow (hfull : c.script.Full) (h : c.Placed)
    (hgo : ∀ failure, c.state ≠ .failed failure) (link : Link) :
    (converse ctx v c link).conversation.state = (follow ctx v c.script c.pending link).1 ∧
      (converse ctx v c link).link = (follow ctx v c.script c.pending link).2 ∧
      trail ctx v c link = footsteps ctx v c.script c.pending link := by
  generalize hn : c.ahead = n
  induction n using Nat.strongRecOn generalizing c link with
  | ind n ih =>
    cases hs : c.state with
    | awaitingClient =>
      obtain ⟨expected, rest, ht, hp⟩ := Conversation.hears_of_awaiting h hs
      have hless := ahead_hear_lt ctx v link ht
      rw [converse_eq, trail_eq, ht, hp]
      simp only [follow, footsteps]
      rcases hear_takes ctx v hfull h ht hp link with
        ⟨htake, hplaced, hpending, hscript, hgo⟩ | ⟨htake, hend⟩
      · rw [htake, ← hscript, ← hpending]
        obtain ⟨hs', hl', ht'⟩ := ih _ (hn ▸ hless) (hscript ▸ hfull) hplaced hgo
          (hear ctx v c link).link rfl
        exact ⟨hs', hl', congrArg _ ht'⟩
      · obtain ⟨hconv, hnone⟩ := converse_of_terminal ctx v hend (hear ctx v c link).link
        rw [htake, hconv, hnone]
        exact ⟨rfl, rfl, rfl⟩
    | sendingServer =>
      obtain ⟨replies, ht, hp, hplaced, hscript, hgo⟩ := Conversation.speaks_of_sending hfull h hs
      have hless := ahead_speak_lt ctx v link ht
      have hgoing : c.isTerminal = false := by
        rw [Conversation.isTerminal, hs]
        rfl
      rw [converse_eq, trail_eq, ht, hp]
      dsimp only
      rcases speak_follows ctx v hgoing c.script replies c.repliesSent.pending link with
        ⟨hsent, hf, hm⟩ | ⟨hend, hf, hm⟩
      · rw [hsent] at hless ⊢
        rw [hf, hm, ← hscript]
        obtain ⟨hs', hl', ht'⟩ := ih _ (hn ▸ hless) (hscript ▸ hfull) hplaced hgo
          (speak ctx v c link replies).link rfl
        exact ⟨hs', hl', congrArg _ ht'⟩
      · obtain ⟨hconv, hnone⟩ :=
          converse_of_terminal ctx v hend (speak ctx v c link replies).link
        rw [hf, hm, hconv, hnone]
        exact ⟨rfl, rfl, List.append_nil _⟩
    | completed =>
      have hend := Conversation.isTerminal_of_completed hs
      obtain ⟨hconv, hnone⟩ := converse_of_terminal ctx v hend link
      rw [hconv, hnone, Conversation.pending_of_completed h hs]
      exact ⟨hs, rfl, rfl⟩
    | failed failure => exact absurd hs (hgo failure)

end ScriptedBolt.Session
