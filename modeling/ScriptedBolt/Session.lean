import ScriptedBolt.Frame
import ScriptedBolt.Note
import ScriptedBolt.Settings

/-!
# Sessions

A session plays a script with one client: the handshake first, then turn by turn, until the
conversation has ended. A failure is a way for it to end. Messages are heard one at a time, and
nothing is read while the server has the turn.
-/

namespace ScriptedBolt.Session

/-- The two directions of a connection. -/
structure Link where
  source : Source
  sink : Sink

/-- What a session knows throughout. -/
structure Context where
  settings : Settings
  /-- The peer as the log names it. -/
  peer : String

/-- Where a session is: its conversation and its connection, and what was noted on the way. -/
structure Progress where
  conversation : Conversation
  link : Link
  notes : List Note

/-- The failure that an error makes of a conversation: an expired deadline is a timeout. -/
def failureOf (settings : Settings) (otherwise : String → Failure) (e : Error) : Failure :=
  if e.isTimeout then .timeout (settings.timeout.getD .zero) else otherwise e.reason

/-- Writes the bytes that answer the proposals, once a version is chosen. -/
def answer (ctx : Context) (script : Script) (v : Version) (link : Link) :
    Except Error Version × Link × List Note :=
  let reply := script.reply?.getD (Handshake.wordBytes v.toWord)
  let (result, sink) := Handshake.sendReply reply link.sink
  let link := { link with sink }
  match result with
  | .error e => (.error e, link, [])
  | .ok () => (.ok v, link, [.replied reply, .negotiated v ctx.peer])

/-- Performs the handshake. If no version can be chosen, the client is told so if possible. -/
def shakeHands (ctx : Context) (script : Script) (link : Link) :
    Except Error Version × Link × List Note :=
  match Handshake.read link.source with
  | (.error e, source) => (.error e, { link with source }, [])
  | (.ok proposals, source) =>
    let link := { link with source }
    let seen := [Note.readMagic, .readProposals proposals]
    match Handshake.negotiate proposals script.version? with
    | .error e =>
      (.error e, { link with sink := (Handshake.sendReply [0, 0, 0, 0] link.sink).2 }, seen)
    | .ok v =>
      let (result, link, notes) := answer ctx script v link
      (result, link, seen ++ notes)

/-- Tells a conversation that the client has closed its side. -/
def close (ctx : Context) (c : Conversation) : Conversation × List Note :=
  let c := c.disconnected
  (c, .clientClosed ctx.peer ::
    match c.state with
    | .failed failure => [.failed failure]
    | _ => [])

/-- Tells a conversation of a message. -/
def tell (c : Conversation) (m : Message) : Conversation × List Note :=
  let after := c.receive m
  (after, c.noteOf m ++
    match after.state with
    | .failed failure => [.failed failure]
    | _ => [])

/-- Tells a conversation what became of reading a message. -/
def tellResult (ctx : Context) (c : Conversation) :
    Except Error (Option Message) → Conversation × List Note
  | .ok (some m) => tell c m
  | .ok none => close ctx c
  | .error e =>
    if e.isDisconnect then close ctx c
    else
      let failure := failureOf ctx.settings .protocol e
      (c.fail failure, [.failed failure])

/-- The turn of the client: reads one message. -/
def hear (ctx : Context) (v : Version) (c : Conversation) (link : Link) : Progress :=
  let received := Frame.readMessage v .client ctx.settings.maxMessageSize link.source
  let (c, notes) := tellResult ctx c received.result
  ⟨c, { link with source := received.rest },
    List.replicate received.keepAlives .keptAlive ++ notes⟩

/-- The bytes of an action, for the actions that write any. -/
def bytesOf (settings : Settings) (v : Version) : Action → Except Error (Option Bytes)
  | .send m => (Frame.ofMessage v .server settings.maxChunkSize m).map some
  | .raw bytes => .ok (some bytes)
  | .keepAlive => .ok (some [0, 0])
  | .sleep _ => .ok none
  | .exit => .ok none

/-- Writes bytes to the client. -/
def write (bytes : Bytes) (link : Link) : Except Error Unit × Link :=
  let (result, sink) := link.sink.send bytes
  (result.mapError .io, { link with sink })

/-- Performs an action. Gives the connection after it, or the end of the turn if the action ends
the conversation or cannot be performed. -/
def perform (ctx : Context) (v : Version) (c : Conversation) (link : Link) (r : Reply) :
    Except Progress Link :=
  match r.action with
  | .exit => .error ⟨c.exit, link, [.performed .exit]⟩
  | action =>
    match bytesOf ctx.settings v action with
    | .error e =>
      let failure := Failure.protocol s!"script line {r.line}: {e.message}"
      .error ⟨c.fail failure, link, [.failed failure]⟩
    | .ok none => .ok link
    | .ok (some bytes) =>
      match write bytes link with
      | (.ok (), link) => .ok link
      | (.error e, link) => .error ⟨c.fail (.writeError e.message), link, [.peerGone e]⟩

/-- The connection after an action. -/
def afterAction : Except Progress Link → Link
  | .ok link => link
  | .error ended => ended.link

/-- Whatever is heard in the turn of the client leaves fewer turns. -/
theorem ahead_hear_lt (ctx : Context) (v : Version) (link : Link) {c : Conversation}
    {expected : Expect} (h : c.turn = .hear expected) :
    (hear ctx v c link).conversation.ahead < c.ahead := by
  have hpos : 0 < c.ahead := Conversation.pos_ahead_of_turn (by simp [h])
  unfold hear tellResult tell close
  dsimp only
  split
  · exact Conversation.ahead_receive_lt h _
  · rw [Conversation.ahead_disconnected]
    exact hpos
  · split
    · rw [Conversation.ahead_disconnected]
      exact hpos
    · rw [Conversation.ahead_fail]
      exact hpos

private theorem ahead_perform {ctx : Context} {v : Version} {c : Conversation} {link : Link}
    {r : Reply} {ended : Progress} (h : perform ctx v c link r = .error ended) :
    ended.conversation.ahead = 0 := by
  unfold perform at h
  split at h
  · simp only [Except.error.injEq] at h
    rw [← h]
    exact Conversation.ahead_exit c
  · split at h
    · simp only [Except.error.injEq] at h
      rw [← h]
      exact Conversation.ahead_fail c _
    · simp at h
    · split at h
      · simp at h
      · simp only [Except.error.injEq] at h
        rw [← h]
        exact Conversation.ahead_fail c _

private theorem ahead_lt_of_spoken {c after : Conversation} {replies : List Reply}
    (h : c.turn = .speak replies) (hafter : after = c.repliesSent ∨ after.ahead = 0) :
    after.ahead < c.ahead := by
  rcases hafter with rfl | hend
  · exact Conversation.ahead_repliesSent_lt h
  · rw [hend]
    exact Conversation.pos_ahead_of_turn (by simp [h])

/-! ### Taking steps -/

/-- How the steps of a session are taken. Each is a function of the connection, and what comes of it
is what it gives on some connection. -/
structure Pace (m : Type → Type) where
  /-- Takes a step, given the connection after it. -/
  take {α : Type} (step : Link → α) (after : α → Link) : m {done : α // ∃ link, step link = done}
  /-- Lets the time of an action pass. -/
  wait (a : Action) : m Unit
  /-- Notes what is done. -/
  note (notes : List Note) : m Unit

namespace Pace

variable {m : Type → Type} [Monad m] (pace : Pace m) (ctx : Context) (v : Version)

/-- The turn of the server: performs actions in order, up to the end of the block, an exit or a
failure. -/
def speak (c : Conversation) :
    List Reply → m {after : Conversation // after = c.repliesSent ∨ after.ahead = 0}
  | [] => return ⟨c.repliesSent, .inl rfl⟩
  | r :: replies => do
    pace.wait r.action
    match ← pace.take (fun link ↦ perform ctx v c link r) afterAction with
    | ⟨.ok _, _⟩ =>
      pace.note [.performed r.action]
      speak c replies
    | ⟨.error ended, h⟩ =>
      pace.note ended.notes
      return ⟨ended.conversation, .inr (h.elim fun _ ↦ ahead_perform)⟩

/-- Takes turns until the conversation has ended. -/
def converse (c : Conversation) : m Conversation :=
  match h : c.turn with
  | .done => return c
  | .hear _ => do
    let step ← pace.take (hear ctx v c) Progress.link
    have : step.val.conversation.ahead < c.ahead := step.property.elim fun link hstep ↦
      hstep ▸ ahead_hear_lt ctx v link h
    pace.note step.val.notes
    converse step.val.conversation
  | .speak replies => do
    let after ← pace.speak ctx v c replies
    have : after.val.ahead < c.ahead := ahead_lt_of_spoken h after.property
    converse after.val
termination_by c.ahead

/-- A conversation goes on by its turn. -/
theorem converse_eq (c : Conversation) : pace.converse ctx v c =
    match c.turn with
    | .done => pure c
    | .hear _ => do
      let step ← pace.take (hear ctx v c) Progress.link
      pace.note step.val.notes
      pace.converse ctx v step.val.conversation
    | .speak replies => (do
      let after ← pace.speak ctx v c replies
      pace.converse ctx v after.val) := by
  rw [converse]
  split
  · next h => simp only [h]
  · next h => simp only [h]
  · next h => simp only [h]

/-- Plays a script with a client. -/
def run (script : Script) : m Conversation := do
  let c := Conversation.start script
  let (result, _, notes) := (← pace.take (shakeHands ctx script) (·.2.1)).val
  pace.note notes
  match result with
  | .error e =>
    pace.note [.handshakeFailed ctx.peer e]
    return c.fail (failureOf ctx.settings .handshake e)
  | .ok v => pace.converse ctx v c

end Pace

/-! ### On a connection at hand -/

/-- A part of a session: what it gives, the connection after it and what is noted. -/
def Course (α : Type) : Type := Link → α × Link × List Note

instance : Monad Course where
  map f part := fun link ↦
    let done := part link
    (f done.1, done.2)
  pure a := fun link ↦ (a, link, [])
  bind part next := fun link ↦
    let first := part link
    let second := next first.1 first.2.1
    (second.1, second.2.1, first.2.2 ++ second.2.2)

/-- On a connection at hand steps are taken at once. -/
def Pace.atOnce : Pace Course where
  take step after := fun link ↦ (⟨step link, link, rfl⟩, after (step link), [])
  wait _ := pure ()
  note notes := fun link ↦ ((), link, notes)

@[simp]
theorem Course.map_apply {α β : Type} (f : α → β) (part : Course α) (link : Link) :
    (f <$> part) link = (f (part link).1, (part link).2) := rfl

@[simp]
theorem Course.pure_apply {α : Type} (a : α) (link : Link) :
    (pure a : Course α) link = (a, link, []) := rfl

@[simp]
theorem Course.bind_apply {α β : Type} (part : Course α) (next : α → Course β) (link : Link) :
    (part >>= next) link =
      let first := part link
      let second := next first.1 first.2.1
      (second.1, second.2.1, first.2.2 ++ second.2.2) := rfl

@[simp]
theorem Pace.atOnce_wait (a : Action) (link : Link) : Pace.atOnce.wait a link = ((), link, []) := rfl

@[simp]
theorem Pace.atOnce_note (notes : List Note) (link : Link) :
    Pace.atOnce.note notes link = ((), link, notes) := rfl

/-- A step that is taken at once comes to what it gives. -/
theorem Pace.atOnce_take {α : Type} (step : Link → α) (after : α → Link) {link : Link} {done : α}
    (h : step link = done) :
    Pace.atOnce.take step after link = (⟨done, link, h⟩, after done, []) := by
  subst h
  rfl

/-- Where a session is that takes this course. -/
def Course.progress (part : Course Conversation) (link : Link) : Progress :=
  let done := part link
  ⟨done.1, done.2.1, done.2.2⟩

/-- The turn of the server on a connection. -/
def speak (ctx : Context) (v : Version) (c : Conversation) (link : Link) (replies : List Reply) :
    Progress :=
  Course.progress (Subtype.val <$> Pace.atOnce.speak ctx v c replies) link

/-- Takes turns on a connection until the conversation has ended. -/
def converse (ctx : Context) (v : Version) (c : Conversation) (link : Link) : Progress :=
  (Pace.atOnce.converse ctx v c).progress link

/-- Plays a script with a client over a connection. -/
def run (ctx : Context) (script : Script) (link : Link) : Progress :=
  (Pace.atOnce.run ctx script).progress link

section Equations

variable (ctx : Context) (v : Version) (c : Conversation) (link : Link)

/-- Without an action left the block is performed. -/
theorem speak_nil : speak ctx v c link [] = ⟨c.repliesSent, link, []⟩ := rfl

/-- The turn of the server goes on if its action does not end it. -/
theorem speak_cons (r : Reply) (replies : List Reply) : speak ctx v c link (r :: replies) =
    match perform ctx v c link r with
    | .error ended => ended
    | .ok link =>
      let after := speak ctx v c link replies
      { after with notes := .performed r.action :: after.notes } := by
  have took {done : Except Progress Link} (h : perform ctx v c link r = done) :=
    Pace.atOnce_take (fun link ↦ perform ctx v c link r) afterAction h
  cases h : perform ctx v c link r with
  | error ended => simp [speak, Course.progress, Pace.speak, took h, afterAction]
  | ok after => simp [speak, Course.progress, Pace.speak, took h, afterAction]

/-- Whatever becomes of the turn of the server leaves fewer turns. -/
theorem ahead_speak_lt {c : Conversation} {replies : List Reply} (h : c.turn = .speak replies) :
    (speak ctx v c link replies).conversation.ahead < c.ahead :=
  ahead_lt_of_spoken h (Pace.atOnce.speak ctx v c replies link).1.property

/-- A conversation goes on by its turn. -/
theorem converse_eq : converse ctx v c link =
    match c.turn with
    | .done => ⟨c, link, []⟩
    | .hear _ =>
      let step := hear ctx v c link
      let after := converse ctx v step.conversation step.link
      { after with notes := step.notes ++ after.notes }
    | .speak replies =>
      let step := speak ctx v c link replies
      let after := converse ctx v step.conversation step.link
      { after with notes := step.notes ++ after.notes } := by
  unfold converse Course.progress
  rw [Pace.converse_eq]
  cases c.turn with
  | done => rfl
  | hear e => rfl
  | speak replies => rfl

/-- A run is a handshake, and a conversation if a version is chosen. -/
theorem run_eq (script : Script) : run ctx script link =
    match shakeHands ctx script link with
    | (.error e, link, notes) =>
      ⟨(Conversation.start script).fail (failureOf ctx.settings .handshake e), link,
        notes ++ [.handshakeFailed ctx.peer e]⟩
    | (.ok v, link, notes) =>
      let after := converse ctx v (.start script) link
      { after with notes := notes ++ after.notes } := by
  obtain ⟨⟨result, after, notes⟩, h⟩ : ∃ shaken, shakeHands ctx script link = shaken := ⟨_, rfl⟩
  have took := Pace.atOnce_take (shakeHands ctx script) (·.2.1) h
  cases result with
  | error e => simp [run, Course.progress, Pace.run, took, h]
  | ok v => simp [run, converse, Course.progress, Pace.run, took, h]

end Equations

end ScriptedBolt.Session
