import ScriptedBolt.Conversation
import ScriptedBolt.Handshake

/-!
# The log

A run keeps a log of notes, in the order in which things happened. A note is what happened; its
level and its text are derived from it.
-/

namespace ScriptedBolt

/-- How much attention a note asks for. -/
inductive Level where
  | trace
  | debug
  | info
  | error
  deriving DecidableEq, Repr

/-- The name of a level. -/
def Level.name : Level → String
  | trace => "TRACE"
  | debug => "DEBUG"
  | info => "INFO"
  | error => "ERROR"

/-- Something that happened in a run. -/
inductive Note where
  /-- The client kept the connection alive. -/
  | keptAlive
  | readMagic
  | readProposals (p : Handshake.Proposals)
  | replied (bytes : Bytes)
  | negotiated (v : Version) (peer : String)
  | handshakeFailed (peer : String) (e : Error)
  /-- The client sent a message; with `auto` it matched, and its name was enough. -/
  | heard (auto : Bool) (m : Message)
  | clientClosed (peer : String)
  /-- The server performed an action in full. -/
  | performed (a : Action)
  /-- The peer was gone when an action was written. -/
  | peerGone (e : Error)
  | failed (failure : Failure)
  | loaded (path : String) (blocks directives : Nat)
  | listening (address : String)
  | nobodyCame (timeout : Span)
  | accepted (peer : String)
  | closedConnection (peer : String)
  | started (version : String)
  | usingScript (path : String)
  | scriptCompleted
  | conversationFailed (failure : Failure)
  | runFailed (e : Error)
  | exiting (code : Nat)

namespace Note

/-- The level of a note. -/
def level : Note → Level
  | keptAlive => .trace
  | readMagic | readProposals _ | replied _ | heard .. | clientClosed _ | performed _
  | loaded .. => .debug
  | negotiated .. | listening _ | accepted _ | closedConnection _ | started _ | usingScript _
  | scriptCompleted | exiting _ => .info
  | handshakeFailed .. | peerGone _ | failed _ | nobodyCame _ | conversationFailed _
  | runFailed _ => .error

/-- A word of the handshake as it is shown. -/
private def wordText (word : UInt32) : String :=
  "0x" ++ String.join ((Handshake.wordBytes word).map Text.upperHex)

/-- The text of a note. -/
def text : Note → String
  | keptAlive => "C: <NOOP>"
  | readMagic => s!"C: <MAGIC> {Text.hexDump Handshake.magic}"
  | readProposals p => "C: <HANDSHAKE> " ++ " ".intercalate (p.words.map wordText)
  | replied bytes => s!"S: <HANDSHAKE> {Text.hexDump bytes}"
  | negotiated v peer => s!"Negotiated protocol version {v.text} with {peer}"
  | handshakeFailed peer e => s!"Handshake with {peer} failed: {e.message}"
  | heard true m => s!"C: (AUTO) {m.text}"
  | heard false m => s!"C: {m.text}"
  | clientClosed peer => s!"C: <CLOSE> {peer}"
  | performed a => s!"S: {a.text}"
  | peerGone e => s!"S: <GONE> {e.message}"
  | failed failure => failure.message
  | loaded path blocks directives =>
    s!"Loaded script {path} ({blocks} steps, {directives} directives)"
  | listening address => s!"Listening for incoming connections on {address}"
  | nobodyCame timeout =>
    s!"Timed out after waiting {timeout.text} for an incoming connection"
  | accepted peer => s!"Accepted incoming connection from {peer}"
  | closedConnection peer => s!"Closed connection to {peer}"
  | started version => s!"boltstub v{version}"
  | usingScript path => s!"Script: {path}"
  | scriptCompleted => "Script completed"
  | conversationFailed failure => s!"Conversation failed: {failure.message}"
  | runFailed e => e.message
  | exiting code => s!"Exiting with code {code}"

/-- A line of the log. -/
def line (n : Note) : String := s!"{n.level.name} {n.text}"

end Note

/-- What is noted when a conversation is told of a message. -/
def Conversation.noteOf (c : Conversation) (m : Message) : List Note :=
  match c.turn with
  | .hear expected => [.heard (c.script.matchesLine expected m && c.script.isAuto m.name) m]
  | _ => []

end ScriptedBolt
