import ScriptedBolt.Error

/-!
# Scripts

A script is what one conversation should be: blocks of lines that the client has to send, in
order, and blocks of actions that the server performs, with directives beside them. Each line
keeps its number in the text.
-/

namespace ScriptedBolt

/-- What a directive says about the conversation as a whole. -/
inductive Directive where
  /-- The version to speak. -/
  | version (v : Version)
  /-- A client message that matches by its name alone. -/
  | auto (name : String)
  /-- The bytes that answer the handshake. -/
  | handshake (reply : Bytes)
  deriving DecidableEq, Repr

/-- A message that the client has to send. -/
structure Expect where
  line : Nat
  message : Message

/-- Something that the server does. -/
inductive Action where
  | send (m : Message)
  /-- Ends the conversation. -/
  | exit
  /-- Writes bytes as they are. -/
  | raw (bytes : Bytes)
  | sleep (d : Span)
  /-- Writes a chunk of length zero. -/
  | keepAlive

/-- An action as a script line spells it. -/
def Action.text : Action → String
  | send m => m.text
  | exit => "<EXIT>"
  | raw bytes => s!"<RAW> {Text.hexDump bytes}"
  | sleep d => s!"<SLEEP> {d.toSeconds.plain}"
  | keepAlive => "<NOOP>"

/-- An action of the server. -/
structure Reply where
  line : Nat
  action : Action

/-- Lines of one role that follow each other. -/
inductive Block where
  | client (lines : List Expect)
  | server (lines : List Reply)

namespace Block

/-- The role whose lines these are. -/
def role : Block → Role
  | client _ => .client
  | server _ => .server

/-- The number of lines. -/
def length : Block → Nat
  | client lines => lines.length
  | server lines => lines.length

/-- The number of lines in blocks. -/
def countLines (blocks : List Block) : Nat := blocks.foldr (fun b n ↦ b.length + n) 0

end Block

/-- A script. -/
structure Script where
  blocks : List Block
  directives : List Directive

namespace Script

/-- The version that the script asks for; the last directive counts. -/
def version? (s : Script) : Option Version :=
  s.directives.reverse.findSome? fun
    | .version v => some v
    | _ => none

/-- The bytes that answer the handshake, if the script gives them; the last directive counts. -/
def reply? (s : Script) : Option Bytes :=
  s.directives.reverse.findSome? fun
    | .handshake reply => some reply
    | _ => none

/-- The names of the messages that match by name alone, ascending and each once. -/
def autoNames (s : Script) : List String :=
  let names := s.directives.filterMap fun
    | .auto name => some (name, ())
    | _ => none
  (Entries.sort names).map Prod.fst

/-- Whether a message matches by its name alone. -/
def isAuto (s : Script) (name : String) : Bool :=
  s.directives.any fun
    | .auto other => other == name
    | _ => false

/-- Whether a message is the one expected: it has its name, and its fields unless the name is
enough. -/
def matchesLine (s : Script) (expect : Expect) (m : Message) : Bool :=
  expect.message.name == m.name
    && (s.isAuto m.name || Value.eqvItems expect.message.fields m.fields)

end Script

end ScriptedBolt
