import ScriptedBolt.Script

/-!
# Script lines

A line is read by itself; of what stands before it only the role in force matters, which an
indented line without a mark continues:

* blank lines and lines that start with `#` or `//` mean nothing;
* `!:` starts a directive, after which no role is in force;
* `C:` and `S:` put a role in force, and what follows, if anything, is a line of that role.
-/

namespace ScriptedBolt.Script

/-- What a line contributes to a script. -/
inductive Item where
  | directive (d : Directive)
  | expect (m : Message)
  | reply (a : Action)

/-- The name that an item has to find in a catalogue, and the role to send it. -/
def Item.name? : Item → Option (Role × String)
  | .directive (.auto name) => some (.client, name)
  | .expect m => some (.client, m.name)
  | .reply (.send m) => some (.server, m.name)
  | _ => none

/-- The bytes that an even number of characters spells in pairs. -/
def hexPairs : List Char → Except ScriptCause Bytes
  | high :: low :: rest =>
    match Text.hexByte? high low with
    | none => .error (.invalidHex [high, low])
    | some b => (hexPairs rest).map (b :: ·)
  | _ => .ok []

/-- The bytes that a text spells, wherever blanks stand in it. -/
def readHex (text : List Char) : Except ScriptCause Bytes :=
  let digits := text.filter (!Text.isBlank ·)
  if digits.isEmpty || digits.length % 2 == 1 then .error (.oddHex text) else hexPairs digits

/-- The span that a text spells in seconds. -/
def readSleep (text : List Char) : Except ScriptCause Span :=
  match (Binary64.ofText? (Text.trim text)).bind Span.ofSeconds? with
  | some d => .ok d
  | none => .error (.invalidSleep text)

/-- Reads a directive. -/
def readDirective (body : List Char) : Except ScriptCause Directive :=
  let (keyword, rest) := Text.splitWord body
  if keyword = "AUTO".toList then
    let name := (Text.splitWord rest).1
    if name.isEmpty then .error .autoWithoutName else .ok (.auto (String.ofList name))
  else if keyword = "BOLT".toList then
    match Version.ofText? rest with
    | none => .error (.invalidVersion rest)
    | some v => if v.isSupported then .ok (.version v) else .error (.unsupportedVersion v)
  else if keyword = "HANDSHAKE".toList then (readHex rest).map .handshake
  else if keyword.isEmpty then .error .emptyDirective
  else .error (.unknownDirective keyword)

/-- Whether a character can stand in the name of a message. -/
def isNameChar (c : Char) : Bool := c.isUpper || c == '_'

/-- Reads a message with the given name and the literals of its fields. -/
def readMessage (name rest : List Char) : Except ScriptCause Message :=
  if !name.all isNameChar then .error (.invalidName name)
  else
    match Literal.values rest with
    | .ok fields => .ok ⟨String.ofList name, fields⟩
    | .error e => .error (.literal e)

/-- Whether a word is a bracketed command. -/
def isCommand (word : List Char) : Bool := word.head? == some '<'

/-- Reads a line of the client. -/
def readClient (body : List Char) : Except ScriptCause Message :=
  let (name, rest) := Text.splitWord body
  if isCommand name then .error (.serverOnly name) else readMessage name rest

/-- Reads a line of the server. -/
def readServer (body : List Char) : Except ScriptCause Action :=
  let (name, rest) := Text.splitWord body
  if name = "<EXIT>".toList then .ok .exit
  else if name = "<NOOP>".toList then .ok .keepAlive
  else if name = "<RAW>".toList then (readHex rest).map .raw
  else if name = "<SLEEP>".toList then (readSleep rest).map .sleep
  else if isCommand name then .error (.unknownCommand name)
  else (readMessage name rest).map .send

/-- Reads what a role does in a line; an empty body only puts the role in force. -/
def readBody (role : Role) (body : List Char) : Except ScriptCause (Option Role × Option Item) :=
  if body.isEmpty then .ok (some role, none)
  else
    match role with
    | .client => (readClient body).map fun m ↦ (some role, some (.expect m))
    | .server => (readServer body).map fun a ↦ (some role, some (.reply a))

/-- Reads a line, given the role in force before it. Gives the role in force after it, and what
the line contributes. -/
def readLine (current : Option Role) (raw : List Char) :
    Except ScriptCause (Option Role × Option Item) :=
  let line := Text.trim raw
  match line with
  | [] | '#' :: _ | '/' :: '/' :: _ => .ok (current, none)
  | '!' :: ':' :: rest =>
    (readDirective (Text.trim rest)).map fun d ↦ (none, some (.directive d))
  | 'C' :: ':' :: rest => readBody .client (Text.trim rest)
  | 'S' :: ':' :: rest => readBody .server (Text.trim rest)
  | line =>
    if raw.head?.any Text.isBlank then
      match current with
      | some role => readBody role line
      | none => .error .outsideBlock
    else .error (.unknownLine line)

end ScriptedBolt.Script
