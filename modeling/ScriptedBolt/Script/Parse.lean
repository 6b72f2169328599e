import ScriptedBolt.Script.Line

/-!
# Reading a script

The lines are read in order, and the first one that is refused is the error. What they
contribute is then put together: lines of one role that only directives, comments or blank lines
stand between form one block. At last the names are looked up, in the catalogue of the version
that the script asks for, wherever in the text it does so, or in those of all versions.
-/

namespace ScriptedBolt.Script

/-- What a script reads as, line by line: each item with the number of its line. -/
abbrev Items := List (Nat × Item)

/-- Reads lines, the first of which has the number `line`, with the role in force before them. -/
def readLines (line : Nat) (current : Option Role) : List (List Char) → Except Error Items
  | [] => .ok []
  | raw :: lines =>
    match readLine current raw with
    | .error cause => .error (.script line cause)
    | .ok (current, item) =>
      match readLines (line + 1) current lines with
      | .error e => .error e
      | .ok items =>
        .ok (match item with
          | some item => (line, item) :: items
          | none => items)

/-- Puts an item before the blocks of the items after it. -/
def addToBlocks (item : Nat × Item) (blocks : List Block) : List Block :=
  match item with
  | (line, .expect m) =>
    match blocks with
    | .client lines :: blocks => .client (⟨line, m⟩ :: lines) :: blocks
    | blocks => .client [⟨line, m⟩] :: blocks
  | (line, .reply a) =>
    match blocks with
    | .server lines :: blocks => .server (⟨line, a⟩ :: lines) :: blocks
    | blocks => .server [⟨line, a⟩] :: blocks
  | (_, .directive _) => blocks

/-- The script of items. -/
def ofItems (items : Items) : Script where
  blocks := items.foldr addToBlocks []
  directives := items.filterMap fun
    | (_, .directive d) => some d
    | _ => none

/-- Whether a role can send a message of this name: in the given version, or without one in some
version that can be spoken. -/
def knows (version : Option Version) (role : Role) (name : String) : Bool :=
  match version with
  | some v => (v.tag? role name).isSome
  | none => role.knows name

/-- The error for the first name that cannot be sent. -/
def unknownName? (version : Option Version) (items : Items) : Option Error :=
  items.findSome? fun (line, item) ↦
    match item.name? with
    | some (role, name) =>
      if knows version role name then none
      else some (.script line (.unknownName role name version))
    | none => none

/-- Reads a script. -/
def parse (text : String) : Except Error Script :=
  match readLines 1 none (Text.lines text.toList) with
  | .error e => .error e
  | .ok items =>
    let script := ofItems items
    match unknownName? script.version? items with
    | some e => .error e
    | none => .ok script

/-- Reads a script from the content of a file, or from what became of opening it. -/
def load (content : Except Fault Bytes) : Except Error Script :=
  match content with
  | .error fault => .error (.io fault)
  | .ok bytes =>
    match Text.Utf8.decode bytes with
    | .ok text => parse text
    | .error _ => .error (.io ⟨.invalidData, "stream did not contain valid UTF-8"⟩)

end ScriptedBolt.Script
