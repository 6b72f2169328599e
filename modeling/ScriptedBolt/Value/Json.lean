import ScriptedBolt.Binary64.Notation
import ScriptedBolt.Text.Quoted
import ScriptedBolt.Value

/-!
# The text of a value

A value is shown as compact JSON, without blanks: keys ascend, a structure is an object with
its tag and its fields, and a float that is not finite is null. Strings escape the double
quote, the backslash and the controls up to U+001F, and nothing else.
-/

namespace ScriptedBolt.Value

/-- A character as it stands in a JSON string. -/
def jsonEscape (c : Char) : List Char :=
  match c with
  | '"' => ['\\', '"']
  | '\\' => ['\\', '\\']
  | '\x08' => ['\\', 'b']
  | '\t' => ['\\', 't']
  | '\n' => ['\\', 'n']
  | '\x0c' => ['\\', 'f']
  | '\r' => ['\\', 'r']
  | c =>
    if c.toNat < 0x20 then
      ['\\', 'u', '0', '0', Nat.digitChar (c.toNat / 16), Nat.digitChar (c.toNat % 16)]
    else [c]

/-- Writes a JSON string after `out`. -/
def writeString (out : String) (text : String) : String :=
  (text.foldl (fun out c ↦ (jsonEscape c).foldl String.push out) (out.push '"')).push '"'

mutual

/-- Writes the text of a value after `out`. -/
def write (out : String) : Value → String
  | null => out ++ "null"
  | boolean b => out ++ if b then "true" else "false"
  | integer i => out ++ toString i.toInt
  | float x => out ++ x.literal?.getD "null"
  | string text => writeString out text
  | list items => (writeItems (out.push '[') false items).push ']'
  | map entries => (writeEntries (out.push '\x7b') false entries).push '\x7d'
  | struct tag fields =>
    (writeItems (out ++ "\x7b\"tag\":" ++ toString tag.toNat ++ ",\"fields\":[") false fields)
      ++ "]\x7d"

/-- Writes items after `out`, with a comma before each but the first; `comma` says whether one
stands before the next. -/
def writeItems (out : String) (comma : Bool) : List Value → String
  | [] => out
  | item :: items => writeItems (write (if comma then out.push ',' else out) item) true items

/-- Writes entries after `out`, with commas like `writeItems`. -/
def writeEntries (out : String) (comma : Bool) : List (String × Value) → String
  | [] => out
  | (key, value) :: entries =>
    let out := (writeString (if comma then out.push ',' else out) key).push ':'
    writeEntries (write out value) true entries

end

/-- The text of a value. -/
def text (v : Value) : String := write "" v

end ScriptedBolt.Value
