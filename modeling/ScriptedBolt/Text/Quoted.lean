import ScriptedBolt.Text.Visible

/-!
# Quoted text

The form in which messages quote a piece of text: between double quotes, with escapes for the
quote, the backslash, the common control characters, and every character that is not visible.
A single quote is not escaped.
-/

namespace ScriptedBolt.Text

/-- The hexadecimal digits of a number, lower-case, without leading zeros. -/
def hexDigits (n : Nat) : List Char := Nat.toDigits 16 n

/-- A character as it stands between double quotes. -/
def escape (c : Char) : List Char :=
  match c with
  | '\x00' => ['\\', '0']
  | '\t' => ['\\', 't']
  | '\n' => ['\\', 'n']
  | '\r' => ['\\', 'r']
  | '"' => ['\\', '"']
  | '\\' => ['\\', '\\']
  | c => if isVisible c then [c] else ['\\', 'u', '\x7b'] ++ hexDigits c.toNat ++ ['\x7d']

/-- A text between double quotes. -/
def quoted (text : List Char) : String :=
  String.ofList (['"'] ++ text.flatMap escape ++ ['"'])

end ScriptedBolt.Text
