/-!
# Numerals

Decimal and hexadecimal numerals in texts. A numeral of a bounded number may start with one
plus sign and may have leading zeros.
-/

namespace ScriptedBolt.Text

/-- The number that a row of decimal digits stands for. -/
def digitsValue (digits : List Char) : Nat :=
  digits.foldl (fun n c ↦ 10 * n + (c.toNat - '0'.toNat)) 0

/-- The text without one plus sign at its start. -/
def dropPlus : List Char → List Char
  | '+' :: text => text
  | text => text

/-- The number below `bound` that a text spells: at most one plus sign, then one or more decimal
digits. -/
def boundedNumeral? (bound : Nat) (text : List Char) : Option Nat :=
  let digits := dropPlus text
  if digits.isEmpty || !digits.all Char.isDigit then none
  else
    let n := digitsValue digits
    if n < bound then some n else none

/-- The value of a hexadecimal digit in either case. -/
def hexDigit? (c : Char) : Option Nat :=
  if c.isDigit then some (c.toNat - '0'.toNat)
  else if 'a' ≤ c ∧ c ≤ 'f' then some (c.toNat - 'a'.toNat + 10)
  else if 'A' ≤ c ∧ c ≤ 'F' then some (c.toNat - 'A'.toNat + 10)
  else none

/-- The byte that two characters spell: two hexadecimal digits, or a plus sign and one. -/
def hexByte? (high low : Char) : Option UInt8 := do
  let l ← hexDigit? low
  let h ← if high = '+' then some 0 else hexDigit? high
  return UInt8.ofNat (16 * h + l)

/-- A hexadecimal digit, upper-case. -/
def upperHexDigit (n : Nat) : Char := (Nat.digitChar n).toUpper

/-- A byte as two hexadecimal digits, upper-case. -/
def upperHex (b : UInt8) : String :=
  String.ofList [upperHexDigit (b.toNat / 16), upperHexDigit (b.toNat % 16)]

/-- Bytes as pairs of upper-case hexadecimal digits with a blank between two pairs. -/
def hexDump (bytes : List UInt8) : String := " ".intercalate (bytes.map upperHex)

end ScriptedBolt.Text
