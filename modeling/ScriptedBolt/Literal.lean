import ScriptedBolt.Binary64.Notation
import ScriptedBolt.Value

/-!
# Field literals

What a script line spells between the name of a message and its end: JSON texts, one after the
other. A number keeps its digits, so that an integer is exact or refused. A literal becomes a
value by `Literal.toValue`: a number without fraction and exponent is an integer of 64 bits,
any other number a finite float.
-/

namespace ScriptedBolt

/-- A number as it is spelt. -/
structure Numeral where
  negative : Bool
  whole : List Char
  fraction : Option (List Char)
  /-- Whether the exponent is negative, and its digits. -/
  exponent : Option (Bool × List Char)
  deriving DecidableEq, Repr

/-- The spelling of a number; its exponent has a letter `e` and a sign. -/
def Numeral.text (n : Numeral) : List Char :=
  (if n.negative then ['-'] else []) ++ n.whole
    ++ (match n.fraction with
      | some digits => '.' :: digits
      | none => [])
    ++ (match n.exponent with
      | some (negative, digits) => 'e' :: (if negative then '-' else '+') :: digits
      | none => [])

/-- Whether a number is spelt as an integer. -/
def Numeral.isInteger (n : Numeral) : Bool := n.fraction.isNone && n.exponent.isNone

/-- The number that the digits before the point stand for. -/
def Numeral.integer (n : Numeral) : Int :=
  if n.negative then -(Text.digitsValue n.whole : Int) else Text.digitsValue n.whole

/-- The binary64 number nearest to a number. -/
def Numeral.float (n : Numeral) : Binary64 :=
  let fraction := n.fraction.getD []
  let power : Int :=
    match n.exponent with
    | some (negative, digits) =>
      if negative then -(Text.digitsValue digits : Int) else Text.digitsValue digits
    | none => 0
  .ofDecimal n.negative (Text.digitsValue (n.whole ++ fraction)) (power - fraction.length)

/-- A JSON text, read. The keys of an object ascend strictly. -/
inductive Literal where
  | null
  | boolean (b : Bool)
  | number (n : Numeral)
  | string (text : String)
  | list (items : List Literal)
  | object (entries : List (String × Literal))

/-- Why a number of a literal is no value. -/
inductive RangeError where
  | integer (n : Numeral)
  | float (n : Numeral)
  deriving DecidableEq, Repr

/-- The error in words. -/
def RangeError.message : RangeError → String
  | .integer n => s!"integer literal out of range: {String.ofList n.text}"
  | .float n => s!"float literal out of range: {String.ofList n.text}"

/-- The value of a number. -/
def Numeral.toValue (n : Numeral) : Except RangeError Value :=
  if n.isInteger then
    let i := n.integer
    if -0x8000000000000000 ≤ i ∧ i < 0x8000000000000000 then .ok (.integer (Int64.ofInt i))
    else .error (.integer n)
  else if n.float.isFinite then .ok (.float n.float)
  else .error (.float n)

namespace Literal

mutual

/-- The value of a literal. The first number out of range, in the order of the items and of the
ascending keys, is an error. -/
def toValue : Literal → Except RangeError Value
  | null => .ok .null
  | boolean b => .ok (.boolean b)
  | number n => n.toValue
  | string text => .ok (.string text)
  | list items => (valuesOfItems [] items).map .list
  | object entries => (valuesOfEntries [] entries).map .map

/-- The values of items after those of the items `before` them, which are given last first. -/
def valuesOfItems (before : List Value) : List Literal → Except RangeError (List Value)
  | [] => .ok before.reverse
  | item :: items =>
    match item.toValue with
    | .ok v => valuesOfItems (v :: before) items
    | .error e => .error e

/-- The entries with the values of their literals after the entries `before` them, which are
given last first. -/
def valuesOfEntries (before : List (String × Value)) :
    List (String × Literal) → Except RangeError (List (String × Value))
  | [] => .ok before.reverse
  | (key, item) :: entries =>
    match item.toValue with
    | .ok v => valuesOfEntries ((key, v) :: before) entries
    | .error e => .error e

end

end Literal

end ScriptedBolt
