/-!
# IEEE 754 binary64 numbers

A number is its 64 bits, so that a NaN keeps its payload. Its parts are read off the bits as
natural numbers: the magnitude of a finite number is `significand * 2 ^ exponent`. Rounding
goes from exact quotients of natural numbers to the nearest number, and from a tie to the one
with an even significand.
-/

namespace ScriptedBolt

-- Powers are those of core, whatever else is imported.
attribute [local instance (2000)] instPowNat

/-- The integer nearest to `num / den`; of two, the even one. -/
def roundHalfEven (num den : Nat) : Nat :=
  let floor := num / den
  let twice := 2 * (num % den)
  if twice < den then floor else if den < twice then floor + 1 else floor + floor % 2

/-- A quotient of natural numbers times a power of a base, as a quotient. -/
def scaleQuotient (base num den : Nat) : Int → Nat × Nat
  | .ofNat e => (num * base ^ e, den)
  | .negSucc e => (num, den * base ^ (e + 1))

/-- A binary64 number, given by its bits. -/
structure Binary64 where
  bits : UInt64
  deriving DecidableEq, Repr, Inhabited

namespace Binary64

/-- The weight of the sign bit, `2 ^ 63`. -/
def signBit : Nat := 0x8000000000000000

/-- The weight of the hidden bit of a significand, `2 ^ 52`. The magnitude bits above this weight
are the exponent, with a bias. -/
def hiddenBit : Nat := 0x10000000000000

/-- The bits without the sign, as a number. -/
def magnitudeBits (x : Binary64) : Nat := x.bits.toNat % signBit

/-- Whether the sign bit is set. -/
def isNegative (x : Binary64) : Bool := signBit ≤ x.bits.toNat

/-- The magnitude bits of the infinities. -/
def infinityBits : Nat := 2047 * hiddenBit

/-- Whether the number is a NaN. -/
def isNaN (x : Binary64) : Bool := infinityBits < x.magnitudeBits

/-- Whether the number is an infinity. -/
def isInfinite (x : Binary64) : Bool := x.magnitudeBits == infinityBits

/-- Whether the number is neither a NaN nor an infinity. -/
def isFinite (x : Binary64) : Bool := x.magnitudeBits < infinityBits

/-- Whether the number is a zero of either sign. -/
def isZero (x : Binary64) : Bool := x.magnitudeBits == 0

/-- Equality of numbers: a NaN equals nothing, and the two zeros are equal. -/
def eqv (x y : Binary64) : Bool :=
  !x.isNaN && !y.isNaN && (x.bits == y.bits || (x.isZero && y.isZero))

/-- The significand of a finite number, with its hidden bit. -/
def significand (x : Binary64) : Nat :=
  if x.magnitudeBits / hiddenBit = 0 then x.magnitudeBits
  else x.magnitudeBits % hiddenBit + hiddenBit

/-- The power of two that scales the significand of a finite number. -/
def exponent (x : Binary64) : Int :=
  if x.magnitudeBits / hiddenBit = 0 then -1074 else (x.magnitudeBits / hiddenBit : Nat) - 1075

/-- The magnitude of a finite number as a quotient. -/
def magnitude (x : Binary64) : Nat × Nat := scaleQuotient 2 x.significand 1 x.exponent

/-- The number with the given sign and magnitude bits. -/
def ofMagnitudeBits (negative : Bool) (n : Nat) : Binary64 :=
  ⟨UInt64.ofNat (n + if negative then signBit else 0)⟩

/-- The number with the given sign whose magnitude is nearest to `num / den`; an infinity from
half a step above the greatest finite number on. -/
def ofQuotient (negative : Bool) (num den : Nat) : Binary64 :=
  let low : Int := if num = 0 then -1074 else max ((num.log2 : Int) - den.log2 - 53) (-1074)
  let floorAt (e : Int) : Nat :=
    let (n, d) := scaleQuotient 2 num den (-e)
    n / d
  let e := if floorAt low < 2 * hiddenBit then low else low + 1
  let (n, d) := scaleQuotient 2 num den (-e)
  let bits := (e + 1074).toNat * hiddenBit + roundHalfEven n d
  ofMagnitudeBits negative (min bits infinityBits)

/-- The number nearest to a natural number. -/
def ofNat (n : Nat) : Binary64 := ofQuotient false n 1

/-- The number with the given sign nearest to `digits * 10 ^ power`. Powers whose result is
certainly an infinity or a zero are not computed. -/
def ofDecimal (negative : Bool) (digits : Nat) (power : Int) : Binary64 :=
  if digits = 0 then ofMagnitudeBits negative 0
  else if 400 < power then ofMagnitudeBits negative infinityBits
  else if (digits.log2 : Int) + 3 * power < -1100 then ofMagnitudeBits negative 0
  else
    let (num, den) := scaleQuotient 10 digits 1 power
    ofQuotient negative num den

/-- The sum of two finite numbers that are not negative. -/
def addMagnitudes (x y : Binary64) : Binary64 :=
  let (a, b) := x.magnitude
  let (c, d) := y.magnitude
  ofQuotient false (a * d + c * b) (b * d)

end Binary64

end ScriptedBolt
