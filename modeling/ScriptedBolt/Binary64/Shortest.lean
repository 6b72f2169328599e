import ScriptedBolt.Binary64

/-!
# Shortest decimal digits

The decimal text of a binary64 number has the fewest digits that read back as the number. The
reals that round to `m * 2 ^ e` form an interval around it, whose ends belong to it exactly if
`m` is even. On each decimal grid, from coarse to fine, the two neighbours of the number are
tried; the first grid with a neighbour inside the interval gives the digits, and the nearer
neighbour wins.
-/

namespace ScriptedBolt.Binary64

/-- Which of two equally near neighbours on a decimal grid is taken. -/
inductive TieRule where
  | toEven
  | up
  deriving DecidableEq, Repr

/-- A positive number and its rounding interval, all as multiples of `1 / scale`. -/
private structure Interval where
  low : Nat
  value : Nat
  high : Nat
  scale : Nat
  closed : Bool

/-- The rounding interval of a finite number that is not zero. Below a power of two the
neighbouring numbers lie half as far apart as above it. -/
private def Interval.of (x : Binary64) : Interval :=
  let (unit, scale) := scaleQuotient 2 1 1 (x.exponent - 2)
  let m := x.significand
  let below := if m = hiddenBit ∧ -1074 < x.exponent then 1 else 2
  ⟨(4 * m - below) * unit, 4 * m * unit, (4 * m + 2) * unit, scale, m % 2 == 0⟩

/-- The neighbour of the number on the grid of multiples of `10 ^ power` that lies in the
interval, as a multiple; the nearer one if both do. -/
private def Interval.onGrid (tie : TieRule) (i : Interval) (power : Int) : Option Nat :=
  let (step, fine) := scaleQuotient 10 i.scale 1 power
  let inside (d : Nat) : Bool :=
    if i.closed then i.low * fine ≤ d * step && d * step ≤ i.high * fine
    else i.low * fine < d * step && d * step < i.high * fine
  let value := i.value * fine
  let d := value / step
  let nearer : Bool :=
    let twice := 2 * (value % step)
    twice < step || (twice == step && tie == .toEven && d % 2 == 0)
  match inside d, inside (d + 1) with
  | true, true => some (if nearer then d else d + 1)
  | true, false => some d
  | false, true => some (d + 1)
  | false, false => none

/-- The first grid with a hit, from `10 ^ power` down over `grids` grids. -/
private def Interval.search (tie : TieRule) (i : Interval) : (grids : Nat) → Int → Nat × Int
  | 0, power => (0, power)
  | grids + 1, power =>
    match i.onGrid tie power with
    | some d => (d, power)
    | none => i.search tie grids (power - 1)

/-- Digits and power of ten of the shortest decimal that reads back as the magnitude of a finite
number: `digits * 10 ^ power`. Zero has the digit 0. -/
def shortest (tie : TieRule) (x : Binary64) : Nat × Int :=
  if x.isZero then (0, 0)
  else
    let i := Interval.of x
    let power := ((i.value.log2 : Int) - i.scale.log2) * 1233 / 4096 + 2
    i.search tie 24 power

end ScriptedBolt.Binary64
