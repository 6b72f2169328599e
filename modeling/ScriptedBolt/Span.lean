import ScriptedBolt.Binary64.Notation

/-!
# Spans of time

A span is a number of nanoseconds. Seconds given as a binary64 number are rounded to the
nearest nanosecond, and from a tie to the even one.
-/

namespace ScriptedBolt

/-- A span of time. -/
structure Span where
  nanos : Nat
  deriving DecidableEq, Repr, Inhabited

namespace Span

/-- No time at all. -/
def zero : Span := ⟨0⟩

/-- Nanoseconds in a second. -/
def nanosPerSecond : Nat := 1000000000

/-- The span of a number of seconds, if that is from zero to below 2 ^ 64. -/
def ofSeconds? (x : Binary64) : Option Span :=
  if !x.isFinite || (x.isNegative && !x.isZero) then none
  else
    let (num, den) := x.magnitude
    if 0x10000000000000000 * den ≤ num then none
    else some ⟨roundHalfEven (num * nanosPerSecond) den⟩

/-- The span in seconds: whole seconds and fraction, each rounded, and then their sum. -/
def toSeconds (d : Span) : Binary64 :=
  .addMagnitudes (.ofNat (d.nanos / nanosPerSecond))
    (.ofQuotient false (d.nanos % nanosPerSecond) nanosPerSecond)

/-- A decimal fraction of the given number of places, with its point and without trailing zeros;
nothing if it is zero. -/
private def fraction (places n : Nat) : String :=
  let digits := (toString n).toList
  let padded := List.replicate (places - digits.length) '0' ++ digits
  let kept := (padded.reverse.dropWhile (· == '0')).reverse
  if kept.isEmpty then "" else "." ++ String.ofList kept

/-- The span in its largest unit of which it holds at least one. -/
def text (d : Span) : String :=
  let inUnit (places size : Nat) (unit : String) : String :=
    toString (d.nanos / size) ++ fraction places (d.nanos % size) ++ unit
  if nanosPerSecond ≤ d.nanos then inUnit 9 nanosPerSecond "s"
  else if 1000000 ≤ d.nanos then inUnit 6 1000000 "ms"
  else if 1000 ≤ d.nanos then inUnit 3 1000 "µs"
  else inUnit 0 1 "ns"

end Span

end ScriptedBolt
