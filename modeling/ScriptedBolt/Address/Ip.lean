import ScriptedBolt.Text.Numeral

/-!
# IP addresses as text

An IPv4 address is four decimal octets without leading zeros. An IPv6 address is eight groups of
at most four hexadecimal digits, of which one row of zero groups may be left out and the last
two may be an IPv4 address. Written addresses leave out the first longest row of at least two
zero groups.
-/

namespace ScriptedBolt

/-- An IP address. -/
inductive IpAddress where
  | v4 (octets : Vector UInt8 4)
  | v6 (groups : Vector UInt16 8)
  deriving DecidableEq, Repr

namespace IpAddress

/-- What a reader makes of a text: something read, with the rest of the text. -/
abbrev Reader (α : Type) := List Char → Option (α × List Char)

/-- The digits at the start of a text, as numbers below `radix`. -/
def digitsIn (radix : Nat) : List Char → List Nat
  | [] => []
  | c :: text =>
    match Text.hexDigit? c with
    | some d => if d < radix then d :: digitsIn radix text else []
    | none => []

/-- Reads a number of one or more digits, and at most `most` of them, if that is given. Without
`padded`, a zero may not stand before other digits. -/
def readNumber (radix : Nat) (most : Option Nat) (padded : Bool) (bound : Nat) : Reader Nat :=
  fun text ↦
    let digits := digitsIn radix text
    let n := digits.foldl (fun n d ↦ radix * n + d) 0
    if digits.isEmpty || most.any (· < digits.length)
        || (!padded && text.head? == some '0' && 1 < digits.length) || bound ≤ n then none
    else some (n, text.drop digits.length)

/-- Reads a given character. -/
def readChar (c : Char) : Reader Unit
  | [] => none
  | d :: text => if c = d then some ((), text) else none

/-- Reads a separator, unless nothing stands before it, and what follows it. -/
def readAfter {α : Type} (first : Bool) (separator : Char) (read : Reader α) : Reader α :=
  fun text ↦
    if first then read text
    else (readChar separator text).bind fun ((), text) ↦ read text

/-- Reads an octet of an IPv4 address. -/
def readOctet (first : Bool) : Reader UInt8 := fun text ↦
  (readAfter first '.' (readNumber 10 (some 3) false 256) text).map fun (n, text) ↦
    (UInt8.ofNat n, text)

/-- Reads an IPv4 address. -/
def readV4 : Reader (Vector UInt8 4) := fun text ↦ do
  let (a, text) ← readOctet true text
  let (b, text) ← readOctet false text
  let (c, text) ← readOctet false text
  let (d, text) ← readOctet false text
  return (#v[a, b, c, d], text)

/-- The two groups of an IPv6 address that an IPv4 address stands for. -/
def groupsOf (octets : Vector UInt8 4) : List UInt16 :=
  [UInt16.ofNat (octets[0].toNat * 256 + octets[1].toNat),
    UInt16.ofNat (octets[2].toNat * 256 + octets[3].toNat)]

/-- Reads as many groups as there are, at most `limit`, and tells whether an IPv4 address was
the last of them. -/
def readGroups (first : Bool) : (limit : Nat) → List Char → (List UInt16 × Bool) × List Char
  | 0, text => (([], false), text)
  | limit + 1, text =>
    match (if limit = 0 then none else readAfter first ':' readV4 text) with
    | some (octets, rest) => ((groupsOf octets, true), rest)
    | none =>
      match readAfter first ':' (readNumber 16 (some 4) true 0x10000) text with
      | some (n, rest) =>
        let ((groups, endsInV4), rest) := readGroups false limit rest
        ((UInt16.ofNat n :: groups, endsInV4), rest)
      | none => (([], false), text)

/-- Eight groups, with zero for those that are missing. -/
def ofGroups (groups : List UInt16) : Vector UInt16 8 :=
  Vector.ofFn fun i ↦ groups[i.val]?.getD 0

/-- Reads an IPv6 address. -/
def readV6 : Reader (Vector UInt16 8) := fun text ↦
  let ((head, endsInV4), text) := readGroups true 8 text
  if head.length = 8 then some (ofGroups head, text)
  else if endsInV4 then none
  else do
    let ((), text) ← readChar ':' text
    let ((), text) ← readChar ':' text
    let ((tail, _), text) := readGroups true (7 - head.length) text
    return (ofGroups (head ++ List.replicate (8 - head.length - tail.length) 0 ++ tail), text)

/-- Reads an IP address. -/
def read : Reader IpAddress := fun text ↦
  match readV4 text with
  | some (octets, rest) => some (.v4 octets, rest)
  | none => (readV6 text).map fun (groups, rest) ↦ (.v6 groups, rest)

/-- What a reader makes of a whole text. -/
def whole? {α : Type} (read : Reader α) (text : List Char) : Option α :=
  match read text with
  | some (a, []) => some a
  | _ => none

/-- The IP address that a text spells. -/
def ofText? (text : List Char) : Option IpAddress := whole? read text

/-- An IPv4 address as it is written. -/
def textOfV4 (octets : Vector UInt8 4) : String :=
  ".".intercalate (octets.toList.map fun b ↦ toString b.toNat)

/-- Groups as they are written, with colons between them. -/
def textOfGroups (groups : List UInt16) : String :=
  ":".intercalate (groups.map fun g ↦ String.ofList (Nat.toDigits 16 g.toNat))

/-- The first longest row of zeros in groups, as its start and its length. The row that ends at
`index` is `run` long, and `best` is the longest one before. -/
def longestZeros (index run : Nat) (best : Nat × Nat) : List UInt16 → Nat × Nat
  | [] => best
  | g :: groups =>
    if g = 0 then
      let best := if best.2 < run + 1 then (index - run, run + 1) else best
      longestZeros (index + 1) (run + 1) best groups
    else longestZeros (index + 1) 0 best groups

/-- An IPv6 address as it is written. -/
def textOfV6 (groups : Vector UInt16 8) : String :=
  match groups.toList with
  | [0, 0, 0, 0, 0, 0xFFFF, g, h] =>
    "::ffff:" ++ textOfV4 #v[UInt8.ofNat (g.toNat / 256), UInt8.ofNat g.toNat,
      UInt8.ofNat (h.toNat / 256), UInt8.ofNat h.toNat]
  | groups =>
    let (start, length) := longestZeros 0 0 (0, 0) groups
    if 1 < length then
      textOfGroups (groups.take start) ++ "::" ++ textOfGroups (groups.drop (start + length))
    else textOfGroups groups

end IpAddress

/-- An IP address with a port, and the scope of an IPv6 address, 0 if it has none. -/
structure Endpoint where
  address : IpAddress
  scope : Nat
  port : Nat
  deriving DecidableEq, Repr

namespace Endpoint

open IpAddress (Reader readNumber readChar readV4 readV6 whole? textOfV4 textOfV6)

/-- Reads a colon and a port. -/
def readPort : Reader Nat := fun text ↦ do
  let ((), text) ← readChar ':' text
  readNumber 10 none true 0x10000 text

/-- Reads a percent sign and a scope; without them the scope is 0. -/
def readScope (text : List Char) : Nat × List Char :=
  let scope : Option (Nat × List Char) := do
    let ((), text) ← readChar '%' text
    readNumber 10 none true 0x100000000 text
  scope.getD (0, text)

/-- Reads an IPv4 address and a port. -/
def readWithV4 : Reader Endpoint := fun text ↦ do
  let (octets, text) ← readV4 text
  let (port, text) ← readPort text
  return (⟨.v4 octets, 0, port⟩, text)

/-- Reads an IPv6 address in brackets, with a scope if there is one, and a port. -/
def readWithV6 : Reader Endpoint := fun text ↦ do
  let ((), text) ← readChar '[' text
  let (groups, text) ← readV6 text
  let (scope, text) := readScope text
  let ((), text) ← readChar ']' text
  let (port, text) ← readPort text
  return (⟨.v6 groups, scope, port⟩, text)

/-- Reads an IP address and a port. -/
def read : Reader Endpoint := fun text ↦ readWithV4 text <|> readWithV6 text

/-- The IP address and the port that a text spells. -/
def ofText? (text : List Char) : Option Endpoint := whole? read text

/-- An endpoint as it is written. -/
def text (e : Endpoint) : String :=
  match e.address with
  | .v4 octets => s!"{textOfV4 octets}:{e.port}"
  | .v6 groups =>
    if e.scope = 0 then s!"[{textOfV6 groups}]:{e.port}"
    else s!"[{textOfV6 groups}%{e.scope}]:{e.port}"

end Endpoint

end ScriptedBolt
