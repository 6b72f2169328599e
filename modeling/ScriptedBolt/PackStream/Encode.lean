import ScriptedBolt.Text.Utf8
import ScriptedBolt.Value

/-!
# Writing PackStream

Every value starts with a marker byte that carries its type and, for small values, its size:

* `C0` null, `C2` and `C3` false and true, `C1` a float;
* `00` to `7F` and `F0` to `FF` small integers, `C8` to `CB` integers of 1, 2, 4 and 8 bytes;
* `8n`, `9n`, `An`, `Bn` a string, list, map or structure of size `n`; larger sizes follow a
  marker of their own in 1, 2 or 4 bytes (`D0`, `D4`, `D8` and `DC` on; a structure has at most
  2 bytes of size). The tag of a structure follows its size.

All numbers are big-endian, and the smallest form is written.
-/

namespace ScriptedBolt.PackStream

/-- Why a value cannot be written. -/
inductive EncodeError where
  /-- A structure with more fields than two bytes count. -/
  | structureTooLarge (fields : Nat)
  /-- A string, list or map whose size exceeds four bytes. -/
  | tooLarge (kind : String) (size : Nat)
  deriving DecidableEq, Repr

/-- The error in words. -/
def EncodeError.message : EncodeError → String
  | .structureTooLarge fields => s!"Structure too large: {fields} fields"
  | .tooLarge kind size => s!"{kind} too large: {size}"

/-- The bytes of an integer, in the smallest form. -/
def integerBytes (i : Int64) : Bytes :=
  let n := i.toInt
  if -0x10 ≤ n ∧ n < 0x80 then Bytes.ofInt 1 n
  else if -0x80 ≤ n ∧ n < 0x80 then 0xC8 :: Bytes.ofInt 1 n
  else if -0x8000 ≤ n ∧ n < 0x8000 then 0xC9 :: Bytes.ofInt 2 n
  else if -0x80000000 ≤ n ∧ n < 0x80000000 then 0xCA :: Bytes.ofInt 4 n
  else 0xCB :: Bytes.ofInt 8 n

/-- A size in the marker itself if it is below 16, else after the first marker of its width. -/
def sizeBytes (kind : String) (tiny wide : UInt8) (size : Nat) : Except EncodeError Bytes :=
  if size < 0x10 then .ok [tiny + UInt8.ofNat size]
  else if size < 0x100 then .ok (wide :: Bytes.ofNat 1 size)
  else if size < 0x10000 then .ok ((wide + 1) :: Bytes.ofNat 2 size)
  else if size < 0x100000000 then .ok ((wide + 2) :: Bytes.ofNat 4 size)
  else .error (.tooLarge kind size)

/-- The header of a structure: its size, then its tag. -/
def structureHeader (tag : UInt8) (size : Nat) : Except EncodeError Bytes :=
  if size < 0x10 then .ok [0xB0 + UInt8.ofNat size, tag]
  else if size < 0x100 then .ok (0xDC :: Bytes.ofNat 1 size ++ [tag])
  else if size < 0x10000 then .ok (0xDD :: Bytes.ofNat 2 size ++ [tag])
  else .error (.structureTooLarge size)

/-- The bytes of a string. -/
def stringBytes (text : String) : Except EncodeError Bytes := do
  return (← sizeBytes "string" 0x80 0xD0 text.utf8ByteSize) ++ Text.Utf8.encode text

mutual

/-- Writes a value after `out`. -/
def write (out : Array UInt8) : Value → Except EncodeError (Array UInt8)
  | .null => .ok (out.push 0xC0)
  | .boolean b => .ok (out.push (if b then 0xC3 else 0xC2))
  | .integer i => .ok (out ++ integerBytes i)
  | .float x => .ok (out ++ (0xC1 :: Bytes.ofNat 8 x.bits.toNat))
  | .string text => do return out ++ (← stringBytes text)
  | .list items => do
    writeItems (out ++ (← sizeBytes "list" 0x90 0xD4 items.length)) items
  | .map entries => do
    writeEntries (out ++ (← sizeBytes "map" 0xA0 0xD8 entries.length)) entries
  | .struct tag fields => do
    writeItems (out ++ (← structureHeader tag fields.length)) fields

/-- Writes items one after the other after `out`. -/
def writeItems (out : Array UInt8) : List Value → Except EncodeError (Array UInt8)
  | [] => .ok out
  | item :: items =>
    match write out item with
    | .ok out => writeItems out items
    | .error e => .error e

/-- Writes entries, each a key and its value, one after the other after `out`. -/
def writeEntries (out : Array UInt8) :
    List (String × Value) → Except EncodeError (Array UInt8)
  | [] => .ok out
  | (key, value) :: entries =>
    match stringBytes key with
    | .error e => .error e
    | .ok bytes =>
      match write (out ++ bytes) value with
      | .ok out => writeEntries out entries
      | .error e => .error e

end

/-- The bytes of a value. -/
def encode (v : Value) : Except EncodeError Bytes := (write #[] v).map Array.toList

/-- The bytes of a structure with the given tag and fields. -/
def encodeStructure (tag : UInt8) (fields : List Value) : Except EncodeError Bytes :=
  encode (.struct tag fields)

end ScriptedBolt.PackStream
