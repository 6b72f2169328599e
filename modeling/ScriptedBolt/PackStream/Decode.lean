import Std.Data.HashSet.Lemmas
import ScriptedBolt.Text.Numeral
import ScriptedBolt.Text.Quoted
import ScriptedBolt.Text.Utf8
import ScriptedBolt.Value

/-!
# Reading PackStream

A reader takes bytes from the front of a sequence and tells what it read, or why it could not,
together with the bytes that it did not take. Sizes need not be in their smallest form. The
items of a container lie one level below it, and no value lies deeper than level 64. A
container is refused at once if fewer bytes are left than its items need at least.
-/

namespace ScriptedBolt.PackStream

/-- The deepest level on which a value is accepted, the outermost being level 0. -/
def maxDepth : Nat := 64

/-- Why bytes are not a value. -/
inductive DecodeError where
  | tooDeep
  | truncated (needed got : Nat)
  | unknownMarker (marker : UInt8)
  | invalidText (stop : Text.Utf8.Stop)
  | keyNotString (key : Value)
  | duplicateKey (key : String)
  | trailing (count : Nat)

/-- The error in words. -/
def DecodeError.message : DecodeError → String
  | .tooDeep => s!"Value nested deeper than {maxDepth} levels"
  | .truncated needed got => s!"Truncated value: needed {needed} more bytes, got {got}"
  | .unknownMarker marker => s!"Unknown marker byte 0x{Text.upperHex marker}"
  | .invalidText stop => s!"Invalid UTF-8 in string: {stop.message}"
  | .keyNotString key => s!"Map key must be a string, got {key.typeName}"
  | .duplicateKey key => s!"Duplicate map key {Text.quoted key.toList}"
  | .trailing count => s!"{count} trailing bytes after value"

/-- What a reader makes of a byte sequence: a result, and the bytes that are left. -/
abbrev Reader (α : Type) := Bytes → Except DecodeError α × Bytes

namespace Reader

/-- Reads nothing. -/
def pure {α : Type} (a : α) : Reader α := fun bs ↦ (.ok a, bs)

/-- Fails without reading. -/
def fail {α : Type} (e : DecodeError) : Reader α := fun bs ↦ (.error e, bs)

/-- Reads, then reads on with what was read. -/
def bind {α β : Type} (read : Reader α) (next : α → Reader β) : Reader β := fun bs ↦
  match read bs with
  | (.ok a, rest) => next a rest
  | (.error e, rest) => (.error e, rest)

/-- Applies a function to what is read. -/
def map {α β : Type} (f : α → β) (read : Reader α) : Reader β := bind read fun a ↦ pure (f a)

/-- Fails unless at least `n` bytes are left; reads nothing. -/
def need (n : Nat) : Reader Unit := fun bs ↦
  if Bytes.holds bs n then (.ok (), bs) else (.error (.truncated n bs.length), bs)

/-- Reads the next `n` bytes. -/
def take (n : Nat) : Reader Bytes := fun bs ↦
  if Bytes.holds bs n then (.ok (bs.take n), bs.drop n)
  else (.error (.truncated n bs.length), bs)

/-- Reads one byte. -/
def byte : Reader UInt8 := fun bs ↦
  match bs with
  | [] => (.error (.truncated 1 0), [])
  | b :: rest => (.ok b, rest)

/-- Reads a size of the given width in bytes. -/
def size (width : Nat) : Reader Nat := map Bytes.toNat (take width)

/-- Reads an integer of the given width in bytes. -/
def integer (width : Nat) : Reader Value :=
  map (fun bs ↦ .integer (Int64.ofInt (Bytes.toInt bs))) (take width)

/-- Reads a float. -/
def float : Reader Value :=
  map (fun bs ↦ .float ⟨UInt64.ofNat (Bytes.toNat bs)⟩) (take 8)

/-- Reads a string of the given number of bytes. -/
def string (size : Nat) : Reader Value := fun bs ↦
  match take size bs with
  | (.error e, rest) => (.error e, rest)
  | (.ok bytes, rest) =>
    match Text.Utf8.decode bytes with
    | .ok text => (.ok (.string text), rest)
    | .error stop => (.error (.invalidText stop), bs)

/-- Reads `count` items, with those read before in `before`, last first. -/
def items (item : Reader Value) (before : List Value) : (count : Nat) → Reader (List Value)
  | 0 => pure before.reverse
  | count + 1 => fun bs ↦
    match item bs with
    | (.ok v, rest) => items item (v :: before) count rest
    | (.error e, rest) => (.error e, rest)

/-- Reads `count` entries, each a key and its value, with those read before in `before`, last
first, and their keys in `seen`. -/
def entries (item : Reader Value) (before : List (String × Value)) (seen : Std.HashSet String) :
    (count : Nat) → Reader (List (String × Value))
  | 0 => pure before.reverse
  | count + 1 => fun bs ↦
    match item bs with
    | (.error e, rest) => (.error e, rest)
    | (.ok (.string key), rest) =>
      match item rest with
      | (.error e, rest) => (.error e, rest)
      | (.ok value, rest) =>
        if seen.contains key then (.error (.duplicateKey key), rest)
        else entries item ((key, value) :: before) (seen.insert key) count rest
    | (.ok key, rest) => (.error (.keyNotString key), rest)

/-- Reads a list of the given size. -/
def list (item : Reader Value) (size : Nat) : Reader Value :=
  bind (need size) fun _ ↦ map .list (items item [] size)

/-- Reads a map of the given size. -/
def mapOf (item : Reader Value) (size : Nat) : Reader Value :=
  bind (need (2 * size)) fun _ ↦ map Value.ofEntries (entries item [] ∅ size)

/-- Reads a structure with the given number of fields. -/
def struct (item : Reader Value) (size : Nat) : Reader Value :=
  bind byte fun tag ↦ bind (need size) fun _ ↦ map (.struct tag) (items item [] size)

/-- Reads what follows a marker, with `item` for the values one level below. -/
def afterMarker (item : Reader Value) (marker : UInt8) : Reader Value :=
  let m := marker.toNat
  if m < 0x80 then pure (.integer (Int64.ofInt m))
  else if 0xF0 ≤ m then pure (.integer (Int64.ofInt (m - 0x100)))
  else if m < 0x90 then string (m % 16)
  else if m < 0xA0 then list item (m % 16)
  else if m < 0xB0 then mapOf item (m % 16)
  else if m < 0xC0 then struct item (m % 16)
  else
    match m with
    | 0xC0 => pure .null
    | 0xC1 => float
    | 0xC2 => pure (.boolean false)
    | 0xC3 => pure (.boolean true)
    | 0xC8 => integer 1
    | 0xC9 => integer 2
    | 0xCA => integer 4
    | 0xCB => integer 8
    | 0xD0 => bind (size 1) string
    | 0xD1 => bind (size 2) string
    | 0xD2 => bind (size 4) string
    | 0xD4 => bind (size 1) (list item)
    | 0xD5 => bind (size 2) (list item)
    | 0xD6 => bind (size 4) (list item)
    | 0xD8 => bind (size 1) (mapOf item)
    | 0xD9 => bind (size 2) (mapOf item)
    | 0xDA => bind (size 4) (mapOf item)
    | 0xDC => bind (size 1) (struct item)
    | 0xDD => bind (size 2) (struct item)
    | _ => fail (.unknownMarker marker)

/-- Reads a value when it and the values below it may take up `levels` levels. -/
def value : (levels : Nat) → Reader Value
  | 0 => fail .tooDeep
  | levels + 1 => bind byte (afterMarker (value levels))

end Reader

/-- Reads the next value, which lies on level `depth`. -/
def decodeNext (depth : Nat) : Reader Value := Reader.value (maxDepth + 1 - depth)

/-- The value that the bytes are; all of them have to belong to it. -/
def decode (bytes : Bytes) : Except DecodeError Value :=
  match decodeNext 0 bytes with
  | (.error e, _) => .error e
  | (.ok v, []) => .ok v
  | (.ok _, rest) => .error (.trailing rest.length)

end ScriptedBolt.PackStream
