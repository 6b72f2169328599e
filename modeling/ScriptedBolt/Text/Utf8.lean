import ScriptedBolt.Bytes

/-!
# Reading UTF-8

A byte sequence is the UTF-8 of at most one text. When it is of none, `Utf8.stop` says where
reading stops: the index of the first sequence that is no character, and how many of its bytes
were good enough to be part of one.
-/

namespace ScriptedBolt.Text

namespace Utf8

/-- Where reading UTF-8 stops. -/
structure Stop where
  /-- The number of bytes that hold whole characters. -/
  index : Nat
  /-- The length of the sequence that is no character; none if the bytes end inside one. -/
  bad : Option Nat
  deriving DecidableEq, Repr

/-- What a byte that starts a sequence of several bytes asks for: how many more bytes, and the
range of the first of them. The ranges leave out overlong forms, surrogates and numbers above
U+10FFFF. -/
def lead? (b : UInt8) : Option (Nat × UInt8 × UInt8) :=
  if b < 0xC2 then none
  else if b < 0xE0 then some (1, 0x80, 0xBF)
  else if b == 0xE0 then some (2, 0xA0, 0xBF)
  else if b == 0xED then some (2, 0x80, 0x9F)
  else if b < 0xF0 then some (2, 0x80, 0xBF)
  else if b == 0xF0 then some (3, 0x90, 0xBF)
  else if b < 0xF4 then some (3, 0x80, 0xBF)
  else if b == 0xF4 then some (3, 0x80, 0x8F)
  else none

/-- Where reading stops, inside a sequence that starts at `index`, of which `got` bytes are read
and `more` are to come, the next of them between `low` and `high`; with `more = 0` the next
sequence starts here. -/
def stopFrom (index got more : Nat) (low high : UInt8) : Bytes → Stop
  | [] => ⟨index, none⟩
  | b :: bs =>
    match more with
    | 0 =>
      if b < 0x80 then stopFrom (index + 1) 0 0 low high bs
      else
        match lead? b with
        | none => ⟨index, some 1⟩
        | some (more, low, high) => stopFrom index 1 more low high bs
    | more + 1 =>
      if low ≤ b ∧ b ≤ high then
        if more = 0 then stopFrom (index + got + 1) 0 0 low high bs
        else stopFrom index (got + 1) more 0x80 0xBF bs
      else ⟨index, some got⟩

/-- Where reading the bytes as UTF-8 stops; for the UTF-8 of a text, at its end. -/
def stop (bs : Bytes) : Stop := stopFrom 0 0 0 0 0 bs

/-- The stop in words. -/
def Stop.message (s : Stop) : String :=
  match s.bad with
  | some length => s!"invalid utf-8 sequence of {length} bytes from index {s.index}"
  | none => s!"incomplete utf-8 byte sequence from index {s.index}"

/-- The text whose UTF-8 the bytes are, or where reading them stops. -/
def decode (bs : Bytes) : Except Stop String :=
  match String.fromUTF8? bs.toByteArray with
  | some text => .ok text
  | none => .error (stop bs)

/-- The UTF-8 of a text. -/
def encode (text : String) : Bytes := text.toUTF8.data.toList

end Utf8

end ScriptedBolt.Text
