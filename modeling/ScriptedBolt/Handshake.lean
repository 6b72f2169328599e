import ScriptedBolt.Error
import ScriptedBolt.Wire.Sink
import ScriptedBolt.Wire.Source

/-!
# The handshake

A client opens with four bytes of magic and four words, each a version that it proposes or an
empty slot. The reply is one word. A script may ask for a version, which must then be among
those offered; otherwise the highest supported one is chosen.
-/

namespace ScriptedBolt.Handshake

/-- What a client sends first. -/
def magic : Bytes := [0x60, 0x60, 0xB0, 0x17]

/-- The four words that a client proposes. -/
structure Proposals where
  first : UInt32
  second : UInt32
  third : UInt32
  fourth : UInt32
  deriving DecidableEq, Repr

/-- The words in order. -/
def Proposals.words (p : Proposals) : List UInt32 := [p.first, p.second, p.third, p.fourth]

/-- The versions in the words that are not empty. -/
def Proposals.offered (p : Proposals) : List Version := p.words.filterMap Version.ofWord?

/-- A word in the bytes of the proposals. -/
def wordAt (i : Nat) (bytes : Bytes) : UInt32 :=
  UInt32.ofNat (Bytes.toNat ((bytes.drop (4 * i)).take 4))

/-- The proposals in 16 bytes. -/
def Proposals.ofBytes (bytes : Bytes) : Proposals :=
  ⟨wordAt 0 bytes, wordAt 1 bytes, wordAt 2 bytes, wordAt 3 bytes⟩

/-- The bytes of a word. -/
def wordBytes (word : UInt32) : Bytes := Bytes.ofNat 4 word.toNat

/-- The error for a fault while the handshake is read. -/
def closedBy (f : Fault) : Error :=
  if f.kind = .unexpectedEof then .handshake .closed else .io f

/-- Reads the magic and the proposals. -/
def read (s : Source) : Except Error Proposals × Source :=
  match s.readExact 4 with
  | (.error f, rest) => (.error (closedBy f), rest)
  | (.ok bytes, rest) =>
    if bytes = magic then
      match rest.readExact 16 with
      | (.error f, rest) => (.error (closedBy f), rest)
      | (.ok bytes, rest) => (.ok (.ofBytes bytes), rest)
    else (.error (.handshake (.badMagic bytes)), rest)

/-- Chooses the version to speak. -/
def negotiate (p : Proposals) (fixed : Option Version) : Except Error Version :=
  match fixed with
  | some v =>
    if p.offered.contains v then .ok v else .error (.handshake (.notOffered v p.offered))
  | none =>
    match Version.supported.find? p.offered.contains with
    | some v => .ok v
    | none => .error (.handshake (.noneSupported p.offered))

/-- Writes the bytes of a reply. -/
def sendReply (bytes : Bytes) (sink : Sink) : Except Error Unit × Sink :=
  let (result, sink) := sink.send bytes
  (result.mapError .io, sink)

end ScriptedBolt.Handshake
