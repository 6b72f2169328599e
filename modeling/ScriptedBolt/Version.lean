import ScriptedBolt.Text.Blank
import ScriptedBolt.Text.Numeral
import ScriptedBolt.Text.Quoted

/-!
# Protocol versions

A version has a major and a minor number and is ordered by the two. In the handshake it is a
word of 32 bits, `00 00 minor major`; reading a word looks at its two low bytes only, and the
word zero is an empty slot.
-/

namespace ScriptedBolt

/-- A version of the protocol. -/
structure Version where
  major : UInt8
  minor : UInt8
  deriving DecidableEq, Repr, Inhabited

namespace Version

/-- Whether a version comes before another. -/
def before (a b : Version) : Bool :=
  a.major < b.major || (a.major == b.major && a.minor < b.minor)

/-- The versions that can be spoken, highest first. -/
def supported : List Version := [⟨4, 1⟩, ⟨4, 0⟩, ⟨3, 0⟩, ⟨2, 0⟩, ⟨1, 0⟩]

/-- Whether a version can be spoken. -/
def isSupported (v : Version) : Bool := supported.contains v

/-- The word of a version in the handshake. -/
def toWord (v : Version) : UInt32 := UInt32.ofNat (v.minor.toNat * 256 + v.major.toNat)

/-- The version in a word of the handshake. -/
def ofWord? (word : UInt32) : Option Version :=
  if word = 0 then none
  else some ⟨UInt8.ofNat word.toNat, UInt8.ofNat (word.toNat / 256)⟩

/-- A version as it is shown. -/
def text (v : Version) : String := s!"{v.major.toNat}.{v.minor.toNat}"

/-- The version that a text spells: a major number, and a minor number after a point, which is 0
if there is none. Blanks may surround both. -/
def ofText? (text : List Char) : Option Version := do
  let major := text.takeWhile (· != '.')
  let minor :=
    match text.dropWhile (· != '.') with
    | _ :: minor => minor
    | [] => ['0']
  let major ← Text.boundedNumeral? 256 (Text.trim major)
  let minor ← Text.boundedNumeral? 256 (Text.trim minor)
  return ⟨UInt8.ofNat major, UInt8.ofNat minor⟩

/-- What is said about a text that spells no version. -/
def invalidText (text : List Char) : String := s!"invalid protocol version {Text.quoted text}"

/-- The word of a version as a number. -/
theorem toNat_toWord (v : Version) : v.toWord.toNat = v.minor.toNat * 256 + v.major.toNat := by
  have hmajor := v.major.toNat_lt
  have hminor := v.minor.toNat_lt
  rw [toWord, UInt32.toNat_ofNat']
  omega

/-- A word that is not an empty slot is read as the version whose word has the same low bytes. -/
theorem ofWord?_eq_some_iff {v : Version} {word : UInt32} :
    ofWord? word = some v ↔ word ≠ 0 ∧ word.toNat % 0x10000 = v.toWord.toNat := by
  have hmajor := v.major.toNat_lt
  have hminor := v.minor.toNat_lt
  rw [toNat_toWord, ofWord?]
  by_cases hzero : word = 0
  · simp [hzero]
  · rw [if_neg hzero, Option.some.injEq, and_iff_right hzero]
    constructor
    · rintro rfl
      simp only [UInt8.toNat_ofNat']
      omega
    · intro h
      obtain ⟨major, minor⟩ := v
      rw [mk.injEq, ← UInt8.toNat_inj, ← UInt8.toNat_inj, UInt8.toNat_ofNat', UInt8.toNat_ofNat']
      dsimp only at h hmajor hminor
      omega

/-- The word of a version other than 0.0 stands for it. -/
theorem ofWord?_toWord (v : Version) (h : v ≠ ⟨0, 0⟩) : ofWord? v.toWord = some v := by
  have hword := toNat_toWord v
  have hmajor := v.major.toNat_lt
  have hminor := v.minor.toNat_lt
  apply ofWord?_eq_some_iff.mpr
  refine ⟨?_, by omega⟩
  intro hzero
  apply h
  rw [hzero, UInt32.toNat_zero] at hword
  obtain ⟨major, minor⟩ := v
  dsimp only at hword
  rw [mk.injEq, ← UInt8.toNat_inj, ← UInt8.toNat_inj, UInt8.toNat_zero]
  omega

end Version

end ScriptedBolt
