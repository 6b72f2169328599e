import ScriptedBolt.Proofs.Address.Number

/-!
# Where address readers stop

A reader of addresses reads on only while what follows can belong to what it reads. A character that
can not, such as the bracket or the percent sign behind an address, stops it (`StopsBefore`): it
makes of the text before that character what it makes of that text alone.
-/

namespace ScriptedBolt.IpAddress

open Text (IsDigitIn)

/-- Whether a reader stops before a character: it reads the same, whether that character and more
follow or not. -/
def StopsBefore {α : Type} (c : Char) (read : Reader α) : Prop :=
  ∀ text more, read (text ++ c :: more) =
    (read text).map fun (a, rest) ↦ (a, rest ++ c :: more)

variable {α β : Type} {c : Char} {radix : Nat}

/-! ### Numbers and separators -/

/-- The digits of a text end before what is no digit. -/
theorem digitsIn_append_cons (hc : ¬IsDigitIn radix c) (text more : List Char) :
    digitsIn radix (text ++ c :: more) = digitsIn radix text := by
  induction text with
  | nil => exact digitsIn_cons_of_not hc more
  | cons d text ih =>
    by_cases hd : IsDigitIn radix d
    · obtain ⟨n, hlt, hn⟩ := hd
      rw [List.cons_append, digitsIn_cons hn hlt, digitsIn_cons hn hlt, ih]
    · rw [List.cons_append, digitsIn_cons_of_not hd, digitsIn_cons_of_not hd]

/-- There are no more digits than there are characters. -/
theorem length_digitsIn_le (radix : Nat) (text : List Char) :
    (digitsIn radix text).length ≤ text.length := by
  obtain ⟨ds, rest, rfl, hds, hrest⟩ := exists_digits radix text
  rw [digitsIn_append hds, hrest, List.append_nil, Text.length_filterMap_digits hds,
    List.length_append]
  exact Nat.le_add_right _ _

/-- A number ends before what is no digit. -/
theorem stopsBefore_readNumber (hc : ¬IsDigitIn radix c) (most : Option Nat) (padded : Bool)
    (bound : Nat) : StopsBefore c (readNumber radix most padded bound) := by
  intro text more
  cases text with
  | nil =>
    rw [List.nil_append, readNumber, readNumber, digitsIn_cons_of_not hc]
    rfl
  | cons d text =>
    have hdigits : digitsIn radix (d :: (text ++ c :: more)) = digitsIn radix (d :: text) :=
      digitsIn_append_cons hc (d :: text) more
    have hfirst : (d :: (text ++ c :: more)).head? = (d :: text).head? := rfl
    have hle := length_digitsIn_le radix (d :: text)
    simp only [readNumber, List.cons_append, hfirst, hdigits]
    split
    · rfl
    · rw [Option.map_some, ← List.cons_append, List.drop_append_of_le_length hle]

/-- Another character stops a separator. -/
theorem stopsBefore_readChar {separator : Char} (h : separator ≠ c) :
    StopsBefore c (readChar separator) := by
  intro text more
  cases text with
  | nil => exact if_neg h
  | cons d text =>
    simp only [readChar, List.cons_append]
    split <;> rfl

/-- Reading nothing stops before any character. -/
theorem stopsBefore_some (a : α) : StopsBefore c fun text ↦ some (a, text) := fun _ _ ↦ rfl

/-- What is read after something else stops where both do. -/
theorem StopsBefore.bind {read : Reader α} {next : α → Reader β} (h : StopsBefore c read)
    (hnext : ∀ a, StopsBefore c (next a)) :
    StopsBefore c fun text ↦ (read text).bind fun (a, rest) ↦ next a rest := by
  intro text more
  dsimp only
  rw [h text more]
  cases read text with
  | none => rfl
  | some p => exact hnext p.1 p.2 more

/-- What is made of something read stops where the reading does. -/
theorem StopsBefore.map {read : Reader α} (h : StopsBefore c read) (f : α → β) :
    StopsBefore c fun text ↦ (read text).map fun (a, rest) ↦ (f a, rest) := by
  intro text more
  dsimp only
  rw [h text more, Option.map_map, Option.map_map]
  rfl

/-- What follows a separator stops where it would without it. -/
theorem StopsBefore.readAfter {read : Reader α} (h : StopsBefore c read) {separator : Char}
    (hne : separator ≠ c) (first : Bool) : StopsBefore c (readAfter first separator read) := by
  cases first with
  | true => exact h
  | false => exact (stopsBefore_readChar hne).bind fun _ ↦ h

/-! ### Addresses -/

/-- An IPv4 address ends before what is neither a decimal digit nor a dot. -/
theorem stopsBefore_readV4 (hc : ¬IsDigitIn 10 c) (hdot : '.' ≠ c) : StopsBefore c readV4 := by
  have hoctet (first : Bool) : StopsBefore c (readOctet first) :=
    ((stopsBefore_readNumber hc _ _ _).readAfter hdot first).map UInt8.ofNat
  exact (hoctet true).bind fun a ↦ (hoctet false).bind fun b ↦ (hoctet false).bind fun c ↦
    (hoctet false).bind fun d ↦ stopsBefore_some #v[a, b, c, d]

/-- Groups end before what is no hexadecimal digit, no dot and no colon. -/
theorem readGroups_append (hc : ¬IsDigitIn 16 c) (hdot : '.' ≠ c) (hcolon : ':' ≠ c)
    (first : Bool) (limit : Nat) (text more : List Char) :
    readGroups first limit (text ++ c :: more) =
      ((readGroups first limit text).1, (readGroups first limit text).2 ++ c :: more) := by
  have hten : ¬IsDigitIn 10 c := fun ⟨d, hlt, hd⟩ ↦ hc ⟨d, by omega, hd⟩
  induction limit generalizing first text with
  | zero => rfl
  | succ limit ih =>
    have hv4 := (stopsBefore_readV4 hten hdot).readAfter hcolon first text more
    have hstops := stopsBefore_readNumber hc (some 4) true 0x10000
    have hnumber := hstops.readAfter hcolon first text more
    have hlast : (if limit = 0 then none else readAfter first ':' readV4 (text ++ c :: more)) =
        (if limit = 0 then none else readAfter first ':' readV4 text).map
          fun p ↦ (p.1, p.2 ++ c :: more) := by
      split
      · rfl
      · exact hv4
    rw [readGroups, readGroups, hlast, hnumber]
    cases if limit = 0 then none else readAfter first ':' readV4 text with
    | some p => rfl
    | none =>
      cases readAfter first ':' (readNumber 16 (some 4) true 0x10000) text with
      | none => rfl
      | some p =>
        dsimp only [Option.map_none, Option.map_some]
        rw [ih]

/-- An IPv6 address ends before what is no hexadecimal digit, no dot and no colon. -/
theorem stopsBefore_readV6 (hc : ¬IsDigitIn 16 c) (hdot : '.' ≠ c) (hcolon : ':' ≠ c) :
    StopsBefore c readV6 := by
  intro text more
  rw [readV6, readV6, readGroups_append hc hdot hcolon]
  rcases readGroups true 8 text with ⟨⟨head, endsInV4⟩, rest⟩
  have htail : StopsBefore c fun text ↦
      let read := readGroups true (7 - head.length) text
      let tail := read.1.1
      some (ofGroups (head ++ List.replicate (8 - head.length - tail.length) 0 ++ tail), read.2) := by
    intro text more
    dsimp only
    rw [readGroups_append hc hdot hcolon]
    rfl
  have hgap := (stopsBefore_readChar hcolon).bind fun _ ↦
    (stopsBefore_readChar hcolon).bind fun _ ↦ htail
  dsimp only
  split
  · rfl
  · split
    · rfl
    · exact hgap rest more

end ScriptedBolt.IpAddress
