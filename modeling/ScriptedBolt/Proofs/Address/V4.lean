import ScriptedBolt.Proofs.Address.Readers

/-!
# Reading IPv4 addresses

An IPv4 address is read from the text that it is written as, and from no other
(`readV4_eq_some_iff`): no octet has a zero in front, and nothing but dots stands between them.
-/

namespace ScriptedBolt.IpAddress

variable {text rest : List Char}

/-! ### Rows with separators -/

/-- A row with separators is its first item, and each other item behind a separator. -/
theorem intercalate_cons (separator : Char) (item : List Char) (items : List (List Char)) :
    [separator].intercalate (item :: items) = item ++ items.flatMap (separator :: ·) := by
  induction items generalizing item with
  | nil => rw [List.intercalate_singleton, List.flatMap_nil, List.append_nil]
  | cons next items ih =>
    rw [List.intercalate_cons_cons, ih, List.flatMap_cons, List.append_assoc]
    rfl

/-- Nothing is read after a separator that does not stand there. -/
theorem readAfter_of_head? {α : Type} {separator : Char} (h : text.head? ≠ some separator)
    (read : Reader α) : readAfter false separator read text = none := by
  rw [readAfter, if_neg Bool.false_ne_true]
  cases text with
  | nil => rfl
  | cons c behind =>
    rw [readChar, if_neg]
    · rfl
    · rintro rfl
      exact h rfl

/-- Without a separator what is read is read at once. -/
theorem readAfter_true {α : Type} (separator : Char) (read : Reader α) (text : List Char) :
    readAfter true separator read text = read text := rfl

/-- What stands behind its separator is read as it would be without it. -/
theorem readAfter_cons {α : Type} (separator : Char) (read : Reader α) (behind : List Char) :
    readAfter false separator read (separator :: behind) = read behind := by
  rw [readAfter, if_neg Bool.false_ne_true, readChar, if_pos rfl]
  rfl

/-- A character is read where it stands. -/
theorem readChar_eq_some_iff {c : Char} {u : Unit} :
    readChar c text = some (u, rest) ↔ text = c :: rest := by
  cases text with
  | nil => exact iff_of_false (by rw [readChar]; exact Option.some_ne_none _ ∘ Eq.symm) (by simp)
  | cons d behind =>
    rw [readChar]
    split
    · next h => simp [h]
    · next h => simp [Ne.symm h]

/-- Something is read after a separator if the separator stands there. -/
theorem readAfter_eq_some_iff {α : Type} {separator : Char} {read : Reader α} {a : α} :
    readAfter false separator read text = some (a, rest) ↔
      ∃ behind, text = separator :: behind ∧ read behind = some (a, rest) := by
  constructor
  · intro h
    by_cases hhead : text.head? = some separator
    · obtain ⟨behind, rfl⟩ := List.head?_eq_some_iff.mp hhead
      exact ⟨behind, rfl, by rwa [readAfter_cons] at h⟩
    · rw [readAfter_of_head? hhead] at h
      cases h
  · rintro ⟨behind, rfl, h⟩
    rwa [readAfter_cons]

/-- A number is read from a digit on only. -/
theorem readNumber_of_digitsIn {radix bound : Nat} {most : Option Nat} {padded : Bool}
    (h : digitsIn radix text = []) : readNumber radix most padded bound text = none := by
  rw [readNumber, h]
  rfl

/-! ### IPv4 -/

/-- An octet is read from the number that it is written as, to the end of its digits. -/
theorem readOctet_eq_some_iff {b : UInt8} : readOctet true text = some (b, rest) ↔
    text = Nat.toDigits 10 b.toNat ++ rest ∧ digitsIn 10 rest = [] := by
  have hb : b.toNat < 256 := b.toNat_lt
  rw [readOctet, Option.map_eq_some_iff]
  constructor
  · rintro ⟨⟨n, rest⟩, h, heq⟩
    obtain ⟨rfl, rfl⟩ := Prod.mk.inj heq
    obtain ⟨ds, rfl, hne, hds, hrest, -, hzero, rfl, hbound⟩ := readNumber_eq_some_iff.mp h
    rw [UInt8.toNat_ofNat_of_lt' hbound, Text.toDigits_valueIn hds hne (hzero rfl)]
    exact ⟨rfl, hrest⟩
  · rintro ⟨rfl, hrest⟩
    refine ⟨(b.toNat, rest), readNumber_toDigits (by decide) (by decide) hb ?_ hrest, ?_⟩
    · rintro m ⟨⟩
      rw [Nat.length_toDigits_le_iff (by decide) (by decide)]
      exact Nat.lt_trans hb (by decide)
    · dsimp only
      rw [UInt8.ofNat_toNat]

/-- Another octet is read from behind a dot. -/
theorem readOctet_false_eq_some_iff {b : UInt8} : readOctet false text = some (b, rest) ↔
    text = '.' :: (Nat.toDigits 10 b.toNat ++ rest) ∧ digitsIn 10 rest = [] := by
  constructor
  · intro h
    obtain ⟨⟨n, rest⟩, hn, heq⟩ := Option.map_eq_some_iff.mp h
    obtain ⟨behind, rfl, hbehind⟩ := readAfter_eq_some_iff.mp hn
    obtain ⟨rfl, hrest⟩ := readOctet_eq_some_iff.mp (Option.map_eq_some_iff.mpr ⟨_, hbehind, heq⟩)
    exact ⟨rfl, hrest⟩
  · rintro ⟨rfl, hrest⟩
    rw [readOctet, readAfter_cons]
    exact readOctet_eq_some_iff.mpr ⟨rfl, hrest⟩

/-- The four octets of an IPv4 address. -/
theorem exists_octets (octets : Vector UInt8 4) : ∃ a b c d, octets = #v[a, b, c, d] := by
  refine ⟨octets[0], octets[1], octets[2], octets[3], Vector.ext fun i hi ↦ ?_⟩
  obtain rfl | rfl | rfl | rfl : i = 0 ∨ i = 1 ∨ i = 2 ∨ i = 3 := by omega
  all_goals rfl

/-- An IPv4 address is written as its octets with dots between them. -/
theorem toList_textOfV4 (a b c d : UInt8) : (textOfV4 #v[a, b, c, d]).toList =
    Nat.toDigits 10 a.toNat ++ '.' :: (Nat.toDigits 10 b.toNat ++ '.' ::
      (Nat.toDigits 10 c.toNat ++ '.' :: Nat.toDigits 10 d.toNat)) := by
  rw [textOfV4, String.toList_intercalate]
  simp

/-- An IPv4 address is read from its text, to the end of the digits, and from no other. -/
theorem readV4_eq_some_iff {octets : Vector UInt8 4} : readV4 text = some (octets, rest) ↔
    text = (textOfV4 octets).toList ++ rest ∧ digitsIn 10 rest = [] := by
  have hdot (behind : List Char) : digitsIn 10 ('.' :: behind) = [] := rfl
  constructor
  · intro h
    obtain ⟨⟨a, text₁⟩, ha, h⟩ := Option.bind_eq_some_iff.mp h
    obtain ⟨⟨b, text₂⟩, hb, h⟩ := Option.bind_eq_some_iff.mp h
    obtain ⟨⟨c, text₃⟩, hc, h⟩ := Option.bind_eq_some_iff.mp h
    obtain ⟨⟨d, text₄⟩, hd, h⟩ := Option.bind_eq_some_iff.mp h
    obtain ⟨rfl, rfl⟩ := Prod.mk.inj (Option.some.inj h)
    obtain ⟨rfl, -⟩ := readOctet_eq_some_iff.mp ha
    obtain ⟨rfl, -⟩ := readOctet_false_eq_some_iff.mp hb
    obtain ⟨rfl, -⟩ := readOctet_false_eq_some_iff.mp hc
    obtain ⟨rfl, hrest⟩ := readOctet_false_eq_some_iff.mp hd
    refine ⟨?_, hrest⟩
    simp only [toList_textOfV4, List.append_assoc, List.cons_append]
  · rintro ⟨rfl, hrest⟩
    obtain ⟨a, b, c, d, rfl⟩ := exists_octets octets
    simp only [toList_textOfV4, List.append_assoc, List.cons_append]
    refine Option.bind_eq_some_iff.mpr ⟨_, readOctet_eq_some_iff.mpr ⟨rfl, hdot _⟩, ?_⟩
    refine Option.bind_eq_some_iff.mpr ⟨_, readOctet_false_eq_some_iff.mpr ⟨rfl, hdot _⟩, ?_⟩
    refine Option.bind_eq_some_iff.mpr ⟨_, readOctet_false_eq_some_iff.mpr ⟨rfl, hdot _⟩, ?_⟩
    exact Option.bind_eq_some_iff.mpr ⟨_, readOctet_false_eq_some_iff.mpr ⟨rfl, hrest⟩, rfl⟩

/-- An IPv4 address is read from a digit on only. -/
theorem readV4_of_digitsIn (h : digitsIn 10 text = []) : readV4 text = none := by
  rw [readV4, readOctet, readAfter, if_pos rfl, readNumber_of_digitsIn h]
  rfl

/-- An IPv4 address has dots. -/
theorem readV4_of_not_mem (h : '.' ∉ text) : readV4 text = none := by
  rw [Option.eq_none_iff_forall_ne_some]
  rintro ⟨octets, rest⟩ hread
  obtain ⟨rfl, -⟩ := readV4_eq_some_iff.mp hread
  obtain ⟨a, b, c, d, rfl⟩ := exists_octets octets
  rw [toList_textOfV4] at h
  simp at h

/-- An IPv4 address has nothing but digits and dots. -/
theorem mem_textOfV4 (octets : Vector UInt8 4) :
    ∀ c ∈ (textOfV4 octets).toList, c.isDigit = true ∨ c = '.' := by
  obtain ⟨a, b, c, d, rfl⟩ := exists_octets octets
  have hdigit {n : Nat} {c : Char} (h : c ∈ Nat.toDigits 10 n) : c.isDigit = true ∨ c = '.' :=
    .inl ((Text.isNumeral_toDigits n).isDigit c h)
  rw [toList_textOfV4]
  simp only [List.mem_append, List.mem_cons]
  rintro c (h | rfl | h | rfl | h | rfl | h)
  · exact hdigit h
  · exact .inr rfl
  · exact hdigit h
  · exact .inr rfl
  · exact hdigit h
  · exact .inr rfl
  · exact hdigit h

/-- An IPv4 address starts with a digit. -/
theorem exists_textOfV4_eq_cons (octets : Vector UInt8 4) :
    ∃ c more, (textOfV4 octets).toList = c :: more ∧ c.isDigit = true := by
  obtain ⟨a, b, c, d, rfl⟩ := exists_octets octets
  obtain ⟨digit, digits, hdigits⟩ :=
    List.exists_cons_of_ne_nil (Nat.toDigits_ne_nil (n := a.toNat) (b := 10))
  rw [toList_textOfV4, hdigits, List.cons_append]
  exact ⟨digit, _, rfl,
    (Text.isNumeral_toDigits a.toNat).isDigit digit (hdigits ▸ List.mem_cons_self)⟩

end ScriptedBolt.IpAddress
