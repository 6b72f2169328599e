import Mathlib.Data.List.Basic
import Mathlib.Data.List.Induction
import ScriptedBolt.Text.Numeral

/-!
# Digits

The digits that a number is written with stand for it, in any radix up to sixteen
(`valueIn_toDigits`), and a row of decimal digits without a zero in front is how its number is
written (`toDigits_valueIn`). A bounded numeral is a row of decimal digits, with a sign or without
(`boundedNumeral?_eq_some_iff`).
-/

namespace ScriptedBolt.Text

/-- Whether a character is a digit in a radix. -/
def IsDigitIn (radix : Nat) (c : Char) : Prop := ∃ d < radix, hexDigit? c = some d

/-- The number that a row of digits stands for in a radix. -/
def valueIn (radix : Nat) (digits : List Char) : Nat :=
  (digits.filterMap hexDigit?).foldl (fun n d ↦ radix * n + d) 0

variable {radix : Nat} {c : Char} {text ds : List Char}

/-! ### Numbers as they are written -/

/-- Each digit has a value. -/
theorem length_filterMap_digits (h : ∀ c ∈ ds, IsDigitIn radix c) :
    (ds.filterMap hexDigit?).length = ds.length := by
  induction ds with
  | nil => rfl
  | cons c ds ih =>
    obtain ⟨⟨d, -, hd⟩, hds⟩ := List.forall_mem_cons.mp h
    rw [List.filterMap_cons_some hd, List.length_cons, ih hds, List.length_cons]

/-- The digit of a number stands for it. -/
theorem hexDigit?_digitChar {d : Nat} (h : d < 16) :
    hexDigit? (Nat.digitChar d) = some d := by
  have hall : ∀ d < 16, hexDigit? (Nat.digitChar d) = some d := by decide
  exact hall d h

/-- One more digit counts one, and those before it a radix times as much. -/
theorem valueIn_append {d : Nat} (h : hexDigit? c = some d) (ds : List Char) :
    valueIn radix (ds ++ [c]) = radix * valueIn radix ds + d := by
  rw [valueIn, List.filterMap_append, List.filterMap_cons_some h, List.foldl_append]
  rfl

/-- A number is written with digits. -/
theorem isDigitIn_toDigits (hradix : 1 < radix) (hmost : radix ≤ 16) (n : Nat) :
    ∀ c ∈ Nat.toDigits radix n, IsDigitIn radix c := by
  induction n using Nat.strongRecOn with
  | ind n ih =>
    have hdigit {d : Nat} (hd : d < radix) : IsDigitIn radix (Nat.digitChar d) :=
      ⟨d, hd, hexDigit?_digitChar (Nat.lt_of_lt_of_le hd hmost)⟩
    intro c hc
    rw [Nat.toDigits_eq_if hradix] at hc
    split at hc
    · next hlt =>
      obtain rfl := List.mem_singleton.mp hc
      exact hdigit hlt
    · next hle =>
      rcases List.mem_append.mp hc with hc | hc
      · exact ih (n / radix) (Nat.div_lt_self (by omega) hradix) c hc
      · obtain rfl := List.mem_singleton.mp hc
        exact hdigit (Nat.mod_lt n (by omega))

/-- The digits that a number is written with stand for it. -/
theorem valueIn_toDigits (hradix : 1 < radix) (hmost : radix ≤ 16) (n : Nat) :
    valueIn radix (Nat.toDigits radix n) = n := by
  induction n using Nat.strongRecOn with
  | ind n ih =>
    rw [Nat.toDigits_eq_if hradix]
    split
    · next hlt =>
      rw [← List.nil_append [_], valueIn_append (hexDigit?_digitChar (by omega))]
      exact Nat.zero_add n
    · next hle =>
      have hmod : n % radix < radix := Nat.mod_lt n (by omega)
      rw [valueIn_append (hexDigit?_digitChar (by omega)),
        ih (n / radix) (Nat.div_lt_self (by omega) hradix)]
      exact Nat.div_add_mod n radix

/-- No number but zero is written with a zero in front. -/
theorem length_toDigits_of_zero (hradix : 1 < radix) (hmost : radix ≤ 16) {n : Nat}
    (h : (Nat.toDigits radix n).head? = some '0') : (Nat.toDigits radix n).length = 1 := by
  induction n using Nat.strongRecOn with
  | ind n ih =>
    rw [Nat.toDigits_eq_if hradix] at h ⊢
    split at h
    · next hlt => rw [if_pos hlt, List.length_singleton]
    · next hle =>
      -- The digits in front of the last one would have the zero in front, and so be a zero alone.
      rw [List.head?_append_of_ne_nil _ Nat.toDigits_ne_nil] at h
      have hone := ih (n / radix) (Nat.div_lt_self (by omega) hradix) h
      obtain ⟨d, hd⟩ := List.length_eq_one_iff.mp hone
      have hzero : valueIn radix (Nat.toDigits radix (n / radix)) = 0 := by
        rw [hd, List.head?_singleton] at h
        rw [hd, Option.some.inj h]
        rfl
      rw [valueIn_toDigits hradix hmost, Nat.div_eq_zero_iff] at hzero
      omega

/-! ### Decimal digits -/

/-- The digits in radix ten are the decimal digits. -/
theorem isDigitIn_ten : IsDigitIn 10 c ↔ c.isDigit = true := by
  unfold IsDigitIn hexDigit?
  constructor
  · rintro ⟨d, hlt, hd⟩
    split at hd
    · assumption
    · -- A letter stands for ten at least.
      split at hd
      · cases hd
        omega
      · split at hd
        · cases hd
          omega
        · cases hd
  · intro h
    refine ⟨c.toNat - '0'.toNat, ?_, if_pos h⟩
    have hnine := (Char.isDigit_iff_toNat.mp h).2
    rw [show '9'.toNat = 57 from rfl] at hnine
    rw [show '0'.toNat = 48 from rfl]
    omega

/-- Decimal digits stand for the number that a numeral of them spells. -/
theorem valueIn_ten (h : ∀ c ∈ ds, c.isDigit = true) : valueIn 10 ds = digitsValue ds := by
  have hfold (n : Nat) : (ds.filterMap hexDigit?).foldl (fun n d ↦ 10 * n + d) n =
      ds.foldl (fun n c ↦ 10 * n + (c.toNat - '0'.toNat)) n := by
    induction ds generalizing n with
    | nil => rfl
    | cons c ds ih =>
      obtain ⟨hc, hds⟩ := List.forall_mem_cons.mp h
      have hvalue : hexDigit? c = some (c.toNat - '0'.toNat) := if_pos hc
      rw [List.filterMap_cons_some hvalue, List.foldl_cons, List.foldl_cons, ih hds]
  exact hfold 0

/-- A row of decimal digits without a zero in front is how its number is written. -/
theorem toDigits_valueIn (h : ∀ c ∈ ds, IsDigitIn 10 c) (hne : ds ≠ [])
    (hzero : ds.head? = some '0' → ds.length = 1) : Nat.toDigits 10 (valueIn 10 ds) = ds := by
  induction ds using List.reverseRecOn with
  | nil => exact absurd rfl hne
  | append_singleton ds c ih =>
    obtain ⟨d, hlt, hd⟩ := h c (by simp)
    have hc : Nat.digitChar d = c := by
      have hdigit : c.isDigit = true := isDigitIn_ten.mp ⟨d, hlt, hd⟩
      have hzero := (Char.isDigit_iff_toNat.mp hdigit).1
      rw [hexDigit?, if_pos hdigit] at hd
      have hvalue : c.toNat - 48 = d := Option.some.inj hd
      rw [show '0'.toNat = 48 from rfl] at hzero
      rw [← Char.toNat_inj, Nat.toNat_digitChar_of_lt_ten hlt]
      omega
    rw [valueIn_append hd]
    by_cases hds : ds = []
    · subst hds
      rw [← hc, show valueIn 10 [] = 0 from rfl, Nat.mul_zero, Nat.zero_add, List.nil_append]
      exact Nat.toDigits_of_lt_base hlt
    · have hfront : ds.head? ≠ some '0' := by
        intro hfirst
        have hone := hzero (by rwa [List.head?_append_of_ne_nil _ hds])
        rw [List.length_append, List.length_singleton] at hone
        exact hds (List.length_eq_zero_iff.mp (by omega))
      have hdigits := ih (fun c hc ↦ h c (List.mem_append_left _ hc)) hds
        (fun hfirst ↦ absurd hfirst hfront)
      have hpos : 0 < valueIn 10 ds := by
        refine Nat.pos_of_ne_zero fun heq ↦ hfront ?_
        rw [← hdigits, heq]
        rfl
      rw [← Nat.toDigits_append_toDigits (by decide) hpos hlt, hdigits,
        Nat.toDigits_of_lt_base hlt, hc]

/-! ### Numerals -/

/-- Whether a row of decimal digits spells a number. -/
structure IsNumeral (digits : List Char) (n : Nat) : Prop where
  ne_nil : digits ≠ []
  isDigit : ∀ c ∈ digits, c.isDigit = true
  value : digitsValue digits = n

/-- What a number is written with is a numeral of it. -/
theorem isNumeral_toDigits (n : Nat) : IsNumeral (Nat.toDigits 10 n) n := by
  have hdigits : ∀ c ∈ Nat.toDigits 10 n, c.isDigit = true :=
    fun _ hc ↦ Nat.isDigit_of_mem_toDigits (by decide) (by decide) hc
  exact ⟨Nat.toDigits_ne_nil, hdigits,
    (valueIn_ten hdigits).symm.trans (valueIn_toDigits (by decide) (by decide) n)⟩

/-- A colon is no digit. -/
theorem IsNumeral.colon_not_mem {digits : List Char} {n : Nat} (h : IsNumeral digits n) :
    ':' ∉ digits := by
  intro hmem
  cases h.isDigit ':' hmem

/-- A numeral ends in a digit. -/
theorem IsNumeral.getLast? {digits : List Char} {n : Nat} (h : IsNumeral digits n) :
    ∃ d, digits.getLast? = some d ∧ d.isDigit = true :=
  ⟨_, List.getLast?_eq_some_getLast h.ne_nil, h.isDigit _ (List.getLast_mem h.ne_nil)⟩

/-- A numeral has no sign. -/
theorem IsNumeral.dropPlus {digits : List Char} {n : Nat} (h : IsNumeral digits n) :
    Text.dropPlus digits = digits := by
  unfold Text.dropPlus
  split
  · cases h.isDigit '+' List.mem_cons_self
  · rfl

/-- What is left of a text without its sign is that text, or stands behind a plus sign. -/
theorem dropPlus_cases (text : List Char) :
    dropPlus text = text ∨ text = '+' :: dropPlus text := by
  unfold dropPlus
  split
  · exact .inr rfl
  · exact .inl rfl

/-- A bounded numeral is a numeral behind at most one plus sign. -/
theorem boundedNumeral?_eq_some_iff {bound n : Nat} :
    boundedNumeral? bound text = some n ↔
      IsNumeral (dropPlus text) n ∧ n < bound := by
  unfold boundedNumeral?
  dsimp only
  split
  · next h =>
    refine iff_of_false nofun ?_
    rintro ⟨⟨hne, hdigits, -⟩, -⟩
    rw [Bool.or_eq_true, List.isEmpty_iff, Bool.not_eq_true'] at h
    rcases h with h | h
    · exact hne h
    · exact Bool.false_ne_true (h.symm.trans (List.all_eq_true.mpr hdigits))
  · next h =>
    rw [Bool.or_eq_true, not_or, List.isEmpty_iff, Bool.not_eq_true', Bool.not_eq_false] at h
    obtain ⟨hne, hdigits⟩ := h
    split
    · next hlt =>
      rw [Option.some.injEq]
      constructor
      · rintro rfl
        exact ⟨⟨hne, List.all_eq_true.mp hdigits, rfl⟩, hlt⟩
      · exact fun h ↦ h.1.value
    · next hnot => exact iff_of_false nofun fun h ↦ hnot (h.1.value.symm ▸ h.2)

end ScriptedBolt.Text
