import ScriptedBolt.Address.Ip
import ScriptedBolt.Proofs.Text.Digits

/-!
# Numbers in addresses

A number is read from the digits at the start of a text, as many as there are. What it is read from
is said once (`readNumber_eq_some_iff`), and the digits that a number is written with are of that
kind.
-/

namespace ScriptedBolt.IpAddress

open Text (IsDigitIn valueIn IsNumeral)

variable {radix : Nat} {c : Char} {text rest ds : List Char}

/-- A digit at the start of a text is taken. -/
theorem digitsIn_cons {d : Nat} (h : Text.hexDigit? c = some d) (hd : d < radix)
    (text : List Char) : digitsIn radix (c :: text) = d :: digitsIn radix text := by
  simp only [digitsIn, h, if_pos hd]

/-- What is no digit is not taken. -/
theorem digitsIn_cons_of_not (h : ¬IsDigitIn radix c) (text : List Char) :
    digitsIn radix (c :: text) = [] := by
  rw [digitsIn]
  split
  · next d hd =>
    rw [if_neg]
    intro hlt
    exact h ⟨d, hlt, hd⟩
  · rfl

/-- Digits are taken up to what follows them. -/
theorem digitsIn_append (h : ∀ c ∈ ds, IsDigitIn radix c) (rest : List Char) :
    digitsIn radix (ds ++ rest) = ds.filterMap Text.hexDigit? ++ digitsIn radix rest := by
  induction ds with
  | nil => rfl
  | cons c ds ih =>
    obtain ⟨⟨d, hlt, hd⟩, hds⟩ := List.forall_mem_cons.mp h
    rw [List.cons_append, digitsIn_cons hd hlt, ih hds, List.filterMap_cons_some hd,
      List.cons_append]

/-- A text starts with the digits that are taken of it. -/
theorem exists_digits (radix : Nat) (text : List Char) :
    ∃ ds rest, text = ds ++ rest ∧ (∀ c ∈ ds, IsDigitIn radix c) ∧ digitsIn radix rest = [] := by
  induction text with
  | nil => exact ⟨[], [], rfl, by simp, rfl⟩
  | cons c text ih =>
    by_cases hc : IsDigitIn radix c
    · obtain ⟨ds, rest, rfl, hds, hrest⟩ := ih
      exact ⟨c :: ds, rest, rfl, List.forall_mem_cons.mpr ⟨hc, hds⟩, hrest⟩
    · exact ⟨[], c :: text, rfl, by simp, digitsIn_cons_of_not hc text⟩

/-- A number is read from a row of digits that is as long as it may be and as it can be, and that
has no zero in front, where that counts. -/
theorem readNumber_eq_some_iff {most : Option Nat} {padded : Bool} {bound n : Nat} :
    readNumber radix most padded bound text = some (n, rest) ↔
      ∃ ds, text = ds ++ rest ∧ ds ≠ [] ∧ (∀ c ∈ ds, IsDigitIn radix c) ∧
        digitsIn radix rest = [] ∧ (∀ m ∈ most, ds.length ≤ m) ∧
        (padded = false → ds.head? = some '0' → ds.length = 1) ∧ valueIn radix ds = n ∧
          n < bound := by
  -- The row is the one that the text starts with: it cannot be shorter or longer.
  obtain ⟨ds, tail, rfl, hds, htail⟩ := exists_digits radix text
  have hdigits := digitsIn_append hds tail
  rw [htail, List.append_nil] at hdigits
  have hlen := Text.length_filterMap_digits hds
  have hunique {ds' : List Char} (heq : ds ++ tail = ds' ++ rest)
      (hds' : ∀ c ∈ ds', IsDigitIn radix c) (hrest : digitsIn radix rest = []) : ds = ds' := by
    have hlen' := Text.length_filterMap_digits hds'
    have hdigits' := digitsIn_append hds' rest
    rw [hrest, List.append_nil, ← heq, hdigits] at hdigits'
    exact (List.append_inj heq (by rw [← hlen, hdigits', hlen'])).1
  rw [readNumber, hdigits, hlen, List.drop_left]
  cases ds with
  | nil =>
    refine iff_of_false (by simp) ?_
    rintro ⟨ds', heq, hne, hds', hrest, -⟩
    exact hne (hunique heq hds' hrest).symm
  | cons d ds =>
    have hempty : (List.filterMap Text.hexDigit? (d :: ds)).isEmpty = false := by
      obtain ⟨e, -, he⟩ := hds d List.mem_cons_self
      rw [List.filterMap_cons_some he]
      rfl
    simp only [hempty, Bool.false_or, Bool.or_eq_true, Option.any_eq_true, decide_eq_true_eq,
      Bool.and_eq_true, Bool.not_eq_true', List.cons_append, List.head?_cons, beq_iff_eq]
    constructor
    · intro h
      split at h
      · cases h
      · next hnot =>
        obtain ⟨rfl, rfl⟩ := Prod.mk.inj (Option.some.inj h)
        simp only [not_or, not_and, not_exists, Nat.not_lt] at hnot
        refine ⟨d :: ds, rfl, List.cons_ne_nil d ds, hds, htail, hnot.1.1, ?_, rfl,
          Nat.lt_of_not_le hnot.2⟩
        intro hpadded hzero
        have hle := hnot.1.2 ⟨hpadded, hzero⟩
        rw [List.length_cons] at hle ⊢
        omega
    · rintro ⟨ds', heq, -, hds', hrest, hmost, hzero, hvalue, hbound⟩
      obtain rfl := hunique heq hds' hrest
      have htail : d :: ds ++ tail = d :: ds ++ rest := heq
      obtain rfl := List.append_cancel_left htail
      rw [if_neg]
      · exact congrArg (fun n ↦ some (n, tail)) hvalue
      · rintro ((⟨m, hm, hlt⟩ | ⟨⟨hpadded, hfirst⟩, hlong⟩) | hle)
        · exact Nat.not_lt_of_le (hmost m hm) hlt
        · rw [hzero hpadded hfirst] at hlong
          exact Nat.lt_irrefl 1 hlong
        · rw [← hvalue] at hbound
          exact Nat.not_lt_of_le hle hbound

/-- A number is read from the digits that it is written with. -/
theorem readNumber_toDigits {most : Option Nat} {padded : Bool} {bound n : Nat}
    (hradix : 1 < radix) (hsixteen : radix ≤ 16) (hbound : n < bound)
    (hmost : ∀ m ∈ most, (Nat.toDigits radix n).length ≤ m) (hrest : digitsIn radix rest = []) :
    readNumber radix most padded bound (Nat.toDigits radix n ++ rest) = some (n, rest) :=
  readNumber_eq_some_iff.mpr ⟨Nat.toDigits radix n, rfl, Nat.toDigits_ne_nil,
    Text.isDigitIn_toDigits hradix hsixteen n, hrest, hmost,
    fun _ h ↦ Text.length_toDigits_of_zero hradix hsixteen h,
    Text.valueIn_toDigits hradix hsixteen n, hbound⟩

/-- A number that may have zeros in front is read from a numeral of it. -/
theorem readNumber_eq_some_iff_isNumeral {bound n : Nat} :
    readNumber 10 none true bound text = some (n, rest) ↔
      ∃ digits, text = digits ++ rest ∧ IsNumeral digits n ∧ digitsIn 10 rest = [] ∧
        n < bound := by
  rw [readNumber_eq_some_iff]
  constructor
  · rintro ⟨ds, rfl, hne, hds, hrest, -, -, hvalue, hbound⟩
    have hdigits : ∀ c ∈ ds, c.isDigit = true := fun c hc ↦ Text.isDigitIn_ten.mp (hds c hc)
    exact ⟨ds, rfl, ⟨hne, hdigits, (Text.valueIn_ten hdigits).symm.trans hvalue⟩, hrest, hbound⟩
  · rintro ⟨ds, rfl, ⟨hne, hdigits, hvalue⟩, hrest, hbound⟩
    exact ⟨ds, rfl, hne, fun c hc ↦ Text.isDigitIn_ten.mpr (hdigits c hc), hrest, nofun, nofun,
      (Text.valueIn_ten hdigits).trans hvalue, hbound⟩

end ScriptedBolt.IpAddress
