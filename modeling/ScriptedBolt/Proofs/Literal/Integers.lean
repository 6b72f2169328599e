import ScriptedBolt.Proofs.Literal.Reading

/-!
# Integers in literals

A literal whose numbers are integers is worth a value of the same shape, in which each of them is
exactly itself (`Literal.Exact`), unless one of them does not fit in 64 bits: then the first such
number is the error (`Literal.misfit?`). So it is for a row of literals (`values_of_fits`,
`values_of_misfit`), where the numbers of each are those that are left of it.
-/

namespace ScriptedBolt

/-- Whether a number lies within 64 bits. -/
def Numeral.Fits (n : Numeral) : Prop :=
  -0x8000000000000000 ≤ n.integer ∧ n.integer < 0x8000000000000000

instance (n : Numeral) : Decidable n.Fits := inferInstanceAs (Decidable (_ ∧ _))

namespace Literal

mutual

/-- The numbers of a literal, in the order of its items and entries. -/
def numerals : Literal → List Numeral
  | number n => [n]
  | list items => numeralsOfItems items
  | object entries => numeralsOfEntries entries
  | _ => []

/-- The numbers of items. -/
def numeralsOfItems : List Literal → List Numeral
  | [] => []
  | item :: items => item.numerals ++ numeralsOfItems items

/-- The numbers in the literals of entries. -/
def numeralsOfEntries : List (String × Literal) → List Numeral
  | [] => []
  | (_, item) :: entries => item.numerals ++ numeralsOfEntries entries

end

mutual

/-- Whether a value is what a literal says: each number is an integer of its own value, and lists
and objects keep their shape. -/
def Exact : Literal → Value → Prop
  | null, .null => True
  | boolean b, .boolean b' => b' = b
  | number n, .integer i => i.toInt = n.integer
  | string text, .string text' => text' = text
  | list items, .list values => ExactItems items values
  | object entries, .map entries' => ExactEntries entries entries'
  | _, _ => False

/-- Whether values are what items say, one by one. -/
def ExactItems : List Literal → List Value → Prop
  | [], [] => True
  | item :: items, v :: values => item.Exact v ∧ ExactItems items values
  | _, _ => False

/-- Whether entries have the keys of others and the values that their literals say, one by one. -/
def ExactEntries : List (String × Literal) → List (String × Value) → Prop
  | [], [] => True
  | (key, item) :: entries, (key', v) :: entries' =>
    key' = key ∧ item.Exact v ∧ ExactEntries entries entries'
  | _, _ => False

end

/-- What a number says is an integer of its own value. -/
theorem exact_number_iff {n : Numeral} {v : Value} :
    (number n).Exact v ↔ ∃ i, v = .integer i ∧ i.toInt = n.integer := by
  cases v with
  | integer i => simp [Exact]
  | _ => simp [Exact]

/-- What one item says is one value. -/
theorem exactItems_singleton_iff {l : Literal} {values : List Value} :
    ExactItems [l] values ↔ ∃ v, values = [v] ∧ l.Exact v := by
  cases values with
  | nil => simp [ExactItems]
  | cons v values => cases values <;> simp [ExactItems]

/-- The first of numbers that does not fit. -/
def misfit? (numbers : List Numeral) : Option Numeral := numbers.find? fun n ↦ !decide n.Fits

/-- All numbers fit if there is no first that does not. -/
theorem misfit?_eq_none_iff {numbers : List Numeral} :
    misfit? numbers = none ↔ ∀ n ∈ numbers, n.Fits := by
  simp only [misfit?, List.find?_eq_none, Bool.not_eq_true', decide_eq_false_iff_not,
    Decidable.not_not]

/-- The first of numbers that does not fit is looked for in the first of them first. -/
theorem misfit?_append (numbers numbers' : List Numeral) :
    misfit? (numbers ++ numbers') = (misfit? numbers).or (misfit? numbers') :=
  List.find?_append

/-! ### The numbers of literals that are read -/

/-- The numbers of entries are those in each of their literals. -/
theorem mem_numeralsOfEntries {n : Numeral} {entries : List (String × Literal)} :
    n ∈ numeralsOfEntries entries ↔ ∃ entry ∈ entries, n ∈ entry.2.numerals := by
  induction entries with
  | nil => simp [numeralsOfEntries]
  | cons entry entries ih => simp [numeralsOfEntries, ih]

mutual

/-- All numbers that are left of a literal with a text are integers. -/
theorem isInteger_of_spells {text : List Char} : (l : Literal) → l.Spells text →
    ∀ n ∈ l.reduced.numerals, n.isInteger = true
  | .null, _ => nofun
  | .boolean _, _ => nofun
  | .number n, h => by
    rintro n' hn
    rw [List.mem_singleton.mp hn]
    exact h.1.isInteger
  | .string _, _ => nofun
  | .list its, ⟨_, hinside, _⟩ => isInteger_of_spellsItems its hinside
  | .object es, ⟨_, hinside, _⟩ => by
    intro n hn
    obtain ⟨entry, hentry, hn⟩ := mem_numeralsOfEntries.mp hn
    exact isInteger_of_spellsEntries es hinside n
      (mem_numeralsOfEntries.mpr ⟨entry, Entries.mem_of_mem_sort hentry, hn⟩)

/-- So are those that are left of items. -/
theorem isInteger_of_spellsItems {text : List Char} {comma : Bool} : (its : List Literal) →
    SpellsItems comma its text → ∀ n ∈ numeralsOfItems (reducedItems its), n.isInteger = true
  | [], _ => nofun
  | first :: its, ⟨_, _, _, _, hspelled, hmore, _⟩ => by
    intro n hn
    rcases List.mem_append.mp hn with hn | hn
    · exact isInteger_of_spells first hspelled n hn
    · exact isInteger_of_spellsItems its hmore n hn

/-- So are those that are left of entries. -/
theorem isInteger_of_spellsEntries {text : List Char} {comma : Bool} :
    (es : List (String × Literal)) → SpellsEntries comma es text →
      ∀ n ∈ numeralsOfEntries (reducedEntries es), n.isInteger = true
  | [], _ => nofun
  | (_, first) :: es, ⟨_, _, _, _, _, _, _, _, hspelled, hmore, _⟩ => by
    intro n hn
    rcases List.mem_append.mp hn with hn | hn
    · exact isInteger_of_spells first hspelled n hn
    · exact isInteger_of_spellsEntries es hmore n hn

end

/-- So are those that are left of a row. -/
theorem isInteger_of_spellsRow {ls : List Literal} {text : List Char} (h : SpellsRow ls text) :
    ∀ n ∈ numeralsOfItems (ls.map reduced), n.isInteger = true := by
  induction ls generalizing text with
  | nil => nofun
  | cons l ls ih =>
    obtain ⟨_, _, _, _, hspelled, _, hmore, _⟩ := h
    intro n hn
    rcases List.mem_append.mp hn with hn | hn
    · exact isInteger_of_spells l hspelled n hn
    · exact ih hmore n hn

/-! ### Objects that are read as numbers -/

/-- A number that is spelled in a string is a number. -/
private theorem exists_number_of_spelledNumber {text after : List Char} {l : Literal}
    (h : Reader.spelledNumber text = .ok (l, after)) : ∃ n, l = .number n := by
  unfold Reader.spelledNumber at h
  split at h
  · cases h
  · split at h
    · cases h
    · obtain ⟨rfl, -⟩ := Prod.mk.inj (Except.ok.inj h)
      exact ⟨_, rfl⟩
    · cases h
    · cases h

/-- An object whose first key is `numeralKey` is never read as an object, but as a number, if at
all. -/
theorem exists_number_of_reserved {entries : List (String × Literal)} {text rest after : List Char}
    (h : (object entries).Spells text) (hkey : entries.head?.map Prod.fst = some numeralKey)
    {levels : Nat} {l : Literal} (hread : Reader.nested levels (text ++ rest) = .ok (l, after)) :
    ∃ n, l = .number n := by
  obtain ⟨inside, hinside, rfl⟩ := h
  cases levels with
  | zero => cases hread
  | succ levels =>
    cases entries with
    | nil => cases hkey
    | cons entry entries =>
      obtain ⟨key, item⟩ := entry
      obtain rfl : key = numeralKey := Option.some.inj hkey
      obtain ⟨gap, quoted, colon, spelled, more, hgap, hquoted, -, -, -, rfl⟩ := hinside
      change Reader.entries (Reader.nested levels) [] _
        (gap ++ (quoted ++ (colon ++ (spelled ++ more))) ++ ['\x7d'] ++ rest) = _ at hread
      simp only [List.append_assoc] at hread
      rw [Reader.entries_of_reserved hgap hquoted] at hread
      exact exists_number_of_spelledNumber hread

/-! ### What they are worth -/

/-- Whether something is read exactly, or else the first of its numbers that does not fit is the
error. -/
def Settled {α : Type} (numbers : List Numeral) (exact : α → Prop) : Except RangeError α → Prop
  | .ok a => misfit? numbers = none ∧ exact a
  | .error e => ∃ n, misfit? numbers = some n ∧ e = .integer n

variable {α β : Type} {numbers numbers' : List Numeral} {exact : α → Prop} {exact' : β → Prop}
  {result : Except RangeError α}

/-- It may be read for something less exact. -/
theorem Settled.imp {less : α → Prop} (h : Settled numbers exact result)
    (himp : ∀ a, exact a → less a) : Settled numbers less result := by
  cases result with
  | ok a => exact ⟨h.1, himp a h.2⟩
  | error e => exact h

/-- What is read exactly may be made into something else. -/
theorem Settled.map (h : Settled numbers exact result) {f : α → β}
    (hf : ∀ a, exact a → exact' (f a)) : Settled numbers exact' (result.map f) := by
  cases result with
  | ok a => exact ⟨h.1, hf a h.2⟩
  | error e => exact h

/-- More may be read behind it. -/
theorem Settled.bind (h : Settled numbers exact result) {f : α → Except RangeError β}
    (hf : ∀ a, exact a → Settled numbers' exact' (f a)) :
    Settled (numbers ++ numbers') exact' (result.bind f) := by
  cases result with
  | error e =>
    obtain ⟨n, hn, rfl⟩ := h
    exact ⟨n, by rw [misfit?_append, hn, Option.some_or], rfl⟩
  | ok a =>
    have happend : misfit? (numbers ++ numbers') = misfit? numbers' := by
      rw [misfit?_append, h.1, Option.none_or]
    have hmore := hf a h.2
    show Settled _ _ (f a)
    cases hresult : f a with
    | error e =>
      rw [hresult] at hmore
      obtain ⟨n, hn, rfl⟩ := hmore
      exact ⟨n, happend.trans hn, rfl⟩
    | ok b =>
      rw [hresult] at hmore
      exact ⟨happend.trans hmore.1, hmore.2⟩

/-- An integer is read exactly if it fits. -/
theorem settled_number {n : Numeral} (h : n.isInteger = true) :
    Settled [n] (number n).Exact n.toValue := by
  by_cases hfits : n.Fits
  · have hnone : misfit? [n] = none :=
      misfit?_eq_none_iff.mpr fun m hm ↦ List.mem_singleton.mp hm ▸ hfits
    have hvalue : n.toValue = .ok (.integer (Int64.ofInt n.integer)) := by
      rw [Numeral.toValue, if_pos h]
      exact if_pos hfits
    rw [hvalue]
    exact ⟨hnone, Int64.toInt_ofInt_of_le hfits.1 hfits.2⟩
  · have hsome : misfit? [n] = some n := List.find?_cons_of_pos (by simp [hfits])
    have hvalue : n.toValue = .error (.integer n) := by
      rw [Numeral.toValue, if_pos h]
      exact if_neg hfits
    rw [hvalue]
    exact ⟨n, hsome, rfl⟩

mutual

/-- A literal of integers is read exactly if they fit. -/
theorem settled_toValue : (l : Literal) → (∀ n ∈ l.numerals, n.isInteger = true) →
    Settled l.numerals l.Exact l.toValue
  | .null, _ => ⟨rfl, trivial⟩
  | .boolean _, _ => ⟨rfl, rfl⟩
  | .number n, h => settled_number (h n List.mem_cons_self)
  | .string _, _ => ⟨rfl, rfl⟩
  | .list its, h =>
    (settled_valuesOfItems its h []).map fun _ ⟨_, hvalues, hmore⟩ ↦ hvalues ▸ hmore
  | .object es, h =>
    (settled_valuesOfEntries es h []).map fun _ ⟨_, hvalues, hmore⟩ ↦ hvalues ▸ hmore

/-- Items of integers are read exactly, behind the values before them. -/
theorem settled_valuesOfItems : (its : List Literal) →
    (∀ n ∈ numeralsOfItems its, n.isInteger = true) → (before : List Value) →
      Settled (numeralsOfItems its)
        (fun values ↦ ∃ more, values = before.reverse ++ more ∧ ExactItems its more)
        (valuesOfItems before its)
  | [], _, _ => ⟨rfl, [], (List.append_nil _).symm, trivial⟩
  | first :: its, h, before => by
    obtain ⟨hfirst, hits⟩ := List.forall_mem_append.mp h
    have hread : valuesOfItems before (first :: its) =
        first.toValue.bind fun v ↦ valuesOfItems (v :: before) its := by
      rw [valuesOfItems]
      cases first.toValue with
      | error e => rfl
      | ok v => rfl
    rw [hread]
    refine (settled_toValue first hfirst).bind fun v hv ↦ ?_
    refine (settled_valuesOfItems its hits (v :: before)).imp ?_
    rintro _ ⟨more, rfl, hexact⟩
    exact ⟨v :: more, by simp, hv, hexact⟩

/-- Entries of integers are read exactly, behind the entries before them. -/
theorem settled_valuesOfEntries : (es : List (String × Literal)) →
    (∀ n ∈ numeralsOfEntries es, n.isInteger = true) → (before : List (String × Value)) →
      Settled (numeralsOfEntries es)
        (fun entries ↦ ∃ more, entries = before.reverse ++ more ∧ ExactEntries es more)
        (valuesOfEntries before es)
  | [], _, _ => ⟨rfl, [], (List.append_nil _).symm, trivial⟩
  | (key, first) :: es, h, before => by
    obtain ⟨hfirst, hes⟩ := List.forall_mem_append.mp h
    have hread : valuesOfEntries before ((key, first) :: es) =
        first.toValue.bind fun v ↦ valuesOfEntries ((key, v) :: before) es := by
      rw [valuesOfEntries]
      cases first.toValue with
      | error e => rfl
      | ok v => rfl
    rw [hread]
    refine (settled_toValue first hfirst).bind fun v hv ↦ ?_
    refine (settled_valuesOfEntries es hes ((key, v) :: before)).imp ?_
    rintro _ ⟨more, rfl, hexact⟩
    exact ⟨(key, v) :: more, by simp, rfl, hv, hexact⟩

end

variable {ls : List Literal} {text : List Char}

/-- A text of a row of literals is read exactly, or the first number in it that does not fit is the
error. -/
theorem values_of_row (h : SpellsRow ls text) (hnesting : ∀ l ∈ ls, l.nesting ≤ maxNesting)
    (hfree : ∀ l ∈ ls, l.Unreserved) :
    let result := valuesOfItems [] (ls.map reduced)
    values text = result.mapError .outOfRange ∧
      Settled (numeralsOfItems (ls.map reduced)) (ExactItems (ls.map reduced)) result := by
  refine ⟨values_of_spellsRow h hnesting hfree, ?_⟩
  apply (settled_valuesOfItems _ (isInteger_of_spellsRow h) []).imp
  rintro _ ⟨more, rfl, hexact⟩
  exact hexact

/-- The values in a text of a row of literals whose numbers fit are what the literals say. -/
theorem values_of_fits (h : SpellsRow ls text) (hnesting : ∀ l ∈ ls, l.nesting ≤ maxNesting)
    (hfree : ∀ l ∈ ls, l.Unreserved) (hfits : misfit? (numeralsOfItems (ls.map reduced)) = none) :
    ∃ fields, values text = .ok fields ∧ ExactItems (ls.map reduced) fields := by
  obtain ⟨hvalues, hsettled⟩ := values_of_row h hnesting hfree
  cases hresult : valuesOfItems [] (ls.map reduced) with
  | ok fields =>
    rw [hresult] at hvalues hsettled
    exact ⟨fields, hvalues, hsettled.2⟩
  | error e =>
    rw [hresult] at hsettled
    obtain ⟨n, hn, -⟩ := hsettled
    cases hfits.symm.trans hn

/-- The error in a text of a row of literals is the first number that does not fit. -/
theorem values_of_misfit (h : SpellsRow ls text) (hnesting : ∀ l ∈ ls, l.nesting ≤ maxNesting)
    (hfree : ∀ l ∈ ls, l.Unreserved) {n : Numeral}
    (hn : misfit? (numeralsOfItems (ls.map reduced)) = some n) :
    values text = .error (.outOfRange (.integer n)) := by
  obtain ⟨hvalues, hsettled⟩ := values_of_row h hnesting hfree
  cases hresult : valuesOfItems [] (ls.map reduced) with
  | ok fields =>
    rw [hresult] at hsettled
    cases hsettled.1.symm.trans hn
  | error e =>
    rw [hresult] at hvalues hsettled
    obtain ⟨n', hn', rfl⟩ := hsettled
    cases hn'.symm.trans hn
    exact hvalues

end Literal

end ScriptedBolt
