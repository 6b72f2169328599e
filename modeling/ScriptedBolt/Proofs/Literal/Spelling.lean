import ScriptedBolt.Literal.Reader
import ScriptedBolt.Proofs.Text.Digits
import ScriptedBolt.Proofs.Value.Spelling

/-!
# Spelled literals

The spelling of a value is a literal again, and the value of that literal is the value that was
spelled (`Literal.toValue_literal`). This holds of the values that are legible: there is no literal
for a structure, a float is not spelled by digits alone, and an object whose first key is
`numeralKey` is taken for a number. Their spellings show at both ends, and whatever stands in their
strings there is no control character in them.
-/

namespace ScriptedBolt

namespace Value

mutual

/-- Whether a value is read back from its spelling: it holds no floats and no structures, and its
maps are kept in order and are not taken for numbers. -/
def Legible : Value → Prop
  | float _ => False
  | list items => LegibleItems items
  | map entries => (entries.map Prod.fst).Pairwise (· < ·) ∧
      (entries.head?.map Prod.fst ≠ some Literal.numeralKey) ∧ LegibleEntries entries
  | struct _ _ => False
  | _ => True

/-- Whether all items are read back. -/
def LegibleItems : List Value → Prop
  | [] => True
  | item :: items => item.Legible ∧ LegibleItems items

/-- Whether the values of all entries are read back. -/
def LegibleEntries : List (String × Value) → Prop
  | [] => True
  | (_, value) :: entries => value.Legible ∧ LegibleEntries entries

end

mutual

/-- How many lists and maps lie inside of each other, the outermost included. -/
def nesting : Value → Nat
  | list items => nestingOfItems items + 1
  | map entries => nestingOfEntries entries + 1
  | struct _ fields => nestingOfItems fields + 1
  | _ => 0

/-- The most of them in an item. -/
def nestingOfItems : List Value → Nat
  | [] => 0
  | item :: items => max item.nesting (nestingOfItems items)

/-- The most of them in the value of an entry. -/
def nestingOfEntries : List (String × Value) → Nat
  | [] => 0
  | (_, value) :: entries => max value.nesting (nestingOfEntries entries)

end

/-- The number that the spelling of an integer is read as. -/
def numeralOf (i : Int) : Numeral := ⟨decide (i < 0), Nat.toDigits 10 i.natAbs, none, none⟩

mutual

/-- The literal that the spelling of a legible value is read as. -/
def literal : Value → Literal
  | boolean b => .boolean b
  | integer i => .number (numeralOf i.toInt)
  | string text => .string text
  | list items => .list (literalsOfItems items)
  | map entries => .object (literalsOfEntries entries)
  | _ => .null

/-- The literals of items. -/
def literalsOfItems : List Value → List Literal
  | [] => []
  | item :: items => item.literal :: literalsOfItems items

/-- The literals of entries, with their keys. -/
def literalsOfEntries : List (String × Value) → List (String × Literal)
  | [] => []
  | (key, value) :: entries => (key, value.literal) :: literalsOfEntries entries

end

/-- Items are read back if each of them is. -/
theorem legibleItems_of_forall {items : List Value} (h : ∀ item ∈ items, item.Legible) :
    LegibleItems items := by
  induction items with
  | nil => trivial
  | cons item items ih =>
    obtain ⟨hitem, hitems⟩ := List.forall_mem_cons.mp h
    exact ⟨hitem, ih hitems⟩

/-- Each item has its literal. -/
theorem literalsOfItems_eq_map (items : List Value) :
    literalsOfItems items = items.map literal := by
  induction items with
  | nil => rfl
  | cons item items ih => exact congrArg (item.literal :: ·) ih

/-- Entries keep their keys. -/
theorem keys_literalsOfEntries (entries : List (String × Value)) :
    (literalsOfEntries entries).map Prod.fst = entries.map Prod.fst := by
  induction entries with
  | nil => rfl
  | cons entry entries ih => exact congrArg (entry.1 :: ·) ih

/-! ### The characters of spellings -/

/-- A number has a first digit. -/
theorem exists_toDigits_eq_cons (n : Nat) :
    ∃ d ds, Nat.toDigits 10 n = d :: ds ∧ d.isDigit = true := by
  obtain ⟨d, ds, hds⟩ := List.exists_cons_of_ne_nil (Nat.toDigits_ne_nil (n := n) (b := 10))
  have hd : d ∈ Nat.toDigits 10 n := hds ▸ List.mem_cons_self
  exact ⟨d, ds, hds, Nat.isDigit_of_mem_toDigits (by decide) (by decide) hd⟩

/-- The spelling of an integer ends in a digit, and starts with a digit or a sign. -/
private theorem ends_spellInteger (i : Int) :
    (∃ c more, spellInteger i = c :: more ∧ Text.isGraphic c = true ∧ c ≠ ']') ∧
      ∃ more c, spellInteger i = more ++ [c] ∧ Text.isGraphic c = true := by
  constructor
  · rw [spellInteger]
    split
    · exact ⟨'-', _, rfl, rfl, by decide⟩
    · obtain ⟨d, ds, hds, hd⟩ := exists_toDigits_eq_cons i.natAbs
      refine ⟨d, ds, hds, Text.isGraphic_of_isDigit hd, ?_⟩
      rintro rfl
      exact absurd hd (by decide)
  · have hne := Nat.toDigits_ne_nil (n := i.natAbs) (b := 10)
    refine ⟨(if i < 0 then ['-'] else []) ++ (Nat.toDigits 10 i.natAbs).dropLast,
      (Nat.toDigits 10 i.natAbs).getLast hne, ?_, ?_⟩
    · rw [spellInteger, List.append_assoc, List.dropLast_concat_getLast hne]
    · apply Text.isGraphic_of_isDigit
      exact Nat.isDigit_of_mem_toDigits (by decide) (by decide) (List.getLast_mem hne)

/-- The spelling of a value starts with a character that shows, and not with the end of a list. -/
theorem exists_spelling_eq_cons {v : Value} (h : v.Legible) :
    ∃ c more, v.spelling = c :: more ∧ Text.isGraphic c = true ∧ c ≠ ']' := by
  cases v with
  | null => exact ⟨'n', _, rfl, rfl, by decide⟩
  | boolean b =>
    cases b with
    | true => exact ⟨'t', _, rfl, rfl, by decide⟩
    | false => exact ⟨'f', _, rfl, rfl, by decide⟩
  | integer i => exact (ends_spellInteger i.toInt).1
  | float x => exact h.elim
  | string text => exact ⟨'"', _, rfl, rfl, by decide⟩
  | list items => exact ⟨'[', _, rfl, rfl, by decide⟩
  | map entries => exact ⟨'\x7b', _, rfl, rfl, by decide⟩
  | struct tag fields => exact h.elim

/-- The spelling of a value ends in a character that shows. -/
theorem exists_spelling_eq_append {v : Value} (h : v.Legible) :
    ∃ more c, v.spelling = more ++ [c] ∧ Text.isGraphic c = true := by
  cases v with
  | null => exact ⟨['n', 'u', 'l'], 'l', rfl, rfl⟩
  | boolean b =>
    cases b with
    | true => exact ⟨['t', 'r', 'u'], 'e', rfl, rfl⟩
    | false => exact ⟨['f', 'a', 'l', 's'], 'e', rfl, rfl⟩
  | integer i => exact (ends_spellInteger i.toInt).2
  | float x => exact h.elim
  | string text => exact ⟨'"' :: text.toList.flatMap jsonEscape, '"', rfl, rfl⟩
  | list items => exact ⟨'[' :: spellingOfItems false items, ']', rfl, rfl⟩
  | map entries => exact ⟨'\x7b' :: spellingOfEntries false entries, '\x7d', rfl, rfl⟩
  | struct tag fields => exact h.elim

/-- There is no control character among characters that show. -/
private theorem le_of_mem_graphic (word : List Char) (h : word.all Text.isGraphic = true)
    {d : Char} (hd : d ∈ word) : 0x20 ≤ d.toNat := by
  have hgraphic := List.all_eq_true.mp h d hd
  simp only [Text.isGraphic, Bool.and_eq_true, decide_eq_true_eq] at hgraphic
  omega

/-- No control character is left where a character is escaped. -/
private theorem le_of_mem_jsonEscape {c d : Char} (h : d ∈ jsonEscape c) : 0x20 ≤ d.toNat := by
  have hdigit : ∀ n < 16, 0x20 ≤ (Nat.digitChar n).toNat := by decide
  unfold jsonEscape at h
  split at h
  case h_8 =>
    split at h
    · next hc =>
      simp only [List.mem_cons, List.not_mem_nil, or_false] at h
      rcases h with rfl | rfl | rfl | rfl | rfl | rfl
      · decide
      · decide
      · decide
      · decide
      · exact hdigit _ (by omega)
      · exact hdigit _ (by omega)
    · next hc =>
      rw [List.mem_singleton.mp h]
      omega
  all_goals
    simp only [List.mem_cons, List.not_mem_nil, or_false] at h
    rcases h with rfl | rfl
    all_goals decide

/-- Nor in the spelling of a string. -/
private theorem le_of_mem_spellString {text : String} {d : Char} (h : d ∈ spellString text) :
    0x20 ≤ d.toNat := by
  rw [spellString, List.mem_cons, List.mem_append, List.mem_singleton] at h
  rcases h with rfl | h | rfl
  · decide
  · obtain ⟨c, -, hd⟩ := List.mem_flatMap.mp h
    exact le_of_mem_jsonEscape hd
  · decide

/-- Nor in a comma. -/
private theorem le_of_mem_separator {comma : Bool} {d : Char} (h : d ∈ separator comma) :
    0x20 ≤ d.toNat := by
  cases comma with
  | true =>
    rw [List.mem_singleton.mp h]
    decide
  | false => exact absurd h List.not_mem_nil

/-- Nor in the spelling of an integer. -/
private theorem le_of_mem_spellInteger {i : Int} {d : Char} (h : d ∈ spellInteger i) :
    0x20 ≤ d.toNat := by
  apply le_of_mem_graphic (spellInteger i) _ h
  rw [List.all_eq_true, spellInteger]
  intro c hc
  rcases List.mem_append.mp hc with hc | hc
  · split at hc
    · rw [List.mem_singleton.mp hc]
      rfl
    · exact absurd hc List.not_mem_nil
  · exact Text.isGraphic_of_isDigit (Nat.isDigit_of_mem_toDigits (by decide) (by decide) hc)

mutual

/-- There is no control character in the spelling of a value. -/
theorem le_of_mem_spelling {d : Char} :
    (v : Value) → v.Legible → d ∈ v.spelling → 0x20 ≤ d.toNat
  | null, _, h => le_of_mem_graphic ['n', 'u', 'l', 'l'] rfl h
  | boolean true, _, h => le_of_mem_graphic ['t', 'r', 'u', 'e'] rfl h
  | boolean false, _, h => le_of_mem_graphic ['f', 'a', 'l', 's', 'e'] rfl h
  | integer _, _, h => le_of_mem_spellInteger h
  | float _, hv, _ => hv.elim
  | string _, _, h => le_of_mem_spellString h
  | list items, hv, h => by
    rw [spelling, List.mem_cons, List.mem_append, List.mem_singleton] at h
    rcases h with rfl | h | rfl
    · decide
    · exact le_of_mem_spellingOfItems items hv h
    · decide
  | map entries, hv, h => by
    rw [spelling, List.mem_cons, List.mem_append, List.mem_singleton] at h
    rcases h with rfl | h | rfl
    · decide
    · exact le_of_mem_spellingOfEntries entries hv.2.2 h
    · decide
  | struct _ _, hv, _ => hv.elim

/-- There is none in the spelling of items. -/
theorem le_of_mem_spellingOfItems {d : Char} {comma : Bool} : (items : List Value) →
    LegibleItems items → d ∈ spellingOfItems comma items → 0x20 ≤ d.toNat
  | [], _, h => absurd h List.not_mem_nil
  | item :: items, hv, h => by
    rw [spellingOfItems, List.mem_append, List.mem_append] at h
    rcases h with (h | h) | h
    · exact le_of_mem_separator h
    · exact le_of_mem_spelling item hv.1 h
    · exact le_of_mem_spellingOfItems items hv.2 h

/-- There is none in the spelling of entries. -/
theorem le_of_mem_spellingOfEntries {d : Char} {comma : Bool} :
    (entries : List (String × Value)) → LegibleEntries entries →
      d ∈ spellingOfEntries comma entries → 0x20 ≤ d.toNat
  | [], _, h => absurd h List.not_mem_nil
  | (key, value) :: entries, hv, h => by
    rw [spellingOfEntries, List.mem_append, List.mem_append, List.mem_cons, List.mem_append] at h
    rcases h with (h | h) | rfl | h | h
    · exact le_of_mem_separator h
    · exact le_of_mem_spellString h
    · decide
    · exact le_of_mem_spelling value hv.1 h
    · exact le_of_mem_spellingOfEntries entries hv.2 h

end

end Value

/-! ### The values of literals -/

namespace Literal

/-- The number that an integer of 64 bits is spelled as is worth the integer. -/
theorem toValue_numeralOf (i : Int64) :
    (Value.numeralOf i.toInt).toValue = .ok (.integer i) := by
  have hinteger : (Value.numeralOf i.toInt).integer = i.toInt := by
    simp only [Numeral.integer, Value.numeralOf, (Text.isNumeral_toDigits _).value,
      decide_eq_true_eq]
    split
    · omega
    · omega
  have hkind : (Value.numeralOf i.toInt).isInteger = true := rfl
  rw [Numeral.toValue, if_pos hkind, hinteger, if_pos ⟨i.le_toInt, i.toInt_lt⟩, Int64.ofInt_toInt]

mutual

/-- The literal of a legible value is worth that value. -/
theorem toValue_literal : (v : Value) → v.Legible → v.literal.toValue = .ok v
  | .null, _ => rfl
  | .boolean _, _ => rfl
  | .integer i, _ => toValue_numeralOf i
  | .float _, h => h.elim
  | .string _, _ => rfl
  | .list items, h => by
    rw [Value.literal, toValue, valuesOfItems_literals items h []]
    rfl
  | .map entries, h => by
    rw [Value.literal, toValue, valuesOfEntries_literals entries h.2.2 []]
    rfl
  | .struct _ _, h => h.elim

/-- The literals of legible items are worth these items. -/
theorem valuesOfItems_literals : (items : List Value) → Value.LegibleItems items →
    (before : List Value) →
    valuesOfItems before (Value.literalsOfItems items) = .ok (before.reverse ++ items)
  | [], _, _ => by rw [Value.literalsOfItems, valuesOfItems, List.append_nil]
  | item :: items, h, before => by
    rw [Value.literalsOfItems, valuesOfItems, toValue_literal item h.1]
    dsimp only
    rw [valuesOfItems_literals items h.2, List.reverse_cons, List.append_assoc]
    rfl

/-- The literals of legible entries are worth these entries. -/
theorem valuesOfEntries_literals : (entries : List (String × Value)) →
    Value.LegibleEntries entries → (before : List (String × Value)) →
    valuesOfEntries before (Value.literalsOfEntries entries) = .ok (before.reverse ++ entries)
  | [], _, _ => by rw [Value.literalsOfEntries, valuesOfEntries, List.append_nil]
  | (key, value) :: entries, h, before => by
    rw [Value.literalsOfEntries, valuesOfEntries, toValue_literal value h.1]
    dsimp only
    rw [valuesOfEntries_literals entries h.2, List.reverse_cons, List.append_assoc]
    rfl

end

end Literal

end ScriptedBolt
