import ScriptedBolt.Proofs.Literal.Reading
import ScriptedBolt.Proofs.Literal.Spelling

/-!
# Reading spellings

The spelling of a legible value is one of the texts of its literal (`spells_spelling`), and nothing
is lost of that literal when it is read (`reduced_literal`). So the spellings of legible values in a
row are read as these values (`values_fields`).
-/

namespace ScriptedBolt

/-! ### Spellings as texts of literals -/

namespace Value

/-- An integer is spelled with its numeral. -/
theorem text_numeralOf (i : Int) : (numeralOf i).text = spellInteger i := by
  simp only [Numeral.text, numeralOf, spellInteger, decide_eq_true_eq, List.append_nil]

/-- The digits of an integer are the whole of its numeral. -/
theorem isWhole_numeralOf (i : Int) : (numeralOf i).IsWhole where
  isInteger := rfl
  ne_nil := Nat.toDigits_ne_nil
  isDigit _ hd := Nat.isDigit_of_mem_toDigits (by decide) (by decide) hd
  zero h := Text.length_toDigits_of_zero (by decide) (by decide) h

end Value

namespace Literal

/-- A character of a string is escaped as the grammar has it. -/
theorem spellsChar_jsonEscape (c : Char) : SpellsChar c (Value.jsonEscape c) := by
  unfold Value.jsonEscape
  split
  case h_8 hquote hslash _ _ _ _ _ =>
    split
    · next hc =>
      have hunit : SpellsUnit
          ['0', '0', Nat.digitChar (c.toNat / 16), Nat.digitChar (c.toNat % 16)] c.toNat := by
        have h : SpellsUnit _ (((0 * 16 + 0) * 16 + c.toNat / 16) * 16 + c.toNat % 16) :=
          .intro (a := '0') (b := '0') rfl rfl
            (Text.hexDigit?_digitChar (d := c.toNat / 16) (by omega))
            (Text.hexDigit?_digitChar (d := c.toNat % 16) (by omega))
        rwa [show ((0 * 16 + 0) * 16 + c.toNat / 16) * 16 + c.toNat % 16 = c.toNat by omega] at h
      have h := SpellsChar.unit hunit (.inl (by omega))
      rwa [Char.ofNat_toNat] at h
    · next hc => exact .plain hquote hslash (by omega)
  all_goals exact .short (by decide)

/-- A string is spelled as the grammar has it. -/
theorem spellsString_spellString (s : String) : SpellsString s (Value.spellString s) := by
  refine ⟨s.toList.flatMap Value.jsonEscape, ?_, rfl⟩
  induction s.toList with
  | nil => exact .nil
  | cons c cs ih =>
    rw [List.flatMap_cons]
    exact .cons (spellsChar_jsonEscape c) ih

/-- A comma, where there has to be one, stands before an item. -/
theorem gap_separator (comma : Bool) : Gap comma (Value.separator comma) := by
  cases comma with
  | true => exact ⟨[], [], by simp [Blanks], by simp [Blanks], rfl⟩
  | false => exact List.forall_mem_nil _

/-- A colon alone stands between a key and its literal. -/
theorem colon_singleton : Colon [':'] :=
  ⟨[], [], List.forall_mem_nil _, List.forall_mem_nil _, rfl⟩

mutual

/-- The spelling of a legible value spells its literal. -/
theorem spells_spelling : (v : Value) → v.Legible → v.literal.Spells v.spelling
  | .null, _ => rfl
  | .boolean _, _ => rfl
  | .integer i, _ => ⟨Value.isWhole_numeralOf i.toInt, (Value.text_numeralOf i.toInt).symm⟩
  | .float _, h => h.elim
  | .string text, _ => spellsString_spellString text
  | .list its, h => ⟨_, spells_spellingOfItems its h false, rfl⟩
  | .map es, h => ⟨_, spells_spellingOfEntries es h.2.2 false, rfl⟩
  | .struct _ _, h => h.elim

/-- The spelling of legible items spells their literals. -/
theorem spells_spellingOfItems : (its : List Value) → Value.LegibleItems its → (comma : Bool) →
    SpellsItems comma (Value.literalsOfItems its) (Value.spellingOfItems comma its)
  | [], _, _ => List.forall_mem_nil _
  | first :: its, h, comma =>
    ⟨_, _, _, gap_separator comma, spells_spelling first h.1, spells_spellingOfItems its h.2 true,
      List.append_assoc ..⟩

/-- The spelling of legible entries spells their literals. -/
theorem spells_spellingOfEntries : (es : List (String × Value)) → Value.LegibleEntries es →
    (comma : Bool) →
      SpellsEntries comma (Value.literalsOfEntries es) (Value.spellingOfEntries comma es)
  | [], _, _ => List.forall_mem_nil _
  | (key, value) :: es, h, comma =>
    ⟨_, _, _, _, _, gap_separator comma, spellsString_spellString key, colon_singleton,
      spells_spelling value h.1, spells_spellingOfEntries es h.2 true, List.append_assoc ..⟩

end

mutual

/-- Nothing is lost of the literal of a legible value. -/
theorem reduced_literal : (v : Value) → v.Legible → v.literal.reduced = v.literal
  | .null, _ => rfl
  | .boolean _, _ => rfl
  | .integer _, _ => rfl
  | .float _, h => h.elim
  | .string _, _ => rfl
  | .list its, h => congrArg list (reducedItems_literals its h)
  | .map es, h => by
    have hkeys : ((Value.literalsOfEntries es).map Prod.fst).Pairwise (· < ·) := by
      rw [Value.keys_literalsOfEntries]
      exact h.1
    rw [Value.literal, reduced, reducedEntries_literals es h.2.2, Entries.sort_of_ascending hkeys]
  | .struct _ _, h => h.elim

/-- Nothing is lost of the literals of legible items. -/
theorem reducedItems_literals : (its : List Value) → Value.LegibleItems its →
    reducedItems (Value.literalsOfItems its) = Value.literalsOfItems its
  | [], _ => rfl
  | first :: its, h =>
    congrArg₂ List.cons (reduced_literal first h.1) (reducedItems_literals its h.2)

/-- Nothing is lost of the literals of legible entries. -/
theorem reducedEntries_literals : (es : List (String × Value)) → Value.LegibleEntries es →
    reducedEntries (Value.literalsOfEntries es) = Value.literalsOfEntries es
  | [], _ => rfl
  | (key, value) :: es, h =>
    congrArg₂ (fun item es ↦ (key, item) :: es) (reduced_literal value h.1)
      (reducedEntries_literals es h.2)

end

mutual

/-- As many lists and objects lie inside of each other in the literal of a legible value as lists
and maps in the value. -/
theorem nesting_literal : (v : Value) → v.Legible → v.literal.nesting = v.nesting
  | .null, _ => rfl
  | .boolean _, _ => rfl
  | .integer _, _ => rfl
  | .float _, h => h.elim
  | .string _, _ => rfl
  | .list its, h => congrArg (· + 1) (nestingOfItems_literals its h)
  | .map es, h => congrArg (· + 1) (nestingOfEntries_literals es h.2.2)
  | .struct _ _, h => h.elim

/-- So do they in the literals of legible items. -/
theorem nestingOfItems_literals : (its : List Value) → Value.LegibleItems its →
    nestingOfItems (Value.literalsOfItems its) = Value.nestingOfItems its
  | [], _ => rfl
  | first :: its, h =>
    congrArg₂ max (nesting_literal first h.1) (nestingOfItems_literals its h.2)

/-- So do they in the literals of legible entries. -/
theorem nestingOfEntries_literals : (es : List (String × Value)) → Value.LegibleEntries es →
    nestingOfEntries (Value.literalsOfEntries es) = Value.nestingOfEntries es
  | [], _ => rfl
  | (_, value) :: es, h =>
    congrArg₂ max (nesting_literal value h.1) (nestingOfEntries_literals es h.2)

end

mutual

/-- No object in the literal of a legible value is taken for a number. -/
theorem unreserved_literal : (v : Value) → v.Legible → v.literal.Unreserved
  | .null, _ => trivial
  | .boolean _, _ => trivial
  | .integer _, _ => trivial
  | .float _, h => h.elim
  | .string _, _ => trivial
  | .list its, h => unreservedItems_literals its h
  | .map es, h => by
    refine ⟨?_, unreservedEntries_literals es h.2.2⟩
    rw [← List.head?_map, Value.keys_literalsOfEntries, List.head?_map]
    exact h.2.1
  | .struct _ _, h => h.elim

/-- None is in the literals of legible items. -/
theorem unreservedItems_literals : (its : List Value) → Value.LegibleItems its →
    UnreservedItems (Value.literalsOfItems its)
  | [], _ => trivial
  | first :: its, h => ⟨unreserved_literal first h.1, unreservedItems_literals its h.2⟩

/-- None is in the literals of legible entries. -/
theorem unreservedEntries_literals : (es : List (String × Value)) → Value.LegibleEntries es →
    UnreservedEntries (Value.literalsOfEntries es)
  | [], _ => trivial
  | (_, value) :: es, h => ⟨unreserved_literal value h.1, unreservedEntries_literals es h.2⟩

end

/-! ### Fields -/

/-- What can follow a literal stands behind a field. -/
private theorem canFollow_fields (fields : List Value) :
    canFollow (fields.flatMap fun field ↦ ' ' :: field.spelling) = true := by
  cases fields with
  | nil => rfl
  | cons field fields => rfl

/-- Legible fields behind blanks are a row of literals. -/
theorem spellsRow_fields {fields : List Value} (h : ∀ field ∈ fields, field.Legible) :
    SpellsRow (fields.map Value.literal) (fields.flatMap fun field ↦ ' ' :: field.spelling) := by
  induction fields with
  | nil => exact List.forall_mem_nil _
  | cons field fields ih =>
    obtain ⟨hfield, hfields⟩ := List.forall_mem_cons.mp h
    exact ⟨[' '], field.spelling, _, by simp [Blanks, isSpace], spells_spelling field hfield,
      .inr (canFollow_fields fields), ih hfields, rfl⟩

/-- So they are without the blank before the first one. -/
theorem spellsRow_trimStart {fields : List Value} (h : ∀ field ∈ fields, field.Legible) :
    SpellsRow (fields.map Value.literal)
      (Text.trimStart (fields.flatMap fun field ↦ ' ' :: field.spelling)) := by
  cases fields with
  | nil => exact List.forall_mem_nil _
  | cons field fields =>
    obtain ⟨hfield, hfields⟩ := List.forall_mem_cons.mp h
    obtain ⟨c, more, hspelling, hc, -⟩ := Value.exists_spelling_eq_cons hfield
    have htrim : Text.trimStart ((field :: fields).flatMap fun field ↦ ' ' :: field.spelling) =
        field.spelling ++ fields.flatMap fun field ↦ ' ' :: field.spelling := by
      rw [List.flatMap_cons, hspelling]
      exact Text.trimStart_cons (Text.isBlank_of_isGraphic hc) _
    rw [htrim]
    exact ⟨[], field.spelling, _, List.forall_mem_nil _, spells_spelling field hfield,
      .inr (canFollow_fields fields), spellsRow_fields hfields, rfl⟩

/-- The values in the text of legible fields, behind the blank before the first one, are these
fields. -/
theorem values_fields {fields : List Value} (h : ∀ field ∈ fields, field.Legible)
    (hshallow : ∀ field ∈ fields, field.nesting ≤ maxNesting) :
    values (Text.trimStart (fields.flatMap fun field ↦ ' ' :: field.spelling)) = .ok fields := by
  have hnesting : ∀ l ∈ fields.map Value.literal, l.nesting ≤ maxNesting := by
    intro l hl
    obtain ⟨field, hfield, rfl⟩ := List.mem_map.mp hl
    rw [nesting_literal field (h field hfield)]
    exact hshallow field hfield
  have hfree : ∀ l ∈ fields.map Value.literal, l.Unreserved := by
    intro l hl
    obtain ⟨field, hfield, rfl⟩ := List.mem_map.mp hl
    exact unreserved_literal field (h field hfield)
  have hreduced : (fields.map Value.literal).map reduced = fields.map Value.literal := by
    rw [List.map_map]
    exact List.map_congr_left fun field hfield ↦ reduced_literal field (h field hfield)
  rw [values_of_spellsRow (spellsRow_trimStart h) hnesting hfree, hreduced,
    ← Value.literalsOfItems_eq_map,
    valuesOfItems_literals fields (Value.legibleItems_of_forall h) []]
  rfl

end Literal

end ScriptedBolt
