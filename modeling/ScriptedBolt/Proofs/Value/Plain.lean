import ScriptedBolt.Value

/-!
# Plain values

The values that a literal can spell: without structures, with finite floats, and with maps whose
keys ascend. They are ordered as maps are kept, and each of them equals itself, which a value with
a NaN in it does not.
-/

namespace ScriptedBolt

/-- A finite number equals itself. -/
theorem Binary64.eqv_self {x : Binary64} (h : x.isFinite = true) : x.eqv x = true := by
  have hlt : x.magnitudeBits < infinityBits := of_decide_eq_true h
  have hnan : x.isNaN = false := decide_eq_false (Nat.lt_asymm hlt)
  simp [eqv, hnan]

namespace Value

mutual

/-- Whether a value can be spelled by a literal. -/
def Plain : Value → Prop
  | float x => x.isFinite = true
  | list items => PlainItems items
  | map entries => (entries.map Prod.fst).Pairwise (· < ·) ∧ PlainEntries entries
  | struct _ _ => False
  | _ => True

/-- Whether all items are plain. -/
def PlainItems : List Value → Prop
  | [] => True
  | item :: items => item.Plain ∧ PlainItems items

/-- Whether the values of all entries are plain. -/
def PlainEntries : List (String × Value) → Prop
  | [] => True
  | (_, value) :: entries => value.Plain ∧ PlainEntries entries

end

/-- Items are plain if each of them is. -/
theorem plainItems_iff {vs : List Value} : PlainItems vs ↔ ∀ v ∈ vs, v.Plain := by
  induction vs with
  | nil => simp [PlainItems]
  | cons v vs ih => rw [PlainItems, ih, List.forall_mem_cons]

/-- Entries are plain if the value of each of them is. -/
theorem plainEntries_iff {es : List (String × Value)} :
    PlainEntries es ↔ ∀ e ∈ es, e.2.Plain := by
  induction es with
  | nil => simp [PlainEntries]
  | cons e es ih => rw [PlainEntries, ih, List.forall_mem_cons]

mutual

/-- The maps of a plain value are ordered. -/
theorem ordered_of_plain : (v : Value) → v.Plain → v.Ordered
  | null, _ => trivial
  | boolean _, _ => trivial
  | integer _, _ => trivial
  | float _, _ => trivial
  | string _, _ => trivial
  | list items, h => orderedItems_of_plain items h
  | map entries, h => ⟨h.1, orderedEntries_of_plain entries h.2⟩
  | struct _ _, h => h.elim

/-- The maps of plain items are ordered. -/
theorem orderedItems_of_plain : (vs : List Value) → PlainItems vs → OrderedItems vs
  | [], _ => trivial
  | v :: vs, h => ⟨ordered_of_plain v h.1, orderedItems_of_plain vs h.2⟩

/-- The maps of plain entries are ordered. -/
theorem orderedEntries_of_plain : (es : List (String × Value)) → PlainEntries es →
    OrderedEntries es
  | [], _ => trivial
  | (_, v) :: es, h => ⟨ordered_of_plain v h.1, orderedEntries_of_plain es h.2⟩

end

mutual

/-- A plain value equals itself. -/
theorem eqv_self : (v : Value) → v.Plain → v.eqv v = true
  | null, _ => rfl
  | boolean b, _ => beq_self_eq_true b
  | integer i, _ => beq_self_eq_true i
  | float _, h => Binary64.eqv_self h
  | string text, _ => beq_self_eq_true text
  | list items, h => eqvItems_self items h
  | map entries, h => eqvEntries_self entries h.2
  | struct _ _, h => h.elim

/-- Plain items equal themselves. -/
theorem eqvItems_self : (vs : List Value) → PlainItems vs → eqvItems vs vs = true
  | [], _ => rfl
  | v :: vs, h => by rw [eqvItems, eqv_self v h.1, eqvItems_self vs h.2, Bool.and_self]

/-- Plain entries equal themselves. -/
theorem eqvEntries_self : (es : List (String × Value)) → PlainEntries es →
    eqvEntries es es = true
  | [], _ => rfl
  | (k, v) :: es, h => by
    rw [eqvEntries, eqv_self v h.1, eqvEntries_self es h.2, beq_self_eq_true, Bool.and_self,
      Bool.and_self]

end

end Value

end ScriptedBolt
