import Mathlib.Data.List.Sort
import ScriptedBolt.Proofs.PackStream.Writable

/-!
# Equality of values without a NaN

Equality differs from being the same value in two points: a NaN equals nothing, and the two zeros
of the floats are equal. So values without a NaN are equal exactly if they are the same once each
negative zero in them is made positive. What this says of lists, structures and maps is stated for
them as containers, without going through their zeros.
-/

namespace ScriptedBolt

namespace Binary64

/-- The zero with the sign bit set. -/
def negativeZero : Binary64 := ⟨0x8000000000000000⟩

/-- The number, with the positive zero in place of the negative one. -/
def unsignZero (x : Binary64) : Binary64 := if x = negativeZero then ⟨0⟩ else x

/-- The zeros are the number without any bits set and the one with the sign bit alone. -/
theorem isZero_iff {x : Binary64} : x.isZero = true ↔ x = ⟨0⟩ ∨ x = negativeZero := by
  obtain ⟨bits⟩ := x
  have hlt := bits.toNat_lt
  rw [isZero, beq_iff_eq, negativeZero, mk.injEq, mk.injEq, ← UInt64.toNat_inj,
    ← UInt64.toNat_inj]
  change bits.toNat % signBit = 0 ↔ bits.toNat = 0 ∨ bits.toNat = signBit
  rw [signBit]
  omega

/-- Numbers that are no NaN are equal exactly if they are the same but for the sign of zero. -/
theorem eqv_iff {x y : Binary64} (hx : x.isNaN = false) (hy : y.isNaN = false) :
    x.eqv y = true ↔ x.unsignZero = y.unsignZero := by
  have hbits : x.bits = y.bits ↔ x = y := by
    rw [← mk.injEq]
  have heqv : x.eqv y = true ↔ x = y ∨ (x.isZero = true ∧ y.isZero = true) := by
    simp [eqv, hx, hy, hbits]
  rw [heqv, isZero_iff, isZero_iff, unsignZero, unsignZero]
  by_cases hnx : x = negativeZero
  · by_cases hny : y = negativeZero
    · simp [hnx, hny]
    · simp [hnx, hny, eq_comm]
  · by_cases hny : y = negativeZero
    · simp [hnx, hny]
    · rw [if_neg hnx, if_neg hny]
      constructor
      · rintro (h | ⟨rfl | h, rfl | h'⟩)
        · exact h
        · rfl
        · exact absurd h' hny
        · exact absurd h hnx
        · exact absurd h hnx
      · exact .inl

end Binary64

namespace Value

mutual

/-- The value with positive zeros in place of the negative ones at any depth. -/
def unsignZeros : Value → Value
  | float x => float x.unsignZero
  | list items => list (unsignItems items)
  | map entries => map (unsignEntries entries)
  | struct tag fields => struct tag (unsignItems fields)
  | v => v

/-- The items with positive zeros in place of the negative ones. -/
def unsignItems : List Value → List Value
  | [] => []
  | item :: items => item.unsignZeros :: unsignItems items

/-- The entries with positive zeros in place of the negative ones in their values. -/
def unsignEntries : List (String × Value) → List (String × Value)
  | [] => []
  | (key, value) :: entries => (key, value.unsignZeros) :: unsignEntries entries

end

/-- To make zeros positive changes each item for itself. -/
theorem unsignItems_eq_map (items : List Value) : unsignItems items = items.map unsignZeros := by
  induction items with
  | nil => rfl
  | cons item items ih => rw [unsignItems, ih, List.map_cons]

/-- To make zeros positive changes the value of each entry for itself. -/
theorem unsignEntries_eq_map (entries : List (String × Value)) :
    unsignEntries entries = entries.map fun entry ↦ (entry.1, entry.2.unsignZeros) := by
  induction entries with
  | nil => rfl
  | cons entry entries ih => rw [unsignEntries, ih, List.map_cons]

/-- Whether no NaN occurs in a value. -/
def NaNFree (v : Value) : Prop := ∀ w : Value, w.Occurs v → ∀ x, w = float x → x.isNaN = false

/-- A float without a NaN in it is none. -/
theorem NaNFree.float {x : Binary64} (h : (float x).NaNFree) : x.isNaN = false :=
  h _ .here x rfl

/-- There is no NaN in a list if there is none in its items. -/
theorem nanFree_list_iff {items : List Value} :
    (list items).NaNFree ↔ ∀ item ∈ items, item.NaNFree :=
  forall_occurs_list_iff.trans (and_iff_right (by simp))

/-- There is no NaN in a map if there is none in its values. -/
theorem nanFree_map_iff {entries : List (String × Value)} :
    (map entries).NaNFree ↔ ∀ entry ∈ entries, entry.2.NaNFree :=
  forall_occurs_map_iff.trans (and_iff_right (by simp))

/-- There is no NaN in a structure if there is none in its fields. -/
theorem nanFree_struct_iff {tag : UInt8} {fields : List Value} :
    (struct tag fields).NaNFree ↔ ∀ field ∈ fields, field.NaNFree :=
  forall_occurs_struct_iff.trans (and_iff_right (by simp))

/-! ### Equality and zeros -/

mutual

/-- Values without a NaN are equal exactly if they are the same but for the signs of zeros. -/
theorem eqv_iff_unsignZeros : (a b : Value) → a.NaNFree → b.NaNFree →
    (a.eqv b = true ↔ a.unsignZeros = b.unsignZeros)
  | null, b, _, _ => by cases b <;> simp [eqv, unsignZeros]
  | boolean _, b, _, _ => by cases b <;> simp [eqv, unsignZeros]
  | integer _, b, _, _ => by cases b <;> simp [eqv, unsignZeros]
  | string _, b, _, _ => by cases b <;> simp [eqv, unsignZeros]
  | float x, b, ha, hb => by
    cases b with
    | float y => simpa [eqv, unsignZeros] using Binary64.eqv_iff ha.float hb.float
    | _ => simp [eqv, unsignZeros]
  | list as, b, ha, hb => by
    cases b with
    | list bs =>
      rw [nanFree_list_iff] at ha hb
      simpa [eqv, unsignZeros] using eqvItems_iff_unsignItems as bs ha hb
    | _ => simp [eqv, unsignZeros]
  | map as, b, ha, hb => by
    cases b with
    | map bs =>
      rw [nanFree_map_iff] at ha hb
      simpa [eqv, unsignZeros] using eqvEntries_iff_unsignEntries as bs ha hb
    | _ => simp [eqv, unsignZeros]
  | struct tag as, b, ha, hb => by
    cases b with
    | struct tag' bs =>
      rw [nanFree_struct_iff] at ha hb
      simpa [eqv, unsignZeros] using fun _ ↦ eqvItems_iff_unsignItems as bs ha hb
    | _ => simp [eqv, unsignZeros]

/-- Items without a NaN are equal exactly if they are the same but for the signs of zeros. -/
theorem eqvItems_iff_unsignItems : (as bs : List Value) → (∀ a ∈ as, a.NaNFree) →
    (∀ b ∈ bs, b.NaNFree) → (eqvItems as bs = true ↔ unsignItems as = unsignItems bs)
  | [], [], _, _ => by simp [eqvItems]
  | [], _ :: _, _, _ => by simp [eqvItems, unsignItems]
  | _ :: _, [], _, _ => by simp [eqvItems, unsignItems]
  | a :: as, b :: bs, ha, hb => by
    rw [List.forall_mem_cons] at ha hb
    rw [eqvItems, Bool.and_eq_true, eqv_iff_unsignZeros a b ha.1 hb.1,
      eqvItems_iff_unsignItems as bs ha.2 hb.2, unsignItems, unsignItems, List.cons.injEq]

/-- Entries without a NaN are equal exactly if they are the same but for the signs of zeros. -/
theorem eqvEntries_iff_unsignEntries : (as bs : List (String × Value)) →
    (∀ a ∈ as, a.2.NaNFree) → (∀ b ∈ bs, b.2.NaNFree) →
      (eqvEntries as bs = true ↔ unsignEntries as = unsignEntries bs)
  | [], [], _, _ => by simp [eqvEntries]
  | [], (_, _) :: _, _, _ => by simp [eqvEntries, unsignEntries]
  | (_, _) :: _, [], _, _ => by simp [eqvEntries, unsignEntries]
  | (k, a) :: as, (l, b) :: bs, ha, hb => by
    rw [List.forall_mem_cons] at ha hb
    rw [eqvEntries, Bool.and_eq_true, Bool.and_eq_true, beq_iff_eq,
      eqv_iff_unsignZeros a b ha.1 hb.1, eqvEntries_iff_unsignEntries as bs ha.2 hb.2,
      unsignEntries, unsignEntries, List.cons.injEq, Prod.mk.injEq]

end

/-! ### Equality of containers -/

/-- Items are equal exactly if they are equal one by one, in order. -/
theorem eqvItems_iff_forall₂ {as bs : List Value} :
    eqvItems as bs = true ↔ List.Forall₂ (fun a b ↦ a.eqv b = true) as bs := by
  induction as generalizing bs with
  | nil => cases bs <;> simp [eqvItems]
  | cons a as ih =>
    cases bs with
    | nil => simp [eqvItems]
    | cons b bs => rw [eqvItems, Bool.and_eq_true, ih, List.forall₂_cons]

/-- Equal entries have the same keys. -/
private theorem keys_eq_of_eqvEntries {as bs : List (String × Value)}
    (h : eqvEntries as bs = true) : as.map Prod.fst = bs.map Prod.fst := by
  induction as generalizing bs with
  | nil =>
    cases bs with
    | nil => rfl
    | cons b bs => simp [eqvEntries] at h
  | cons a as ih =>
    cases bs with
    | nil => simp [eqvEntries] at h
    | cons b bs =>
      rw [eqvEntries, Bool.and_eq_true, Bool.and_eq_true, beq_iff_eq] at h
      rw [List.map_cons, List.map_cons, h.1.1, ih h.2]

/-- Entries with the same keys, each of its own, are equal exactly if the values of each key
are. -/
private theorem eqvEntries_iff_of_keys {as bs : List (String × Value)}
    (hkeys : as.map Prod.fst = bs.map Prod.fst) (hnodup : (as.map Prod.fst).Nodup) :
    eqvEntries as bs = true ↔
      ∀ key v w, (key, v) ∈ as → (key, w) ∈ bs → v.eqv w = true := by
  induction as generalizing bs with
  | nil =>
    obtain rfl := List.map_eq_nil_iff.mp hkeys.symm
    simp [eqvEntries]
  | cons a as ih =>
    obtain ⟨b, bs, rfl, hkey, htail⟩ := List.map_eq_cons_iff.mp hkeys.symm
    obtain ⟨k, v₀⟩ := a
    obtain ⟨l, w₀⟩ := b
    obtain rfl : l = k := hkey
    rw [List.map_cons, List.nodup_cons] at hnodup
    rw [eqvEntries, beq_self_eq_true, Bool.true_and, Bool.and_eq_true, ih htail.symm hnodup.2]
    -- The first key stands nowhere else, so two entries with one key stand at the same place.
    have hfresh : ∀ v, (l, v) ∉ as := by
      intro v hm
      exact hnodup.1 (List.mem_map.mpr ⟨_, hm, rfl⟩)
    have hfresh' : ∀ w, (l, w) ∉ bs := by
      intro w hm
      exact hnodup.1 (htail ▸ List.mem_map.mpr ⟨_, hm, rfl⟩)
    constructor
    · rintro ⟨hhead, htails⟩ key v w hv hw
      rcases List.mem_cons.mp hv with hv | hv
      · obtain ⟨rfl, rfl⟩ := Prod.mk.inj hv
        rcases List.mem_cons.mp hw with hw | hw
        · obtain ⟨-, rfl⟩ := Prod.mk.inj hw
          exact hhead
        · exact absurd hw (hfresh' w)
      · rcases List.mem_cons.mp hw with hw | hw
        · obtain ⟨hk, -⟩ := Prod.mk.inj hw
          exact absurd (hk ▸ hv) (hfresh v)
        · exact htails key v w hv hw
    · intro h
      refine ⟨h l v₀ w₀ List.mem_cons_self List.mem_cons_self, ?_⟩
      intro key v w hv hw
      exact h key v w (List.mem_cons_of_mem _ hv) (List.mem_cons_of_mem _ hw)

/-- Entries with ascending keys are equal exactly if they have the same keys and the values of
each key are equal. -/
theorem eqvEntries_iff {as bs : List (String × Value)}
    (has : (as.map Prod.fst).Pairwise (· < ·)) (hbs : (bs.map Prod.fst).Pairwise (· < ·)) :
    eqvEntries as bs = true ↔
      (∀ key, key ∈ as.map Prod.fst ↔ key ∈ bs.map Prod.fst) ∧
        ∀ key v w, (key, v) ∈ as → (key, w) ∈ bs → v.eqv w = true := by
  have hnodup : (as.map Prod.fst).Nodup := by
    apply has.imp
    rintro a _ hlt rfl
    exact String.lt_irrefl a hlt
  constructor
  · intro h
    have hkeys := keys_eq_of_eqvEntries h
    refine ⟨fun key ↦ by rw [hkeys], ?_⟩
    exact (eqvEntries_iff_of_keys hkeys hnodup).mp h
  · rintro ⟨hmem, hvalues⟩
    have hkeys := has.eq_of_mem_iff hbs hmem
    exact (eqvEntries_iff_of_keys hkeys hnodup).mpr hvalues

end Value

end ScriptedBolt
