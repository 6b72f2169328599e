import ScriptedBolt.Proofs.PackStream.Injective
import ScriptedBolt.Proofs.Value.Zeros
import ScriptedBolt.Script

/-!
# Equality and written bytes

Values are equal exactly if they are written as the same bytes once their negative zeros are made
positive. To make a zero positive changes no size, so what can be written can still be written; the
rest is that equality of such values is sameness, and that written bytes tell values apart.
-/

namespace ScriptedBolt

namespace Value

/-- Positive zeros need no other header. -/
theorem fits_unsignZeros {v : Value} : v.unsignZeros.Fits ↔ v.Fits := by
  cases v with
  | list items => simp [unsignZeros, unsignItems_eq_map, Fits, Counted, Overfull]
  | map entries =>
    simp only [unsignZeros, unsignEntries_eq_map, Fits, Counted, Overfull, List.length_map,
      List.forall_mem_map]
  | struct tag fields => simp [unsignZeros, unsignItems_eq_map, Fits, Counted, Overfull]
  | float x => exact Iff.rfl
  | _ => exact Iff.rfl

/-- What occurs in a value whose zeros were made positive occurs in the value itself, up to its
zeros. -/
theorem exists_occurs_of_unsignZeros {w u : Value} (h : w.Occurs u) : ∀ v : Value,
    u = v.unsignZeros → ∃ w' : Value, w'.Occurs v ∧ w = w'.unsignZeros := by
  induction h with
  | here => exact fun v hv ↦ ⟨v, .here, hv⟩
  | item hmem _ ih =>
    intro v hv
    cases v with
    | list items =>
      rw [unsignZeros, unsignItems_eq_map, list.injEq] at hv
      obtain ⟨item, hitem, rfl⟩ := List.mem_map.mp (hv ▸ hmem)
      obtain ⟨w', hw, heq⟩ := ih item rfl
      exact ⟨w', .item hitem hw, heq⟩
    | _ => simp [unsignZeros] at hv
  | entry hmem _ ih =>
    intro v hv
    cases v with
    | map entries =>
      rw [unsignZeros, unsignEntries_eq_map, map.injEq] at hv
      obtain ⟨entry, hentry, rfl⟩ := List.mem_map.mp (hv ▸ hmem)
      obtain ⟨w', hw, heq⟩ := ih entry.2 rfl
      exact ⟨w', .entry hentry hw, heq⟩
    | _ => simp [unsignZeros] at hv
  | field hmem _ ih =>
    intro v hv
    cases v with
    | struct tag fields =>
      rw [unsignZeros, unsignItems_eq_map, struct.injEq] at hv
      obtain ⟨field, hfield, rfl⟩ := List.mem_map.mp (hv.2 ▸ hmem)
      obtain ⟨w', hw, heq⟩ := ih field rfl
      exact ⟨w', .field hfield hw, heq⟩
    | _ => simp [unsignZeros] at hv

end Value

namespace PackStream

/-- A value that can be written can be written with positive zeros. -/
theorem exists_encode_unsignZeros {v : Value} {bytes : Bytes} (h : encode v = .ok bytes) :
    ∃ bytes, encode v.unsignZeros = .ok bytes := by
  rw [exists_encode_iff]
  intro w hw
  obtain ⟨w', hw', rfl⟩ := Value.exists_occurs_of_unsignZeros hw v rfl
  exact Value.fits_unsignZeros.mpr ((exists_encode_iff v).mp ⟨bytes, h⟩ w' hw')

/-- Values without a NaN are equal, where the first of them can be written, exactly if the same
bytes are written for both with positive zeros; and no two values are written as the same bytes. An
integer never equals a float; items and fields are compared in order, and maps by their keys and
the value of each key. The fields of a message are compared in this way with those expected. -/
theorem eqv_iff_same_bytes {a b : Value} {s : Bytes} (ha : encode a = .ok s)
    (hfree : a.NaNFree) (hfree' : b.NaNFree) :
    (a.eqv b = true ↔
      ∃ bytes, encode a.unsignZeros = .ok bytes ∧ encode b.unsignZeros = .ok bytes) ∧
    (∀ v w bytes, encode v = .ok bytes → encode w = .ok bytes → v = w) ∧
    (∀ i x, (Value.integer i).eqv (.float x) = false ∧ (Value.float x).eqv (.integer i) = false) ∧
    (∀ vs ws, (Value.list vs).eqv (.list ws) = true ↔
      List.Forall₂ (fun v w ↦ v.eqv w = true) vs ws) ∧
    (∀ tag tag' vs ws, (Value.struct tag vs).eqv (.struct tag' ws) = true ↔
      tag = tag' ∧ List.Forall₂ (fun v w ↦ v.eqv w = true) vs ws) ∧
    (∀ vs ws, (Value.map vs).Ordered → (Value.map ws).Ordered →
      ((Value.map vs).eqv (.map ws) = true ↔
        (∀ key, key ∈ vs.map Prod.fst ↔ key ∈ ws.map Prod.fst) ∧
          ∀ key v w, (key, v) ∈ vs → (key, w) ∈ ws → v.eqv w = true)) ∧
    (∀ (script : Script) (expect : Expect) (m : Message), script.isAuto m.name = false →
      (script.matchesLine expect m = true ↔ expect.message.name = m.name ∧
        List.Forall₂ (fun v w ↦ v.eqv w = true) expect.message.fields m.fields)) := by
  refine ⟨?_, ?_, ?_, ?_, ?_, ?_, ?_⟩
  · rw [Value.eqv_iff_unsignZeros a b hfree hfree']
    constructor
    · intro h
      obtain ⟨bytes, hbytes⟩ := exists_encode_unsignZeros ha
      exact ⟨bytes, hbytes, h ▸ hbytes⟩
    · rintro ⟨bytes, hbytes, hbytes'⟩
      exact encode_injective hbytes hbytes'
  · exact fun v w bytes ↦ encode_injective
  · exact fun i x ↦ ⟨rfl, rfl⟩
  · exact fun vs ws ↦ Value.eqvItems_iff_forall₂
  · intro tag tag' vs ws
    rw [Value.eqv, Bool.and_eq_true, beq_iff_eq, Value.eqvItems_iff_forall₂]
  · exact fun vs ws hvs hws ↦ Value.eqvEntries_iff hvs.1 hws.1
  · intro script expect m hauto
    rw [Script.matchesLine, hauto, Bool.false_or, Bool.and_eq_true, beq_iff_eq,
      Value.eqvItems_iff_forall₂]

/-- A map around a negative zero equals the one around a positive zero, and not for any other
reason than that their bytes are the same with positive zeros. -/
theorem eqv_iff_same_bytes_zeros :
    let a := Value.map [("k", .list [.float ⟨0x8000000000000000⟩, .integer 1])]
    let b := Value.map [("k", .list [.float ⟨0⟩, .integer 1])]
    a.eqv b = true ∧ encode a ≠ encode b ∧
      ∃ bytes, encode a.unsignZeros = .ok bytes ∧ encode b.unsignZeros = .ok bytes := by
  intro a b
  have hfree : ∀ x : Binary64, x.isNaN = false →
      (Value.map [("k", .list [.float x, .integer 1])]).NaNFree := by
    intro x hx
    rw [Value.nanFree_map_iff, List.forall_mem_singleton, Value.nanFree_list_iff]
    intro item hitem w hw y hy
    subst hy
    rcases List.mem_cons.mp hitem with rfl | hitem
    · cases hw
      exact hx
    · rw [List.mem_singleton] at hitem
      subst hitem
      cases hw
  have ha : encode a = .ok [0xA1, 0x81, 0x6B, 0x92, 0xC1, 0x80, 0, 0, 0, 0, 0, 0, 0, 1] := by
    decide
  have heqv : a.eqv b = true := by decide
  refine ⟨heqv, ?_, ?_⟩
  · rw [ha]
    decide
  · exact (eqv_iff_same_bytes ha (hfree _ (by decide)) (hfree _ (by decide))).1.mp heqv

end PackStream

end ScriptedBolt
