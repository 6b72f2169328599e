import ScriptedBolt.Proofs.Wire.Delivery

/-!
# Sources that come to their end

A source comes to its end if none of its faults is anything but an interruption, which a reader
does not see. All its bytes are then ready, a read fails only for want of bytes, and a read that
finds too few of them leaves nothing behind.
-/

namespace ScriptedBolt.Source

variable {s rest : Source}

/-- All the bytes of a source that comes to its end are ready. -/
theorem ready_eq_bytes (h : s.stop? = none) : s.ready = s.bytes := by
  induction s with
  | nil => rfl
  | cons event s ih =>
    cases event with
    | deliver piece => exact congrArg (piece ++ ·) (ih h)
    | fail f =>
      by_cases hf : f.kind = .interrupted
      · rw [stop?, if_pos hf] at h
        rw [ready, if_pos hf, bytes]
        exact ih h
      · simp [stop?, hf] at h

/-- What is left when bytes are read stops as before. -/
theorem stop?_of_readExact {n : Nat} {bs : Bytes} (h : s.readExact n = (.ok bs, rest)) :
    rest.stop? = s.stop? := by
  by_cases hle : n ≤ s.ready.length
  · obtain ⟨rest', he, -, hstop⟩ := readExact_of_le hle
    obtain ⟨-, rfl⟩ := Prod.mk.inj (he.symm.trans h)
    exact hstop
  · obtain ⟨rest', he⟩ := readExact_of_lt (Nat.lt_of_not_le hle)
    simp [he] at h

/-- What is left when a byte is read stops as before. -/
theorem stop?_of_readByte {b : UInt8} (h : s.readByte = (.ok (some b), rest)) :
    rest.stop? = s.stop? := by
  cases hready : s.ready with
  | nil =>
    obtain ⟨rest', he⟩ := readByte_of_nil hready
    cases hstop : s.stop? <;> simp [he, hstop] at h
  | cons b' more =>
    obtain ⟨rest', he, -, hstop⟩ := readByte_of_cons hready
    obtain ⟨-, rfl⟩ := Prod.mk.inj (he.symm.trans h)
    exact hstop

private theorem readExact_of_end {n : Nat} (hend : s.stop? = none) (h : s.bytes.length < n) :
    s.readExact n = (.error .endOfInput, []) := by
  fun_induction readExact n s with
  | case1 => simp [bytes] at h
  | case2 => rfl
  | case3 n piece s hn =>
    have hle := (Bytes.holds_iff piece n).mp hn
    rw [bytes, List.length_append] at h
    omega
  | case4 n piece s hn more rest hr ih =>
    rw [bytes, List.length_append] at h
    rw [ih hend (by omega)] at hr
    simp at hr
  | case5 n piece s hn f rest hr ih =>
    rw [bytes, List.length_append] at h
    rw [ih hend (by omega)] at hr
    simpa [eq_comm] using hr
  | case6 => simp at h
  | case7 n f s hn hf ih =>
    rw [stop?, if_pos hf] at hend
    exact ih hend h
  | case8 n f s hn hf => simp [stop?, hf] at hend

/-- Reading bytes fails if there are fewer of them, and takes them all. -/
theorem readExact_error_iff {n : Nat} {f : Fault} (hend : s.stop? = none) :
    s.readExact n = (.error f, rest) ↔
      s.bytes.length < n ∧ f = .endOfInput ∧ rest = [] := by
  constructor
  · intro h
    by_cases hlt : s.bytes.length < n
    · rw [readExact_of_end hend hlt] at h
      simpa [hlt, eq_comm] using h
    · have hle : n ≤ s.ready.length := by
        rw [ready_eq_bytes hend]
        exact Nat.le_of_not_lt hlt
      obtain ⟨rest', he, -⟩ := readExact_of_le hle
      simp [he] at h
  · rintro ⟨hlt, rfl, rfl⟩
    exact readExact_of_end hend hlt

/-- Only at its end a source has no byte to read. -/
theorem bytes_of_readByte_none (h : s.readByte = (.ok none, rest)) : s.bytes = [] ∧ rest = [] := by
  fun_induction readByte s with
  | case1 => simpa [bytes, eq_comm] using h
  | case2 s ih => exact ih h
  | case3 => simp at h
  | case4 f s hf ih => exact ih h
  | case5 => simp at h

/-- Reading a byte of a source that comes to its end does not fail. -/
theorem readByte_ne_error {f : Fault} (hend : s.stop? = none) :
    s.readByte ≠ (.error f, rest) := by
  intro h
  fun_induction readByte s with
  | case1 => simp at h
  | case2 s ih => exact ih hend h
  | case3 => simp at h
  | case4 f s hf ih =>
    rw [stop?, if_pos hf] at hend
    exact ih hend h
  | case5 f s hf => simp [stop?, hf] at hend

end ScriptedBolt.Source
