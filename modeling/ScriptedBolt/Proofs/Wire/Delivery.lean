import ScriptedBolt.Wire.Source

/-!
# What a source delivers

A source has bytes that are ready, those before its first fault that is not an interruption, and
it stops with that fault or at its end. A read that asks for no more than is ready gets the next
ready bytes, and any other read gets the stop: nothing else about a source can be told by
reading it. Whatever a read does, what is left is an end of what was there.
-/

namespace ScriptedBolt.Source

/-- The bytes that come before the first fault other than an interruption. -/
def ready : Source → Bytes
  | [] => []
  | .deliver piece :: s => piece ++ ready s
  | .fail f :: s => if f.kind = .interrupted then ready s else []

/-- The first fault other than an interruption. -/
def stop? : Source → Option Fault
  | [] => none
  | .deliver _ :: s => stop? s
  | .fail f :: s => if f.kind = .interrupted then stop? s else some f

/-- The fault of a read that asks for more than is ready. -/
def stop (s : Source) : Fault := s.stop?.getD .endOfInput

/-- A read of no more than is ready succeeds, and takes its bytes from the front. -/
theorem readExact_of_le {n : Nat} {s : Source} (h : n ≤ s.ready.length) :
    ∃ rest, s.readExact n = (.ok (s.ready.take n), rest) ∧
      rest.ready = s.ready.drop n ∧ rest.stop? = s.stop? := by
  fun_induction readExact n s with
  | case1 => exact ⟨[], rfl, rfl, rfl⟩
  | case2 n hn =>
    simp only [ready, List.length_nil, Nat.le_zero] at h
    exact absurd h hn
  | case3 n piece s hn =>
    have hle := (Bytes.holds_iff piece n).mp hn
    refine ⟨.deliver (piece.drop n) :: s, ?_, ?_, rfl⟩
    · simp only [ready, List.take_append_of_le_length hle]
    · simp only [ready, List.drop_append_of_le_length hle]
  | case4 n piece s hn more rest hr ih =>
    have hlt := mt (Bytes.holds_iff piece n).mpr hn
    simp only [ready, List.length_append] at h
    obtain ⟨rest', he, hready, hstop⟩ := ih (by omega)
    rw [hr] at he
    obtain ⟨rfl, rfl⟩ : more = (ready s).take (n - piece.length) ∧ rest = rest' := by
      simpa using he
    have hle : piece.length ≤ n := by omega
    refine ⟨rest, ?_, ?_, hstop⟩
    · rw [ready, List.take_append, List.take_of_length_le hle]
    · rw [ready, List.drop_append, List.drop_of_length_le hle, List.nil_append, hready]
  | case5 n piece s hn f rest hr ih =>
    have hlt := mt (Bytes.holds_iff piece n).mpr hn
    simp only [ready, List.length_append] at h
    obtain ⟨rest', he, -⟩ := ih (by omega)
    rw [hr] at he
    simp at he
  | case6 f s => exact ⟨_, rfl, rfl, rfl⟩
  | case7 n f s hn hf ih =>
    simp only [ready, stop?, hf, ↓reduceIte] at h ⊢
    exact ih h
  | case8 n f s hn hf =>
    simp only [ready, hf, ↓reduceIte, List.length_nil, Nat.le_zero] at h
    exact absurd h hn

/-- A read of more than is ready fails where the source stops. -/
theorem readExact_of_lt {n : Nat} {s : Source} (h : s.ready.length < n) :
    ∃ rest, s.readExact n = (.error s.stop, rest) := by
  fun_induction readExact n s with
  | case1 => simp at h
  | case2 => exact ⟨[], rfl⟩
  | case3 n piece s hn =>
    have hle := (Bytes.holds_iff piece n).mp hn
    simp only [ready, List.length_append] at h
    omega
  | case4 n piece s hn more rest hr ih =>
    simp only [ready, List.length_append] at h
    obtain ⟨rest', he⟩ := ih (by omega)
    rw [hr] at he
    simp at he
  | case5 n piece s hn f rest hr ih =>
    simp only [ready, List.length_append] at h
    obtain ⟨rest', he⟩ := ih (by omega)
    rw [hr] at he
    obtain ⟨rfl, rfl⟩ : f = stop s ∧ rest = rest' := by simpa using he
    exact ⟨rest, rfl⟩
  | case6 => simp at h
  | case7 n f s hn hf ih =>
    simp only [ready, hf, ↓reduceIte] at h
    obtain ⟨rest, he⟩ := ih h
    refine ⟨rest, ?_⟩
    rw [he, stop, stop, stop?, if_pos hf]
  | case8 n f s hn hf =>
    refine ⟨s, ?_⟩
    rw [stop, stop?, if_neg hf, Option.getD_some]

/-- Reading a byte takes the first one that is ready. -/
theorem readByte_of_cons {s : Source} {b : UInt8} {more : Bytes} (h : s.ready = b :: more) :
    ∃ rest, s.readByte = (.ok (some b), rest) ∧ rest.ready = more ∧ rest.stop? = s.stop? := by
  fun_induction readByte s with
  | case1 => simp [ready] at h
  | case2 s ih => exact ih h
  | case3 c piece s =>
    obtain ⟨rfl, rfl⟩ : c = b ∧ piece ++ ready s = more := by simpa [ready] using h
    exact ⟨_, rfl, rfl, rfl⟩
  | case4 f s hf ih =>
    simp only [ready, stop?, hf, ↓reduceIte] at h ⊢
    exact ih h
  | case5 f s hf => simp [ready, hf] at h

/-- When nothing is ready, reading a byte finds the end or fails where the source stops. -/
theorem readByte_of_nil {s : Source} (h : s.ready = []) :
    ∃ rest, s.readByte = (s.stop?.elim (.ok none) .error, rest) := by
  fun_induction readByte s with
  | case1 => exact ⟨[], rfl⟩
  | case2 s ih => exact ih h
  | case3 => simp [ready] at h
  | case4 f s hf ih =>
    simp only [ready, stop?, hf, ↓reduceIte] at h ⊢
    exact ih h
  | case5 f s hf => exact ⟨s, by simp [stop?, hf]⟩

/-- Reading never brings back bytes. -/
theorem bytes_readExact_suffix (n : Nat) (s : Source) :
    (s.readExact n).2.bytes <:+ s.bytes := by
  fun_induction readExact n s with
  | case1 => exact List.suffix_rfl
  | case2 => exact List.suffix_rfl
  | case3 n piece s hn =>
    refine ⟨piece.take n, ?_⟩
    simp only [bytes]
    rw [← List.append_assoc, List.take_append_drop]
  | case4 n piece s hn more rest hr ih =>
    rw [hr] at ih
    exact ih.trans (List.suffix_append ..)
  | case5 n piece s hn f rest hr ih =>
    rw [hr] at ih
    exact ih.trans (List.suffix_append ..)
  | case6 => exact List.suffix_rfl
  | case7 n f s hn hf ih => exact ih
  | case8 => exact List.suffix_rfl

/-- Reading a byte never brings back bytes. -/
theorem bytes_readByte_suffix (s : Source) : s.readByte.2.bytes <:+ s.bytes := by
  fun_induction readByte s with
  | case1 => exact List.suffix_rfl
  | case2 s ih => exact ih
  | case3 b piece s => exact ⟨[b], rfl⟩
  | case4 f s hf ih => exact ih
  | case5 => exact List.suffix_rfl

end ScriptedBolt.Source
