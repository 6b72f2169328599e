import ScriptedBolt.Proofs.Wire.Acceptance

/-!
# The number of writes

A sink is decided if each write to it takes something or fails for good. Whatever is sent to such a
sink, each write takes a byte at least, but for the one that fails. So sending comes to an end by
what the sink answers, and not by the bound on repeated writes.
-/

namespace ScriptedBolt.Sink

/-- Each write takes something, or fails in a way that is not repeated. -/
structure Decided (sink : Sink) : Prop where
  answers : ∀ call taken offered, 0 < offered →
    (∃ most, sink.answer call taken offered = .take (most + 1)) ∨
      ∃ f, sink.answer call taken offered = .fail f ∧ f.kind ≠ .interrupted

/-- Whether a sink comes from another one by no more writes than bytes accepted, and `spare`. -/
structure Thrifty (before : Sink) (spare : Nat) (after : Sink) : Prop where
  decided : after.Decided
  calls_le : after.calls + before.output.size ≤ before.calls + after.output.size + spare

/-- A sink comes from itself without a write. -/
theorem Thrifty.refl {sink : Sink} (h : sink.Decided) (spare : Nat) : sink.Thrifty spare sink where
  decided := h
  calls_le := Nat.le_add_right ..

/-- Writes follow each other. -/
theorem Thrifty.trans {first second third : Sink} {spare : Nat} (h : first.Thrifty 0 second)
    (h' : second.Thrifty spare third) : first.Thrifty spare third where
  decided := h'.decided
  calls_le := by
    have := h.calls_le
    have := h'.calls_le
    omega

/-- Offering bytes takes no more writes than bytes taken, and one if the sink refuses. -/
private theorem offer_of_decided {sink : Sink} (h : sink.Decided) (taken offered : Nat) :
    let (fault, more, after) := sink.offer taken offered
    after.Decided ∧ after.calls + taken ≤ sink.calls + more + 1 ∧
      (fault = none → after.calls + taken ≤ sink.calls + more) := by
  fun_induction offer sink taken offered with
  | case1 => exact ⟨h, by omega, fun _ ↦ Nat.le_refl _⟩
  | case2 sink taken offered hn called ha =>
    rcases h.answers sink.calls taken offered (by omega) with ⟨most, he⟩ | ⟨f, he, -⟩
    · simp [ha] at he
    · simp [ha] at he
  | case3 sink taken offered hn called most ha n ih =>
    have hpos : 0 < n := Nat.lt_min.mpr ⟨Nat.succ_pos _, by omega⟩
    have hcalls : called.calls = sink.calls + 1 := rfl
    obtain ⟨hdecided, hone, hnone⟩ := ih ⟨h.answers⟩
    rw [hcalls] at hone hnone
    refine ⟨hdecided, by omega, ?_⟩
    intro hf
    have := hnone hf
    omega
  | case4 sink taken offered hn called f ha hf ih =>
    rcases h.answers sink.calls taken offered (by omega) with ⟨most, he⟩ | ⟨f', he, hkind⟩
    · simp [ha] at he
    · rw [ha] at he
      obtain rfl := WriteAnswer.fail.inj he
      exact absurd hf.1 hkind
  | case5 sink taken offered hn called f ha hf =>
    refine ⟨⟨h.answers⟩, ?_, by simp⟩
    simp only [called]
    omega

private theorem writeAll_of_decided {sink : Sink} (h : sink.Decided) (bs : Bytes) :
    sink.Thrifty 1 (sink.writeAll bs).2 ∧
      ((sink.writeAll bs).1 = .ok () → sink.Thrifty 0 (sink.writeAll bs).2) := by
  obtain ⟨hlow, hhigh, -⟩ := offer_bounds sink sink.output.size bs.length
  obtain ⟨hdecided, hone, hnone⟩ := offer_of_decided h sink.output.size bs.length
  have hout := output_offer sink sink.output.size bs.length
  unfold writeAll
  dsimp only
  generalize sink.offer sink.output.size bs.length = r at *
  obtain ⟨fault, taken, after⟩ := r
  dsimp only at hlow hhigh hdecided hone hnone hout
  have hsize : (after.append (bs.take (taken - sink.output.size))).output.size = taken := by
    rw [← Array.length_toList, append, Array.toList_appendList, hout, List.length_append,
      Array.length_toList, List.length_take]
    omega
  have thrifty {spare : Nat} (hle : after.calls + sink.output.size ≤ sink.calls + taken + spare) :
      sink.Thrifty spare (after.append (bs.take (taken - sink.output.size))) :=
    ⟨⟨hdecided.answers⟩, by rw [hsize]; exact hle⟩
  cases fault with
  | none => exact ⟨thrifty hone, fun _ ↦ thrifty (hnone rfl)⟩
  | some f => exact ⟨thrifty hone, by simp⟩

/-- Sending takes no more writes than bytes accepted, and one if it fails. -/
theorem send_of_decided {sink : Sink} (h : sink.Decided) (bs : Bytes) :
    sink.Thrifty 1 (sink.send bs).2 ∧
      ((sink.send bs).1 = .ok () → sink.Thrifty 0 (sink.send bs).2) := by
  obtain ⟨hone, hnone⟩ := writeAll_of_decided h bs
  unfold send
  split
  · next hw =>
    rw [hw] at hone hnone
    exact ⟨hone, fun _ ↦ hnone rfl⟩
  · next hw =>
    rw [hw] at hone
    exact ⟨hone, by simp⟩

end ScriptedBolt.Sink
