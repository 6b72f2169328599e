import ScriptedBolt.Wire.Sink

/-!
# What a sink accepts

Of the bytes written to it a sink accepts a beginning, which is all that its output grows by. If
the write succeeds it has accepted all of them. A sink is steady if none of its answers is a
failure; whatever is written to it is accepted.
-/

namespace ScriptedBolt.Sink

/-- Offering bytes takes some of them, and all if the sink does not refuse. -/
theorem offer_bounds (sink : Sink) (taken offered : Nat) :
    taken ≤ (sink.offer taken offered).2.1 ∧
      (sink.offer taken offered).2.1 ≤ taken + offered ∧
      ((sink.offer taken offered).1 = none →
        (sink.offer taken offered).2.1 = taken + offered) := by
  fun_induction offer sink taken offered with
  | case1 => simp
  | case2 => simp
  | case3 sink taken offered hn called most ha n ih =>
    have hle : n ≤ offered := Nat.min_le_right ..
    obtain ⟨hlow, hhigh, hall⟩ := ih
    refine ⟨by omega, by omega, ?_⟩
    intro h
    rw [hall h]
    omega
  | case4 sink taken offered hn called f ha hf ih => exact ih
  | case5 => simp

/-- Offering bytes leaves the output as it is. -/
theorem output_offer (sink : Sink) (taken offered : Nat) :
    (sink.offer taken offered).2.2.output = sink.output := by
  fun_induction offer sink taken offered with
  | case1 => rfl
  | case2 => rfl
  | case3 sink taken offered hn called most ha n ih => exact ih
  | case4 sink taken offered hn called f ha hf ih => exact ih
  | case5 => rfl

/-- Of the bytes written a sink accepts a beginning, and all of them if the write succeeds. -/
theorem output_writeAll (sink : Sink) (bs : Bytes) :
    ∃ accepted, accepted <+: bs ∧
      (sink.writeAll bs).2.output.toList = sink.output.toList ++ accepted ∧
      ((sink.writeAll bs).1 = .ok () → accepted = bs) := by
  obtain ⟨hlow, hhigh, hall⟩ := offer_bounds sink sink.output.size bs.length
  have hout := output_offer sink sink.output.size bs.length
  unfold writeAll
  dsimp only
  generalize sink.offer sink.output.size bs.length = r at *
  obtain ⟨fault, taken, after⟩ := r
  dsimp only at hlow hhigh hall hout
  refine ⟨bs.take (taken - sink.output.size), List.take_prefix .., ?_, ?_⟩
  · cases fault <;> simp [append, hout]
  · intro h
    cases fault with
    | some f => simp at h
    | none =>
      have := hall rfl
      exact List.take_of_length_le (by omega)

/-- Of the bytes sent a sink accepts a beginning, and all of them if sending succeeds. -/
theorem output_send (sink : Sink) (bs : Bytes) :
    ∃ accepted, accepted <+: bs ∧
      (sink.send bs).2.output.toList = sink.output.toList ++ accepted ∧
      ((sink.send bs).1 = .ok () → accepted = bs) := by
  obtain ⟨accepted, hle, hout, hall⟩ := output_writeAll sink bs
  refine ⟨accepted, hle, ?_, ?_⟩
  · unfold send
    split
    · next hw => rwa [hw] at hout
    · next hw => rwa [hw] at hout
  · intro h
    unfold send at h
    split at h
    · next hw => exact hall (by rw [hw])
    · simp at h

/-- No write to the sink and no flush of it fails. -/
structure Steady (sink : Sink) : Prop where
  takes : ∀ call taken offered, 0 < offered →
    ∃ most, sink.answer call taken offered = .take (most + 1)
  flushes : ∀ call taken, sink.flushFault call taken = none

private theorem offer_of_steady {sink : Sink} (h : sink.Steady) (taken offered : Nat) :
    (sink.offer taken offered).1 = none ∧ (sink.offer taken offered).2.2.Steady := by
  fun_induction offer sink taken offered with
  | case1 => exact ⟨rfl, h⟩
  | case2 sink taken offered hn called ha =>
    obtain ⟨most, he⟩ := h.takes sink.calls taken offered (by omega)
    rw [ha] at he
    simp at he
  | case3 sink taken offered hn called most ha n ih => exact ih ⟨h.takes, h.flushes⟩
  | case4 sink taken offered hn called f ha hf ih => exact ih ⟨h.takes, h.flushes⟩
  | case5 sink taken offered hn called f ha hf =>
    obtain ⟨most, he⟩ := h.takes sink.calls taken offered (by omega)
    rw [ha] at he
    simp at he

/-- Sending to a steady sink succeeds and leaves it steady. -/
theorem send_of_steady {sink : Sink} (h : sink.Steady) (bs : Bytes) :
    (sink.send bs).1 = .ok () ∧ (sink.send bs).2.Steady := by
  obtain ⟨hfault, hsteady⟩ := offer_of_steady h sink.output.size bs.length
  have hwrite : (sink.writeAll bs).1 = .ok () ∧ (sink.writeAll bs).2.Steady := by
    unfold writeAll
    dsimp only
    rw [hfault]
    exact ⟨rfl, ⟨hsteady.takes, hsteady.flushes⟩⟩
  unfold send
  split
  · next after hw =>
    rw [hw] at hwrite
    obtain ⟨-, hafter⟩ := hwrite
    refine ⟨?_, hafter⟩
    rw [flush, hafter.flushes]
  · next hw =>
    rw [hw] at hwrite
    simp at hwrite

/-- A sink without bounds is steady. -/
theorem steady_unbounded : unbounded.Steady where
  takes _ _ offered h := ⟨offered - 1, by simp only [unbounded]; congr 1; omega⟩
  flushes _ _ := rfl

end ScriptedBolt.Sink
