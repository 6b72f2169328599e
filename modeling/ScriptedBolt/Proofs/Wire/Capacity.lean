import ScriptedBolt.Proofs.Wire.Acceptance

/-!
# Sinks that fill up

A sink may have room for so many bytes and no more. What is sent to it is taken up to its room, in
writes of any size. As long as it fits, sending succeeds and the room is less by as much; what does
not fit is taken in part, exactly up to the room, and sending fails.
-/

namespace ScriptedBolt.Sink

/-- How a sink that takes `limit` bytes in all may answer a write when it has taken `taken`. -/
inductive Bounded (limit taken offered : Nat) : WriteAnswer → Prop
  /-- It takes something, but not more than there is room for. -/
  | takes {most : Nat} (h : taken + min (most + 1) offered ≤ limit) :
    Bounded limit taken offered (.take (most + 1))
  /-- It is full and takes nothing. -/
  | nothing (h : limit ≤ taken) : Bounded limit taken offered (.take 0)
  /-- It is full and fails, with no fault that is repeated and no deadline that has expired. -/
  | fails {f : Fault} (h : limit ≤ taken) (hkind : f.kind ≠ .interrupted)
    (htimeout : f.isTimeout = false) : Bounded limit taken offered (.fail f)

/-- Whether a sink takes exactly `room` bytes more, in writes of any size, and flushes them. -/
structure HasRoom (sink : Sink) (room : Nat) : Prop where
  answers : ∀ call taken offered, 0 < offered →
    Bounded (sink.output.size + room) taken offered (sink.answer call taken offered)
  flushes : ∀ call taken, sink.flushFault call taken = none

variable {sink : Sink} {room : Nat}

/-- A sink that answers as before has the room that is left behind what it has taken. -/
private theorem HasRoom.after (h : sink.HasRoom room) {after : Sink}
    (hanswer : after.answer = sink.answer) (hflush : after.flushFault = sink.flushFault)
    {left : Nat} (hsize : after.output.size + left = sink.output.size + room) :
    after.HasRoom left where
  answers call taken offered hpos := by
    rw [hsize, hanswer]
    exact h.answers call taken offered hpos
  flushes call taken := by
    rw [hflush]
    exact h.flushes call taken

/-- Offering bytes does not change how a sink answers. -/
private theorem answer_offer (sink : Sink) (taken offered : Nat) :
    (sink.offer taken offered).2.2.answer = sink.answer ∧
      (sink.offer taken offered).2.2.flushFault = sink.flushFault := by
  fun_induction offer sink taken offered with
  | case1 => exact ⟨rfl, rfl⟩
  | case2 => exact ⟨rfl, rfl⟩
  | case3 sink taken offered hn called most ha n ih => exact ih
  | case4 sink taken offered hn called f ha hf ih => exact ih
  | case5 => exact ⟨rfl, rfl⟩

/-- What becomes of bytes that are offered to a sink with a limit: all of them are taken if they
fit, and otherwise the sink is filled and refuses. -/
private inductive Offered (limit wanted : Nat) : Option Fault × Nat → Prop
  | fits (h : wanted ≤ limit) : Offered limit wanted (none, wanted)
  | exceeds {f : Fault} (h : limit < wanted) (htimeout : f.isTimeout = false) :
    Offered limit wanted (some f, limit)

private theorem offered_of_room (h : sink.HasRoom room) (taken offered : Nat)
    (hle : taken ≤ sink.output.size + room) :
    Offered (sink.output.size + room) (taken + offered)
      ((sink.offer taken offered).1, (sink.offer taken offered).2.1) := by
  fun_induction offer sink taken offered with
  | case1 sink taken => exact .fits hle
  | case2 sink taken offered hn called ha =>
    have hanswer := h.answers sink.calls taken offered (Nat.pos_of_ne_zero hn)
    rw [ha] at hanswer
    cases hanswer with
    | nothing hfull =>
      obtain rfl := Nat.le_antisymm hle hfull
      exact .exceeds (by omega) rfl
  | case3 sink taken offered hn called most ha n ih =>
    have hanswer := h.answers sink.calls taken offered (Nat.pos_of_ne_zero hn)
    rw [ha] at hanswer
    cases hanswer with
    | takes hfits =>
      have hsum : taken + n + (offered - n) = taken + offered := by omega
      have hrest := ih ⟨h.answers, h.flushes⟩ hfits
      rw [hsum] at hrest
      exact hrest
  | case4 sink taken offered hn called f ha hf ih =>
    have hanswer := h.answers sink.calls taken offered (Nat.pos_of_ne_zero hn)
    rw [ha] at hanswer
    cases hanswer with
    | fails _ hkind => exact absurd hf.1 hkind
  | case5 sink taken offered hn called f ha hf =>
    have hanswer := h.answers sink.calls taken offered (Nat.pos_of_ne_zero hn)
    rw [ha] at hanswer
    cases hanswer with
    | fails hfull _ htimeout =>
      obtain rfl := Nat.le_antisymm hle hfull
      exact .exceeds (by omega) htimeout

/-- What becomes of bytes that are sent to a sink with room for `room` of them. -/
inductive Sent (sink : Sink) (room : Nat) (bs : Bytes) : Except Fault Unit × Sink → Prop
  /-- They fit, and are all taken. -/
  | fits {after : Sink} (h : bs.length ≤ room) (hroom : after.HasRoom (room - bs.length))
    (hout : after.output.toList = sink.output.toList ++ bs) : Sent sink room bs (.ok (), after)
  /-- They do not fit, and as many are taken as there is room for. -/
  | exceeds {f : Fault} {after : Sink} (h : room < bs.length) (htimeout : f.isTimeout = false)
    (hout : after.output.toList = sink.output.toList ++ bs.take room) :
    Sent sink room bs (.error f, after)

/-- What is sent to a sink with room is taken up to its room, and nothing else is. -/
theorem sent_of_room (h : sink.HasRoom room) (bs : Bytes) : Sent sink room bs (sink.send bs) := by
  obtain ⟨hanswer, hflush⟩ := answer_offer sink sink.output.size bs.length
  have hout := output_offer sink sink.output.size bs.length
  have hoffered := offered_of_room h sink.output.size bs.length (Nat.le_add_right ..)
  unfold send writeAll
  dsimp only
  generalize sink.offer sink.output.size bs.length = r at *
  obtain ⟨fault, taken, after⟩ := r
  dsimp only at hanswer hflush hout hoffered ⊢
  cases hoffered with
  | fits hle =>
    have htaken : bs.take (sink.output.size + bs.length - sink.output.size) = bs := by
      rw [Nat.add_sub_cancel_left, List.take_length]
    have houtput : (after.append bs).output.toList = sink.output.toList ++ bs := by
      rw [append, Array.toList_appendList, hout]
    have hsize : (after.append bs).output.size = sink.output.size + bs.length := by
      rw [← Array.length_toList, houtput, List.length_append, Array.length_toList]
    have hkept : (after.append bs).answer = sink.answer := hanswer
    have hroom : (after.append bs).HasRoom (room - bs.length) := by
      apply h.after hkept hflush
      omega
    rw [htaken]
    dsimp only
    rw [flush, hroom.flushes]
    exact .fits (Nat.le_of_add_le_add_left hle) hroom houtput
  | exceeds hlt htimeout =>
    rw [Nat.add_sub_cancel_left]
    refine .exceeds (Nat.lt_of_add_lt_add_left hlt) htimeout ?_
    rw [append, Array.toList_appendList, hout]

/-- A sink with a limit, which takes at least a byte in a write, has room up to its limit. -/
theorem hasRoom_bounded (limit : Nat) {short : Option Nat} (hshort : short ≠ some 0)
    {fault : Option Fault}
    (hfault : ∀ f, fault = some f → f.kind ≠ .interrupted ∧ f.isTimeout = false) :
    (bounded (some limit) short fault none).HasRoom limit where
  answers call taken offered hpos := by
    have hsize : (bounded (some limit) short fault none).output.size + limit = limit :=
      Nat.zero_add limit
    rw [hsize]
    unfold bounded
    dsimp only
    cases hroom : limit - taken with
    | zero =>
      have hfull : limit ≤ taken := Nat.le_of_sub_eq_zero hroom
      cases fault with
      | some f => exact .fails hfull (hfault f rfl).1 (hfault f rfl).2
      | none =>
        cases short with
        | none => exact .nothing hfull
        | some n =>
          show Bounded limit taken offered (.take (min n 0))
          rw [Nat.min_zero]
          exact .nothing hfull
    | succ room =>
      cases short with
      | none => exact .takes (by omega)
      | some n =>
        cases n with
        | zero => exact absurd rfl hshort
        | succ n =>
          show Bounded limit taken offered (.take (min (n + 1) (room + 1)))
          rw [Nat.add_min_add_right]
          exact .takes (by omega)
  flushes call taken := rfl

end ScriptedBolt.Sink
