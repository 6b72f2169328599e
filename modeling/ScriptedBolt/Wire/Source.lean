import ScriptedBolt.Bytes
import ScriptedBolt.Wire.Fault

/-!
# Sources of bytes

A source is what a peer will do, in order: deliver a piece of bytes, or make one read fail.
After that it is at its end. A read that is interrupted is repeated. What readers see depends
on the pieces only through the bytes before each fault; `bytes` is all that a source will
deliver.
-/

namespace ScriptedBolt

/-- One event of a source. -/
inductive Arrival where
  | deliver (piece : Bytes)
  | fail (fault : Fault)
  deriving DecidableEq, Repr

/-- What is still to come from a peer. -/
abbrev Source := List Arrival

namespace Source

/-- All the bytes still to come. -/
def bytes : Source → Bytes
  | [] => []
  | .deliver piece :: s => piece ++ bytes s
  | .fail _ :: s => bytes s

/-- How many bytes are still to come. -/
def remaining : Source → Nat
  | [] => 0
  | .deliver piece :: s => piece.length + remaining s
  | .fail _ :: s => remaining s

/-- The remaining bytes are counted. -/
theorem remaining_eq (s : Source) : remaining s = (bytes s).length := by
  fun_induction remaining s <;> simp_all [bytes]

/-- Reads one byte; nothing at the end of the source. -/
def readByte : Source → Except Fault (Option UInt8) × Source
  | [] => (.ok none, [])
  | .deliver [] :: s => readByte s
  | .deliver (b :: piece) :: s => (.ok (some b), .deliver piece :: s)
  | .fail f :: s => if f.kind = .interrupted then readByte s else (.error f, s)

/-- Reads exactly `n` bytes. Bytes read before a failure are gone. -/
def readExact (n : Nat) : Source → Except Fault Bytes × Source
  | [] => if n = 0 then (.ok [], []) else (.error .endOfInput, [])
  | .deliver piece :: s =>
    if Bytes.holds piece n then (.ok (piece.take n), .deliver (piece.drop n) :: s)
    else
      match readExact (n - piece.length) s with
      | (.ok more, rest) => (.ok (piece ++ more), rest)
      | (.error f, rest) => (.error f, rest)
  | .fail f :: s =>
    if n = 0 then (.ok [], .fail f :: s)
    else if f.kind = .interrupted then readExact n s
    else (.error f, s)

/-- The byte read is the first one to come. -/
theorem bytes_readByte {s rest : Source} {b : UInt8} (h : readByte s = (.ok (some b), rest)) :
    s.bytes = b :: rest.bytes := by
  fun_induction readByte s with
  | case1 => simp at h
  | case2 s ih => simpa [bytes] using ih h
  | case3 =>
    simp only [Prod.mk.injEq, Except.ok.injEq, Option.some.injEq] at h
    obtain ⟨rfl, rfl⟩ := h
    simp [bytes]
  | case4 f s hf ih => simpa [bytes] using ih h
  | case5 => simp at h

/-- The bytes read are the first ones to come, as many as were asked for. -/
theorem bytes_readExact {n : Nat} {s rest : Source} {bs : Bytes}
    (h : readExact n s = (.ok bs, rest)) : s.bytes = bs ++ rest.bytes ∧ bs.length = n := by
  fun_induction readExact n s generalizing bs with
  | case1 => simp_all [bytes]
  | case2 => simp at h
  | case3 n piece s hn =>
    simp only [Prod.mk.injEq, Except.ok.injEq] at h
    obtain ⟨rfl, rfl⟩ := h
    simp only [bytes, List.length_take]
    rw [← List.append_assoc, List.take_append_drop]
    have := (Bytes.holds_iff piece n).mp hn
    exact ⟨rfl, by omega⟩
  | case4 n piece s hn more r hr ih =>
    simp only [Prod.mk.injEq, Except.ok.injEq] at h
    obtain ⟨rfl, rfl⟩ := h
    obtain ⟨e, l⟩ := ih hr
    have := mt (Bytes.holds_iff piece n).mpr hn
    simp only [bytes, e, List.length_append, List.append_assoc]
    exact ⟨trivial, by omega⟩
  | case5 => simp at h
  | case6 =>
    simp only [Prod.mk.injEq, Except.ok.injEq] at h
    obtain ⟨rfl, rfl⟩ := h
    simp
  | case7 n f s hn hf ih => simpa [bytes] using ih h
  | case8 => simp at h

end Source

end ScriptedBolt
