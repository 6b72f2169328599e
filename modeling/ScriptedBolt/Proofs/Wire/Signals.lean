import ScriptedBolt.Wire.Source

/-!
# What readers can tell

A peer cuts what it sends into pieces of its own choice, and its reads may be interrupted. Neither
is anything that readers can tell: all they get to know are the signals of a source, which are its
bytes one by one and the faults between them that end a read. `readByte` and `readExact` are given
in terms of the signals alone. It follows that readers do not tell sources with the same signals
apart (`Source.Indifferent`), and that the same signals are left behind them.
-/

namespace ScriptedBolt

/-- What a reader can get from a source. -/
inductive Signal where
  | byte (b : UInt8)
  | fault (f : Fault)
  deriving DecidableEq, Repr

namespace Signal

/-- The byte, if it is one. -/
def byte? : Signal → Option UInt8
  | byte b => some b
  | fault _ => none

/-- Takes a byte from the front; nothing at the end. -/
def takeByte : List Signal → Except Fault (Option UInt8) × List Signal
  | [] => (.ok none, [])
  | byte b :: signals => (.ok (some b), signals)
  | fault f :: signals => (.error f, signals)

/-- Takes exactly `n` bytes from the front. -/
def takeExact : Nat → List Signal → Except Fault Bytes × List Signal
  | 0, signals => (.ok [], signals)
  | _ + 1, [] => (.error .endOfInput, [])
  | n + 1, byte b :: signals =>
    match takeExact n signals with
    | (.ok more, rest) => (.ok (b :: more), rest)
    | (.error f, rest) => (.error f, rest)
  | _ + 1, fault f :: signals => (.error f, signals)

private theorem takeExact_append (piece : Bytes) (n : Nat) (signals : List Signal) :
    takeExact (piece.length + n) (piece.map byte ++ signals) =
      ((takeExact n signals).1.map (piece ++ ·), (takeExact n signals).2) := by
  induction piece with
  | nil =>
    rw [List.length_nil, Nat.zero_add, List.map_nil, List.nil_append]
    generalize takeExact n signals = taken
    obtain ⟨result, rest⟩ := taken
    cases result <;> rfl
  | cons b piece ih =>
    rw [List.length_cons, Nat.add_right_comm, List.map_cons, List.cons_append, takeExact, ih]
    generalize takeExact n signals = taken
    obtain ⟨result, rest⟩ := taken
    cases result <;> rfl

private theorem takeExact_of_le {piece : Bytes} {n : Nat} (h : n ≤ piece.length)
    (signals : List Signal) : takeExact n (piece.map byte ++ signals) =
      (.ok (piece.take n), (piece.drop n).map byte ++ signals) := by
  have hsplit := takeExact_append (piece.take n) 0 ((piece.drop n).map byte ++ signals)
  rw [List.length_take, Nat.min_eq_left h, ← List.append_assoc, ← List.map_append,
    List.take_append_drop] at hsplit
  rw [← Nat.add_zero n, hsplit]
  simp [takeExact, Except.map]

end Signal

namespace Source

/-- The signals of a source, whose pieces and interruptions are not among them. -/
def signals : Source → List Signal
  | [] => []
  | .deliver piece :: s => piece.map .byte ++ signals s
  | .fail f :: s => if f.kind = .interrupted then signals s else .fault f :: signals s

/-- The bytes of a source are those among its signals. -/
theorem bytes_eq_filterMap (s : Source) : s.bytes = s.signals.filterMap Signal.byte? := by
  induction s with
  | nil => rfl
  | cons event s ih =>
    cases event with
    | deliver piece =>
      have hpiece : (piece.map Signal.byte).filterMap Signal.byte? = piece := by
        rw [List.filterMap_map]
        exact List.filterMap_some
      rw [bytes, signals, List.filterMap_append, hpiece, ih]
    | fail f =>
      rw [bytes, signals, ih]
      split
      · rfl
      · exact (List.filterMap_cons_none rfl).symm

/-- A byte is read as it is taken from the signals. -/
theorem readByte_signals (s : Source) :
    Signal.takeByte s.signals = (s.readByte.1, s.readByte.2.signals) := by
  fun_induction readByte s with
  | case1 => rfl
  | case2 s ih => exact ih
  | case3 => rfl
  | case4 f s hf ih =>
    rw [signals, if_pos hf]
    exact ih
  | case5 f s hf =>
    rw [signals, if_neg hf]
    rfl

/-- Bytes are read as they are taken from the signals. -/
theorem readExact_signals (n : Nat) (s : Source) :
    Signal.takeExact n s.signals = ((s.readExact n).1, (s.readExact n).2.signals) := by
  fun_induction readExact n s with
  | case1 => rfl
  | case2 n hn =>
    obtain ⟨n, rfl⟩ := Nat.exists_eq_succ_of_ne_zero hn
    rfl
  | case3 n piece s hn =>
    exact Signal.takeExact_of_le ((Bytes.holds_iff piece n).mp hn) (signals s)
  | case4 n piece s hn more rest hr ih =>
    have hle := Nat.le_of_not_le (mt (Bytes.holds_iff piece n).mpr hn)
    rw [hr] at ih
    rw [signals, ← Nat.add_sub_of_le hle, Signal.takeExact_append, ih]
    rfl
  | case5 n piece s hn f rest hr ih =>
    have hle := Nat.le_of_not_le (mt (Bytes.holds_iff piece n).mpr hn)
    rw [hr] at ih
    rw [signals, ← Nat.add_sub_of_le hle, Signal.takeExact_append, ih]
    rfl
  | case6 => rfl
  | case7 n f s hn hf ih =>
    rw [signals, if_pos hf]
    exact ih
  | case8 n f s hn hf =>
    obtain ⟨n, rfl⟩ := Nat.exists_eq_succ_of_ne_zero hn
    rw [signals, if_neg hf]
    rfl

/-- Sources with the same signals have the same bytes. -/
theorem bytes_of_signals {s s' : Source} (h : s.signals = s'.signals) : s.bytes = s'.bytes := by
  rw [bytes_eq_filterMap, h, ← bytes_eq_filterMap]

/-- Whether a reader gets the same from sources with the same signals, and leaves them so. -/
def Indifferent {α : Type} (read : Source → α × Source) : Prop :=
  ∀ s s' : Source, s.signals = s'.signals →
    ∃ a rest rest', read s = (a, rest) ∧ read s' = (a, rest') ∧ rest.signals = rest'.signals

private theorem indifferent_of_signals {α : Type} {read : Source → α × Source}
    {take : List Signal → α × List Signal}
    (h : ∀ s, take s.signals = ((read s).1, (read s).2.signals)) : Indifferent read := by
  intro s s' hs
  have hseen := h s
  rw [hs, h s'] at hseen
  obtain ⟨ha, hrest⟩ := Prod.mk.inj hseen
  exact ⟨_, (read s).2, (read s').2, rfl, Prod.ext ha rfl, hrest.symm⟩

/-- Reading a byte does not tell how bytes are cut. -/
theorem indifferent_readByte : Indifferent readByte := indifferent_of_signals readByte_signals

/-- Reading bytes does not tell how they are cut. -/
theorem indifferent_readExact (n : Nat) : Indifferent (readExact n) :=
  indifferent_of_signals (readExact_signals n)

end Source

end ScriptedBolt
