import ScriptedBolt.Error

/-!
# Programs on a buffer

A program works on a buffer by accesses that nobody checks: it takes bytes from the front, views
them, skips them, or makes room for items. An access that reaches beyond the end of the buffer
breaks the program off, and room is made however much is asked for; so a program has to find out
first how many bytes are left. A run logs its accesses, each with the number of bytes left at that
point. A program sees nothing of the buffer but what its accesses show, and the bytes that are gone
in the end are those that its accesses have taken (`taken_run`).
-/

namespace ScriptedBolt.PackStream

/-- What a program asks of a buffer without a check. -/
inductive Access where
  /-- To take the next bytes. -/
  | take (width : Nat)
  /-- To view the next bytes, which stay. -/
  | view (size : Nat)
  /-- To skip the next bytes. -/
  | skip (size : Nat)
  /-- To make room for items. -/
  | reserve (capacity : Nat)
  deriving DecidableEq, Repr

namespace Access

/-- How much is asked for. -/
def amount : Access → Nat
  | take n => n
  | view n => n
  | skip n => n
  | reserve n => n

/-- How far the access reaches into the buffer. Beyond its end, the access breaks. -/
def reach : Access → Nat
  | reserve _ => 0
  | access => access.amount

/-- How many bytes are gone after the access. -/
def taken : Access → Nat
  | view _ => 0
  | access => access.reach

/-- The bytes that the access shows. -/
def shown (bytes : Bytes) : Access → Bytes
  | take n => bytes.take n
  | view n => bytes.take n
  | skip _ => []
  | reserve _ => []

/-- An access reaches no farther than it asks for. -/
theorem reach_le_amount (access : Access) : access.reach ≤ access.amount := by
  cases access with
  | reserve n => exact Nat.zero_le _
  | _ => exact Nat.le_refl _

/-- An access takes no bytes that it does not reach. -/
theorem taken_le_reach (access : Access) : access.taken ≤ access.reach := by
  cases access with
  | view n => exact Nat.zero_le _
  | _ => exact Nat.le_refl _

end Access

/-- How a run ends. -/
inductive Ending (α : Type) where
  | value (a : α)
  | error (e : Error)
  /-- An access reached beyond the end of the buffer. -/
  | broken

/-- A run of a program: its end, the bytes that are left, and its accesses in order, each with the
number of bytes that were left when it was made. -/
structure Run (α : Type) where
  ending : Ending α
  rest : Bytes
  log : List (Access × Nat)

namespace Run

variable {α β : Type}

/-- A run with an access before it. -/
def after (access : Access) (left : Nat) (run : Run α) : Run α :=
  { run with log := (access, left) :: run.log }

/-- A run, and the one that goes on from its value with the bytes that are left. -/
def andThen (run : Run α) (next : α → Bytes → Run β) : Run β :=
  match run.ending with
  | .value a => { next a run.rest with log := run.log ++ (next a run.rest).log }
  | .error e => ⟨.error e, run.rest, run.log⟩
  | .broken => ⟨.broken, run.rest, run.log⟩

/-- Whether no access asks for more than there are bytes left. -/
def InBounds (run : Run α) : Prop :=
  ∀ access left, (access, left) ∈ run.log → access.amount ≤ left

/-- How many bytes the accesses have taken. -/
def taken (run : Run α) : Nat := run.log.foldr (fun entry n ↦ entry.1.taken + n) 0

/-- A run stays within bounds if its first access and what comes after it do. -/
theorem inBounds_after_iff {access : Access} {left : Nat} {run : Run α} :
    (run.after access left).InBounds ↔ access.amount ≤ left ∧ run.InBounds := by
  simp only [InBounds, after, List.mem_cons, Prod.mk.injEq]
  constructor
  · intro h
    exact ⟨h access left (.inl ⟨rfl, rfl⟩), fun other left' hmem ↦ h other left' (.inr hmem)⟩
  · rintro ⟨hfirst, hlater⟩ other left' (⟨rfl, rfl⟩ | hmem)
    · exact hfirst
    · exact hlater other left' hmem

/-- The first access stays the first when a run goes on. -/
theorem after_andThen (access : Access) (left : Nat) (run : Run α) (next : α → Bytes → Run β) :
    (run.after access left).andThen next = (run.andThen next).after access left := by
  obtain ⟨ending, rest, log⟩ := run
  cases ending <;> rfl

end Run

/-- A program on a buffer. -/
inductive Program (α : Type) where
  | done (a : α)
  | fail (e : Error)
  /-- Finds out how many bytes are left. -/
  | remaining (next : Nat → Program α)
  | ask (access : Access) (next : Bytes → Program α)

namespace Program

variable {α β : Type}

/-- One program and, from its value, the next one. -/
def bind : Program α → (α → Program β) → Program β
  | done a, next => next a
  | fail e, _ => fail e
  | remaining more, next => remaining fun left ↦ (more left).bind next
  | ask access more, next => ask access fun bytes ↦ (more bytes).bind next

instance : Monad Program where
  pure := done
  bind := bind

/-- Runs a program on a buffer with the given bytes. -/
def run : Program α → Bytes → Run α
  | done a, bytes => ⟨.value a, bytes, []⟩
  | fail e, bytes => ⟨.error e, bytes, []⟩
  | remaining next, bytes => (next bytes.length).run bytes
  | ask access next, bytes =>
    Run.after access bytes.length <|
      if access.reach ≤ bytes.length then
        (next (access.shown bytes)).run (bytes.drop access.taken)
      else ⟨.broken, bytes, []⟩

/-- One program runs after the other. -/
theorem run_bind (program : Program α) (next : α → Program β) (bytes : Bytes) :
    (program >>= next).run bytes = (program.run bytes).andThen fun a ↦ (next a).run := by
  show (program.bind next).run bytes = _
  induction program generalizing bytes with
  | done a => rfl
  | fail e => rfl
  | remaining more ih => exact ih bytes.length bytes
  | ask access more ih =>
    simp only [bind, run, Run.after_andThen]
    split
    · rw [ih]
    · rfl

/-- Whatever a program does, it leaves the bytes at the end of the buffer. -/
theorem rest_run (program : Program α) (bytes : Bytes) : (program.run bytes).rest <:+ bytes := by
  induction program generalizing bytes with
  | done a => exact List.suffix_rfl
  | fail e => exact List.suffix_rfl
  | remaining next ih => exact ih bytes.length bytes
  | ask access next ih =>
    rw [run]
    split
    · exact (ih _ _).trans (List.drop_suffix ..)
    · exact List.suffix_rfl

/-- Unless a program breaks off, the bytes that are gone are those that its accesses have taken. -/
theorem taken_run (program : Program α) (bytes : Bytes)
    (h : (program.run bytes).ending ≠ .broken) :
    (program.run bytes).taken + (program.run bytes).rest.length = bytes.length := by
  induction program generalizing bytes with
  | done a => exact Nat.zero_add _
  | fail e => exact Nat.zero_add _
  | remaining next ih => exact ih bytes.length bytes h
  | ask access next ih =>
    rw [run] at h ⊢
    split at h
    · next hreach =>
      rw [if_pos hreach]
      have hlater := ih _ _ h
      have htaken := access.taken_le_reach
      rw [List.length_drop] at hlater
      simp only [Run.taken, Run.after, List.foldr_cons] at hlater ⊢
      omega
    · exact absurd rfl h

/-! ### Accesses as programs -/

/-- Takes the next bytes. -/
def take (width : Nat) : Program Bytes := ask (.take width) done

/-- Views the next bytes. -/
def view (size : Nat) : Program Bytes := ask (.view size) done

/-- Skips the next bytes. -/
def skip (size : Nat) : Program Unit := ask (.skip size) fun _ ↦ done ()

/-- Makes room for items. -/
def reserve (capacity : Nat) : Program Unit := ask (.reserve capacity) fun _ ↦ done ()

end Program

end ScriptedBolt.PackStream
