import ScriptedBolt.Frame
import ScriptedBolt.Handshake

/-!
# Deadlines that expire

A deadline expires in a read when the source makes that read fail so. Each such failure of a source
is met by one read at most, and the reader that meets it stops there, with an error that still says
what has happened. So the deadlines that have expired are counted by the source: those that were to
come before a reader, less those to come after it, are the one that its result tells of, or none.
-/

namespace ScriptedBolt

/-- How many deadlines have expired when something comes to a result: one or none. -/
def expired {ε α : Type} (isTimeout : ε → Bool) : Except ε α → Nat
  | .ok _ => 0
  | .error e => (isTimeout e).toNat

/-- An interruption is no deadline that expires. -/
theorem Fault.isTimeout_of_interrupted {f : Fault} (h : f.kind = .interrupted) :
    f.isTimeout = false := by
  simp [isTimeout, h]

namespace Source

/-- How many reads are to come that fail because a deadline expires. -/
def expiries : Source → Nat
  | [] => 0
  | .deliver _ :: s => expiries s
  | .fail f :: s => expiries s + f.isTimeout.toNat

variable {s rest : Source}

/-- Reading a byte meets the deadline that it fails for. -/
theorem expiries_of_readByte {result : Except Fault (Option UInt8)}
    (h : s.readByte = (result, rest)) :
    s.expiries = rest.expiries + expired Fault.isTimeout result := by
  fun_induction readByte s with
  | case2 s ih => exact ih h
  | case4 f s hf ih =>
    rw [expiries, Fault.isTimeout_of_interrupted hf]
    exact ih h
  | _ =>
    obtain ⟨rfl, rfl⟩ := Prod.mk.inj h
    rfl

/-- Reading bytes meets the deadline that it fails for. -/
theorem expiries_of_readExact {n : Nat} {result : Except Fault Bytes}
    (h : s.readExact n = (result, rest)) :
    s.expiries = rest.expiries + expired Fault.isTimeout result := by
  fun_induction readExact n s generalizing result with
  | case4 n piece s hn more after hr ih =>
    obtain ⟨rfl, rfl⟩ := Prod.mk.inj h
    have hrest := ih hr
    exact hrest
  | case5 n piece s hn f after hr ih =>
    obtain ⟨rfl, rfl⟩ := Prod.mk.inj h
    exact ih hr
  | case7 n f s hn hf ih =>
    rw [expiries, Fault.isTimeout_of_interrupted hf]
    exact ih h
  | _ =>
    obtain ⟨rfl, rfl⟩ := Prod.mk.inj h
    rfl

end Source

variable {s rest : Source}

/-! ### The handshake -/

/-- A fault in the handshake is still told as the deadline that has expired, if it is one. -/
theorem Handshake.isTimeout_closedBy (f : Fault) : (closedBy f).isTimeout = f.isTimeout := by
  unfold closedBy
  split
  · next h => simp [Error.isTimeout, Fault.isTimeout, h]
  · rfl

/-- Reading the opening meets the deadline that it fails for. -/
theorem Handshake.expiries_of_read {result : Except Error Proposals}
    (h : Handshake.read s = (result, rest)) :
    s.expiries = rest.expiries + expired Error.isTimeout result := by
  unfold Handshake.read at h
  split at h
  · next f _ hx =>
    obtain ⟨rfl, rfl⟩ := Prod.mk.inj h
    rw [Source.expiries_of_readExact hx, expired, expired, isTimeout_closedBy]
  · next hx =>
    rw [Source.expiries_of_readExact hx]
    split at h
    · split at h
      · next hy =>
        obtain ⟨rfl, rfl⟩ := Prod.mk.inj h
        rw [Source.expiries_of_readExact hy, expired, expired, expired, isTimeout_closedBy]
        rfl
      · next hy =>
        obtain ⟨rfl, rfl⟩ := Prod.mk.inj h
        exact Source.expiries_of_readExact hy
    · obtain ⟨rfl, rfl⟩ := Prod.mk.inj h
      rfl

/-! ### Frames -/

namespace Frame

/-- A fault in a frame is still told as the deadline that has expired, if it is one. -/
theorem isTimeout_cutBy (f : Fault) : (cutBy f).isTimeout = f.isTimeout := by
  unfold cutBy
  split
  · next h => simp [Error.isTimeout, Fault.isTimeout, h]
  · rfl

/-- Reading a length meets the deadline that it fails for. -/
theorem expiries_of_readLength {atStart : Bool} {result : Except Error (Option Nat)}
    (h : readLength atStart s = (result, rest)) :
    s.expiries = rest.expiries + expired Error.isTimeout result := by
  unfold readLength at h
  split at h
  · split at h
    · next hb =>
      obtain ⟨rfl, rfl⟩ := Prod.mk.inj h
      exact Source.expiries_of_readByte hb
    · next hb =>
      obtain ⟨rfl, rfl⟩ := Prod.mk.inj h
      exact Source.expiries_of_readByte hb
    · next hb =>
      rw [Source.expiries_of_readByte hb]
      split at h
      · next hx =>
        obtain ⟨rfl, rfl⟩ := Prod.mk.inj h
        rw [Source.expiries_of_readExact hx, expired, expired, expired, isTimeout_cutBy]
        rfl
      · next hx =>
        obtain ⟨rfl, rfl⟩ := Prod.mk.inj h
        exact Source.expiries_of_readExact hx
  · split at h
    · next hx =>
      obtain ⟨rfl, rfl⟩ := Prod.mk.inj h
      rw [Source.expiries_of_readExact hx, expired, expired, isTimeout_cutBy]
    · next hx =>
      obtain ⟨rfl, rfl⟩ := Prod.mk.inj h
      exact Source.expiries_of_readExact hx

/-- Reading chunks meets the deadline that it fails for. -/
theorem expiries_readChunks (limit count : Nat) (chunks : List Bytes) (size : Nat) (s : Source) :
    s.expiries = (readChunks limit count chunks size s).rest.expiries +
      expired Error.isTimeout (readChunks limit count chunks size s).result := by
  fun_induction readChunks limit count chunks size s with
  | case1 count chunks size s e rest hl => exact expiries_of_readLength hl
  | case2 count chunks size s rest hl => exact expiries_of_readLength hl
  | case3 count chunks size s rest hl hlt hempty ih =>
    rw [expiries_of_readLength hl]
    exact ih
  | case4 count chunks size s rest hl => exact expiries_of_readLength hl
  | case5 count chunks size s n rest hl => exact expiries_of_readLength hl
  | case6 count chunks size s n rest hl hlim f after hx =>
    rw [expiries_of_readLength hl, Source.expiries_of_readExact hx, expired, expired, expired,
      isTimeout_cutBy]
    rfl
  | case7 count chunks size s n rest hl hlim chunk after hx hlt hchunk ih =>
    rw [expiries_of_readLength hl, Source.expiries_of_readExact hx]
    exact ih

/-- What is made of a payload is never a deadline that has expired. -/
theorem expired_ofPayload (v : Version) (role : Role) (payload : Bytes) :
    expired Error.isTimeout ((Message.ofPayload v role payload).map some) = 0 := by
  unfold Message.ofPayload
  split
  · rfl
  · split <;> rfl
  · rfl

/-- Reading a message meets the deadline that it fails for. -/
theorem expiries_readMessage (v : Version) (role : Role) (limit : Nat) (s : Source) :
    s.expiries = (readMessage v role limit s).rest.expiries +
      expired Error.isTimeout (readMessage v role limit s).result := by
  have h := expiries_readChunks limit 0 [] 0 s
  unfold readMessage read
  generalize readChunks limit 0 [] 0 s = received at *
  rcases received with ⟨e | _ | payload, count, rest⟩
  · exact h
  · exact h
  · dsimp only
    rw [expired_ofPayload]
    exact h

end Frame

end ScriptedBolt
