/-!
# Byte sequences and big-endian numbers

A byte sequence is a list of bytes, first byte first. Numbers are written with the most
significant byte first, in a width that the caller chooses; reading a written number gives
it back modulo the range of that width (`toNat_ofNat`).
-/

namespace ScriptedBolt

-- Powers are those of core, whatever else is imported.
attribute [local instance (2000)] instPowNat

/-- A finite sequence of bytes, first byte first. -/
abbrev Bytes := List UInt8

namespace Bytes

/-- Whether at least `n` bytes are there; looks at no more than `n` of them. -/
def holds : Bytes → Nat → Bool
  | _, 0 => true
  | [], _ + 1 => false
  | _ :: bs, n + 1 => holds bs n

/-- Holding `n` bytes is having a length of at least `n`. -/
theorem holds_iff (bs : Bytes) (n : Nat) : holds bs n = true ↔ n ≤ bs.length := by
  induction bs generalizing n with
  | nil => cases n <;> simp [holds]
  | cons b bs ih => cases n <;> simp [holds, ih]

/-- The number whose digits in base 256 are the bytes, most significant first. -/
def toNat (bs : Bytes) : Nat := bs.foldl (fun n b ↦ n * 256 + b.toNat) 0

/-- The lowest `width` digits of a number in base 256, most significant first. -/
def ofNat : (width : Nat) → Nat → Bytes
  | 0, _ => []
  | width + 1, n => UInt8.ofNat (n / 256 ^ width) :: ofNat width n

/-- The number that the bytes stand for in two's complement. -/
def toInt (bs : Bytes) : Int := (toNat bs : Int).bmod (256 ^ bs.length)

/-- A number in two's complement of the given width. -/
def ofInt (width : Nat) (i : Int) : Bytes := ofNat width (i % (256 ^ width : Nat)).toNat

/-- A number takes exactly the chosen width. -/
@[simp]
theorem length_ofNat (width n : Nat) : (ofNat width n).length = width := by
  induction width with
  | zero => rfl
  | succ width ih => simp [ofNat, ih]

/-- A number in two's complement takes exactly the chosen width. -/
@[simp]
theorem length_ofInt (width : Nat) (i : Int) : (ofInt width i).length = width :=
  length_ofNat width _

private theorem foldl_digits (bs : Bytes) (n : Nat) :
    bs.foldl (fun n b ↦ n * 256 + b.toNat) n = n * 256 ^ bs.length + toNat bs := by
  induction bs generalizing n with
  | nil => simp [toNat]
  | cons b bs ih =>
    simp only [List.foldl_cons, List.length_cons, toNat]
    rw [ih, ih]
    simp only [Nat.zero_mul, Nat.zero_add, Nat.pow_succ, Nat.add_mul]
    rw [Nat.mul_assoc, Nat.mul_comm 256, Nat.add_assoc]

/-- The first byte weighs 256 to the number of bytes after it. -/
theorem toNat_cons (b : UInt8) (bs : Bytes) :
    toNat (b :: bs) = b.toNat * 256 ^ bs.length + toNat bs := by
  simp [toNat, foldl_digits bs b.toNat]

/-- Reading a written number gives it back modulo the range of the width. -/
theorem toNat_ofNat (width n : Nat) : toNat (ofNat width n) = n % 256 ^ width := by
  induction width with
  | zero => simp [ofNat, toNat, Nat.mod_one]
  | succ width ih =>
    have e : n % 256 ^ (width + 1) = n % 256 ^ width + 256 ^ width * (n / 256 ^ width % 256) := by
      rw [Nat.pow_succ, Nat.mod_mul]
    rw [ofNat, toNat_cons, ih, length_ofNat, UInt8.toNat_ofNat', e, Nat.mul_comm, Nat.add_comm]

/-- A number of given bytes is below the range of their width. -/
theorem toNat_lt (bs : Bytes) : toNat bs < 256 ^ bs.length := by
  induction bs with
  | nil => simp [toNat]
  | cons b bs ih =>
    have hb := b.toNat_lt
    have hle : b.toNat * 256 ^ bs.length ≤ 255 * 256 ^ bs.length :=
      Nat.mul_le_mul_right _ (by omega)
    rw [toNat_cons, List.length_cons, Nat.pow_succ]
    omega

/-- Digits beyond the width make no difference. -/
theorem ofNat_mod {width k : Nat} (n : Nat) (h : width ≤ k) :
    ofNat width (n % 256 ^ k) = ofNat width n := by
  induction width with
  | zero => rfl
  | succ width ih =>
    obtain ⟨j, rfl⟩ : ∃ j, k = width + (j + 1) := ⟨k - width - 1, by omega⟩
    rw [ofNat, ofNat, ih (by omega)]
    congr 1
    apply UInt8.toNat_inj.mp
    rw [UInt8.toNat_ofNat', UInt8.toNat_ofNat', Nat.pow_add, Nat.mod_mul_right_div_self,
      Nat.pow_succ, Nat.mul_comm (256 ^ j)]
    exact Nat.mod_mul_right_mod ..

/-- Writing a number that was read gives back its bytes. -/
theorem ofNat_toNat (bs : Bytes) : ofNat bs.length (toNat bs) = bs := by
  induction bs with
  | nil => rfl
  | cons b bs ih =>
    have hlt := toNat_lt bs
    have hpos : 0 < 256 ^ bs.length := Nat.pow_pos (by decide)
    have hdiv : toNat (b :: bs) / 256 ^ bs.length = b.toNat := by
      rw [toNat_cons, Nat.mul_comm, Nat.mul_add_div hpos, Nat.div_eq_of_lt hlt, Nat.add_zero]
    have hmod : toNat (b :: bs) % 256 ^ bs.length = toNat bs := by
      rw [toNat_cons, Nat.mul_add_mod_of_lt hlt]
    rw [List.length_cons, ofNat, hdiv, UInt8.ofNat_toNat,
      ← ofNat_mod (toNat (b :: bs)) (Nat.le_refl _), hmod, ih]

/-- Reading a number in two's complement gives it back, if it is in the range of the width. -/
theorem toInt_ofInt {width : Nat} {i : Int} (hlow : -(256 ^ width : Nat) ≤ 2 * i)
    (hhigh : 2 * i < (256 ^ width : Nat)) : toInt (ofInt width i) = i := by
  have hpos : 0 < 256 ^ width := Nat.pow_pos (by decide)
  rw [toInt, length_ofInt, ofInt, toNat_ofNat]
  generalize 256 ^ width = m at *
  have hnonneg : 0 ≤ i % (m : Int) := Int.emod_nonneg _ (by omega)
  rw [Int.natCast_emod, Int.toNat_of_nonneg hnonneg, Int.emod_bmod, Int.emod_bmod]
  exact Int.bmod_eq_of_le_mul_two (by omega) (by omega)

end Bytes

end ScriptedBolt
