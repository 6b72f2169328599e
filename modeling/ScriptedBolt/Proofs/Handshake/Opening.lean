import ScriptedBolt.Handshake
import ScriptedBolt.Proofs.Wire.Delivery

/-!
# The opening of a client

A client has made its opening when the magic and four words are ready. `opening?` says what it
then proposes, and `Spoilt` in which ways an opening is not made; reading succeeds and fails
accordingly (`read_of_opening`, `read_of_spoilt`).
-/

namespace ScriptedBolt.Handshake

/-- The bytes of four words. -/
def Proposals.bytes (p : Proposals) : Bytes := p.words.flatMap wordBytes

private theorem wordBytes_ofNat {bytes : Bytes} (h : bytes.length = 4) :
    wordBytes (UInt32.ofNat bytes.toNat) = bytes := by
  have hlt := Bytes.toNat_lt bytes
  have heq := Bytes.ofNat_toNat bytes
  rw [h] at hlt heq
  have hnat : (UInt32.ofNat bytes.toNat).toNat = bytes.toNat := by
    rw [UInt32.toNat_ofNat']
    exact Nat.mod_eq_of_lt hlt
  rw [wordBytes, hnat, heq]

private theorem ofNat_wordBytes (word : UInt32) :
    UInt32.ofNat (wordBytes word).toNat = word := by
  have hlt : word.toNat < Nat.pow 256 4 := word.toNat_lt
  have hnat : (wordBytes word).toNat = word.toNat := by
    rw [wordBytes, Bytes.toNat_ofNat]
    exact Nat.mod_eq_of_lt hlt
  rw [hnat, UInt32.ofNat_toNat]

private theorem length_wordBytes (word : UInt32) : (wordBytes word).length = 4 :=
  Bytes.length_ofNat 4 _

/-- Words are told apart by their bytes. -/
theorem wordBytes_injective : Function.Injective wordBytes := by
  intro word other h
  rw [← ofNat_wordBytes word, h, ofNat_wordBytes]

/-- Sixteen bytes are the bytes of the proposals in them. -/
theorem Proposals.bytes_ofBytes {bytes : Bytes} (h : bytes.length = 16) :
    (ofBytes bytes).bytes = bytes := by
  have word (i : Nat) (hi : i < 4) :
      wordBytes (wordAt i bytes) = (bytes.drop (4 * i)).take 4 := by
    apply wordBytes_ofNat
    rw [List.length_take, List.length_drop]
    omega
  have split (i : Nat) :
      (bytes.drop (4 * i)).take 4 ++ bytes.drop (4 * (i + 1)) = bytes.drop (4 * i) := by
    rw [Nat.mul_succ, ← List.drop_drop, List.take_append_drop]
  have hend : bytes.drop (4 * 4) = [] := List.drop_of_length_le (by omega)
  show wordBytes (wordAt 0 bytes) ++ (wordBytes (wordAt 1 bytes) ++
    (wordBytes (wordAt 2 bytes) ++ (wordBytes (wordAt 3 bytes) ++ []))) = bytes
  rw [word 0 (by omega), word 1 (by omega), word 2 (by omega), word 3 (by omega), ← hend, split 3,
    split 2, split 1, split 0]
  rfl

/-- Four words take sixteen bytes. -/
theorem Proposals.length_bytes (p : Proposals) : p.bytes.length = 16 := by
  simp [bytes, words, length_wordBytes]

/-- The proposals in the bytes of four words are these words. -/
theorem Proposals.ofBytes_bytes (p : Proposals) : ofBytes p.bytes = p := by
  obtain ⟨first, second, third, fourth⟩ := p
  have word (before after : Bytes) (i : Nat) (w : UInt32) (h : before.length = 4 * i) :
      wordAt i (before ++ (wordBytes w ++ after)) = w := by
    rw [wordAt, ← h, List.drop_left, ← length_wordBytes w, List.take_left, ofNat_wordBytes]
  have hbytes : (⟨first, second, third, fourth⟩ : Proposals).bytes =
      wordBytes first ++ (wordBytes second ++ (wordBytes third ++ (wordBytes fourth ++ []))) := rfl
  rw [hbytes, ofBytes, Proposals.mk.injEq]
  refine ⟨word [] _ 0 first rfl, word _ _ 1 second (length_wordBytes first), ?_, ?_⟩
  · rw [← List.append_assoc]
    apply word
    simp [length_wordBytes]
  · rw [← List.append_assoc, ← List.append_assoc]
    apply word
    simp [length_wordBytes]

/-- What a client proposes, once its magic and its four words are ready. -/
def opening? (s : Source) : Option Proposals :=
  if s.ready.take 4 = magic ∧ 20 ≤ s.ready.length then
    some (.ofBytes ((s.ready.drop 4).take 16))
  else none

/-- How an opening is not made, and the error for it. -/
inductive Spoilt (s : Source) : Error → Prop
  /-- The source stops in the magic. -/
  | cutInMagic (h : s.ready.length < 4) : Spoilt s (closedBy s.stop)
  /-- The first bytes are not the magic. -/
  | badMagic (h : 4 ≤ s.ready.length) (hm : s.ready.take 4 ≠ magic) :
    Spoilt s (.handshake (.badMagic (s.ready.take 4)))
  /-- The source stops in the words. -/
  | cutInWords (hm : s.ready.take 4 = magic) (h : s.ready.length < 20) :
    Spoilt s (closedBy s.stop)

variable {s : Source}

private theorem length_of_magic (hm : s.ready.take 4 = magic) : 4 ≤ s.ready.length := by
  have hlen := congrArg List.length hm
  rw [List.length_take] at hlen
  change min 4 s.ready.length = 4 at hlen
  omega

/-- An opening is made or it is spoilt. -/
theorem opening?_eq_none_iff : opening? s = none ↔ ∃ e, Spoilt s e := by
  unfold opening?
  constructor
  · intro h
    by_cases hlen : s.ready.length < 4
    · exact ⟨_, .cutInMagic hlen⟩
    · by_cases hm : s.ready.take 4 = magic
      · by_cases hw : s.ready.length < 20
        · exact ⟨_, .cutInWords hm hw⟩
        · simp [hm, Nat.le_of_not_lt hw] at h
      · exact ⟨_, .badMagic (Nat.le_of_not_lt hlen) hm⟩
  · rintro ⟨e, h⟩
    apply if_neg
    rintro ⟨hm, hlen⟩
    cases h with
    | cutInMagic h => omega
    | badMagic h hne => exact hne hm
    | cutInWords hm h => omega

/-- An opening that is made is read, and nothing after it. -/
theorem read_of_opening {p : Proposals} (h : opening? s = some p) :
    ∃ rest, Handshake.read s = (.ok p, rest) ∧ rest.ready = s.ready.drop 20 ∧
      rest.stop? = s.stop? ∧ s.bytes = magic ++ p.bytes ++ rest.bytes := by
  unfold opening? at h
  split at h
  · next ho =>
    obtain ⟨hm, hlen⟩ := ho
    obtain ⟨s₁, he₁, hready₁, hstop₁⟩ := Source.readExact_of_le (length_of_magic hm)
    have hlen₁ : 16 ≤ s₁.ready.length := by
      rw [hready₁, List.length_drop]
      omega
    obtain ⟨s₂, he₂, hready₂, hstop₂⟩ := Source.readExact_of_le hlen₁
    rw [hm] at he₁
    have hbytes₁ := (Source.bytes_readExact he₁).1
    obtain ⟨hbytes₂, hwords⟩ := Source.bytes_readExact he₂
    rw [hready₁] at he₂ hwords hbytes₂
    obtain rfl := Option.some.inj h
    refine ⟨s₂, ?_, ?_, hstop₂.trans hstop₁, ?_⟩
    · simp only [Handshake.read, he₁, ↓reduceIte, he₂]
    · rw [hready₂, hready₁, List.drop_drop]
    · rw [Proposals.bytes_ofBytes hwords, hbytes₁, hbytes₂, List.append_assoc]
  · simp at h

/-- An opening is made when the magic and four words are what is ready first. -/
theorem opening?_of_ready {p : Proposals} {more : Bytes}
    (h : s.ready = magic ++ p.bytes ++ more) :
    opening? s = some p ∧ s.ready.drop 20 = more := by
  have hlen : (magic ++ p.bytes).length = 20 := by
    rw [List.length_append, Proposals.length_bytes]
    rfl
  have htake : s.ready.take 4 = magic := by
    rw [h, List.append_assoc]
    exact List.take_left' rfl
  have hwords : (s.ready.drop 4).take 16 = p.bytes := by
    rw [h, List.append_assoc, List.drop_left' (show magic.length = 4 from rfl)]
    exact List.take_left' p.length_bytes
  have hmore : 20 ≤ s.ready.length := by
    rw [h, List.length_append, hlen]
    exact Nat.le_add_right ..
  constructor
  · rw [opening?, if_pos ⟨htake, hmore⟩, hwords, Proposals.ofBytes_bytes]
  · rw [h]
    exact List.drop_left' hlen

/-- An opening that the source ends in is spoilt. -/
theorem spoilt_of_take {p : Proposals} {more : Bytes} {cut : Nat} (hcut : cut < 20)
    (hready : s.ready = (magic ++ p.bytes ++ more).take cut) (hstop : s.stop? = none) :
    Spoilt s (.handshake .closed) := by
  have hclosed : closedBy s.stop = .handshake .closed := by
    rw [Source.stop, hstop]
    rfl
  have hle : s.ready.length ≤ cut := by
    rw [hready]
    exact List.length_take_le ..
  rw [← hclosed]
  by_cases hlt : s.ready.length < 4
  · exact .cutInMagic hlt
  · refine .cutInWords ?_ (by omega)
    rw [hready, List.take_take, Nat.min_eq_left (by omega), List.append_assoc]
    exact List.take_left' rfl

/-- Reading an opening fails in the ways in which it is spoilt. -/
theorem read_of_spoilt {e : Error} (h : Spoilt s e) : (Handshake.read s).1 = .error e := by
  cases h with
  | cutInMagic h =>
    obtain ⟨rest, he⟩ := Source.readExact_of_lt h
    simp only [Handshake.read, he]
  | badMagic h hm =>
    obtain ⟨rest, he, -⟩ := Source.readExact_of_le h
    simp only [Handshake.read, he, hm, ↓reduceIte]
  | cutInWords hm h =>
    obtain ⟨s₁, he₁, hready₁, hstop₁⟩ := Source.readExact_of_le (length_of_magic hm)
    have hlt : s₁.ready.length < 16 := by
      have := length_of_magic hm
      rw [hready₁, List.length_drop]
      omega
    obtain ⟨s₂, he₂⟩ := Source.readExact_of_lt hlt
    have hstop : s₁.stop = s.stop := by rw [Source.stop, hstop₁, Source.stop]
    rw [hm] at he₁
    simp only [Handshake.read, he₁, ↓reduceIte, he₂, hstop]

end ScriptedBolt.Handshake
