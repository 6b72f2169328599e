import ScriptedBolt.Proofs.PackStream.Layout
import ScriptedBolt.Proofs.PackStream.Reading

/-!
# Writing what the grammar denotes

What is written for a value stands for it on every level that leaves room for the values below
it. With the reader's side this gives the round trip: a value that is written is read back, bit
for bit and with the bytes after it untouched. A map is written in the order of its keys, so its
entries have to be in that order.
-/

namespace ScriptedBolt.PackStream

/-- What is written for an integer stands for it. -/
theorem scalar_integerBytes (i : Int64) : Scalar (integerBytes i) (.integer i) := by
  have wide (marker : UInt8) (width : Nat) (hw : (marker, width) ∈ integerMarkers)
      (hlow : -(Nat.pow 256 width : Nat) ≤ 2 * i.toInt)
      (hhigh : 2 * i.toInt < (Nat.pow 256 width : Nat)) :
      Scalar (marker :: Bytes.ofInt width i.toInt) (.integer i) := by
    apply scalar_integer
    · rwa [Bytes.length_ofInt]
    · rw [Bytes.toInt_ofInt hlow hhigh, Int64.ofInt_toInt]
  unfold integerBytes
  dsimp only
  split
  · next h =>
    obtain ⟨b, hbytes, hb⟩ : ∃ b : UInt8, Bytes.ofInt 1 i.toInt = [b] ∧
        (b.toNat : Int) = i.toInt % 256 := by
      refine ⟨_, rfl, ?_⟩
      simp
      omega
    rw [hbytes]
    by_cases hneg : i.toInt < 0
    · have he := Scalar.tinyNegative (b := b) (by omega)
      rwa [show (b.toNat : Int) - 0x100 = i.toInt by omega, Int64.ofInt_toInt] at he
    · have he := Scalar.tiny (b := b) (by omega)
      rwa [show (b.toNat : Int) = i.toInt by omega, Int64.ofInt_toInt] at he
  · split
    · next h => exact wide _ _ (by decide) (by simp; omega) (by simp; omega)
    · split
      · next h => exact wide _ _ (by decide) (by simp; omega) (by simp; omega)
      · split
        · next h => exact wide _ _ (by decide) (by simp; omega) (by simp; omega)
        · have hlow := i.le_toInt
          have hhigh := i.toInt_lt
          exact wide _ _ (by decide) (by simp; omega) (by simp; omega)

/-- A size that can be written is a header. -/
theorem sizeHeader_of_sizeBytes {kind : String} {tiny wide : UInt8} {n : Nat} {bytes : Bytes}
    (h : sizeBytes kind tiny wide n = .ok bytes) : SizeHeader tiny wide bytes n := by
  unfold sizeBytes at h
  split at h
  · next hn => exact Except.ok.inj h ▸ .inMarker hn
  · split at h
    · next hn => exact Except.ok.inj h ▸ .oneByte hn
    · split at h
      · next hn => exact Except.ok.inj h ▸ .twoBytes hn
      · split at h
        · next hn => exact Except.ok.inj h ▸ .fourBytes hn
        · simp at h

/-- A number of fields that can be written is a header, with the tag after it. -/
theorem structureHeader_of_eq {tag : UInt8} {n : Nat} {bytes : Bytes}
    (h : structureHeader tag n = .ok bytes) :
    ∃ header, bytes = header ++ [tag] ∧ StructureHeader header n := by
  unfold structureHeader at h
  split at h
  · next hn => exact ⟨_, (Except.ok.inj h).symm, .inMarker hn⟩
  · split at h
    · next hn => exact ⟨_, (Except.ok.inj h).symm, .oneByte hn⟩
    · split at h
      · next hn => exact ⟨_, (Except.ok.inj h).symm, .twoBytes hn⟩
      · simp at h

/-- What is written for a string stands for it. -/
theorem scalar_stringBytes {text : String} {bytes : Bytes} (h : stringBytes text = .ok bytes) :
    Scalar bytes (.string text) := by
  have hsize : text.utf8ByteSize = (Text.Utf8.encode text).length :=
    Array.length_toList.symm
  obtain ⟨header, hs, rfl⟩ := stringBytes_eq_ok_iff.mp h
  have hheader := sizeHeader_of_sizeBytes hs
  rw [hsize] at hheader
  exact .string hheader

/-- What is written for a float stands for it. -/
theorem scalar_floatBytes (x : Binary64) :
    Scalar (0xC1 :: Bytes.ofNat 8 x.bits.toNat) (.float x) := by
  have hlt : x.bits.toNat < Nat.pow 256 8 := x.bits.toNat_lt
  have hbits : (Bytes.ofNat 8 x.bits.toNat).toNat = x.bits.toNat := by
    rw [Bytes.toNat_ofNat]
    exact Nat.mod_eq_of_lt hlt
  have h := Scalar.float (Bytes.length_ofNat 8 x.bits.toNat)
  rwa [hbits, UInt64.ofNat_toNat] at h

/-- Keys that ascend are each there once. -/
theorem nodup_of_ascending {keys : List String} (h : keys.Pairwise (· < ·)) :
    keys.Nodup := by
  apply h.imp
  rintro a _ hlt rfl
  exact String.lt_irrefl a hlt

mutual

/-- What is written for a value stands for it, on every level with room for its height. -/
theorem denotes_of_encode {depth : Nat} {bytes : Bytes} :
    (v : Value) → encode v = .ok bytes → v.Ordered → depth + v.height ≤ maxDepth →
      Denotes depth bytes v
  | .null, h, _, hd => by
    rw [encode_null] at h
    exact .scalar (by omega) (Except.ok.inj h ▸ .null)
  | .boolean b, h, _, hd => by
    rw [encode_boolean] at h
    exact .scalar (by omega) (Except.ok.inj h ▸ .boolean b)
  | .integer i, h, _, hd => by
    rw [encode_integer] at h
    exact .scalar (by omega) (Except.ok.inj h ▸ scalar_integerBytes i)
  | .float x, h, _, hd => by
    rw [encode_float] at h
    exact .scalar (by omega) (Except.ok.inj h ▸ scalar_floatBytes x)
  | .string text, h, _, hd => by
    rw [encode_string] at h
    exact .scalar (by omega) (scalar_stringBytes h)
  | .list items, h, ho, hd => by
    obtain ⟨header, body, hheader, hbody, rfl⟩ := encode_list_eq_ok_iff.mp h
    exact .list (by omega) (sizeHeader_of_sizeBytes hheader)
      (denoteItems_of_encodeItems items hbody ho hd)
  | .map entries, h, ho, hd => by
    obtain ⟨header, body, hheader, hbody, rfl⟩ := encode_map_eq_ok_iff.mp h
    have he := Denotes.map (by omega) (sizeHeader_of_sizeBytes hheader)
      (denoteEntries_of_encodeEntries entries hbody ho.2 hd) (nodup_of_ascending ho.1)
    rwa [Value.ofEntries, Entries.sort_of_ascending ho.1] at he
  | .struct tag fields, h, ho, hd => by
    obtain ⟨start, body, hstart, hbody, rfl⟩ := encode_struct_eq_ok_iff.mp h
    obtain ⟨header, rfl, hheader⟩ := structureHeader_of_eq hstart
    rw [List.append_assoc, List.singleton_append]
    exact .struct (by omega) hheader (denoteItems_of_encodeItems fields hbody ho hd)

/-- What is written for items stands for them, one level below their container. -/
theorem denoteItems_of_encodeItems {depth : Nat} {bytes : Bytes} :
    (vs : List Value) → encodeItems vs = .ok bytes → Value.OrderedItems vs →
      depth + Value.heightOfItems vs ≤ maxDepth → DenoteItems (depth + 1) bytes vs
  | [], h, _, _ => Except.ok.inj h ▸ .nil
  | v :: vs, h, ho, hd => by
    obtain ⟨item, items, hitem, hitems, rfl⟩ := encodeItems_cons_eq_ok_iff.mp h
    rw [Value.OrderedItems] at ho
    rw [Value.heightOfItems] at hd
    exact .cons (denotes_of_encode v hitem ho.1 (by omega))
      (denoteItems_of_encodeItems vs hitems ho.2 (by omega))

/-- What is written for entries stands for them, one level below their map. -/
theorem denoteEntries_of_encodeEntries {depth : Nat} {bytes : Bytes} :
    (es : List (String × Value)) → encodeEntries es = .ok bytes → Value.OrderedEntries es →
      depth + Value.heightOfEntries es ≤ maxDepth → DenoteEntries (depth + 1) bytes es
  | [], h, _, _ => Except.ok.inj h ▸ .nil
  | (k, v) :: es, h, ho, hd => by
    obtain ⟨key, value, entries, hkey, hvalue, hentries, rfl⟩ :=
      encodeEntries_cons_eq_ok_iff.mp h
    rw [Value.OrderedEntries] at ho
    rw [Value.heightOfEntries] at hd
    exact .cons (.scalar (by omega) (scalar_stringBytes hkey))
      (denotes_of_encode v hvalue ho.1 (by omega))
      (denoteEntries_of_encodeEntries es hentries ho.2 (by omega))

end

/-- What is written for a value is read as that value, on every level with room for its height,
and nothing after it is taken. -/
theorem decodeNext_of_encode {v : Value} {bytes : Bytes} (h : encode v = .ok bytes)
    (ho : v.Ordered) {depth : Nat} (hd : depth + v.height ≤ maxDepth) (rest : Bytes) :
    decodeNext depth (bytes ++ rest) = (.ok v, rest) :=
  decodeNext_of_denotes (denotes_of_encode v h ho hd) rest

/-- What is written for a value is that value, if it has at most 64 levels below it. -/
theorem decode_of_encode {v : Value} {bytes : Bytes} (h : encode v = .ok bytes)
    (ho : v.Ordered) (hd : v.height ≤ maxDepth) : decode bytes = .ok v := by
  have hread := decodeNext_of_encode h ho (show 0 + v.height ≤ maxDepth by omega) []
  rw [List.append_nil] at hread
  rw [decode, hread]

end ScriptedBolt.PackStream
