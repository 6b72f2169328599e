import ScriptedBolt.Proofs.PackStream.Grammar

/-!
# Reading what the grammar denotes

Bytes that stand for a value on a level are read as that value, whatever follows them, and
nothing that follows is taken. The proof follows the derivation of the bytes. The checks that a
reader makes beforehand, on how many bytes are left, always pass.
-/

namespace ScriptedBolt.Text.Utf8

/-- The UTF-8 of a text is read as that text. -/
theorem decode_encode (text : String) : decode (encode text) = .ok text := by
  have hbytes : (encode text).toByteArray = text.toByteArray := by
    apply ByteArray.ext
    simp [encode]
  rw [decode, hbytes, String.fromUTF8?, dif_pos text.isValidUTF8]
  rfl

end ScriptedBolt.Text.Utf8

namespace ScriptedBolt.PackStream

namespace Reader

/-- The bytes asked for are taken from the front. -/
theorem take_append {n : Nat} {bs : Bytes} (h : bs.length = n) (rest : Bytes) :
    take n (bs ++ rest) = (.ok bs, rest) := by
  have hold : Bytes.holds (bs ++ rest) n = true := by
    rw [Bytes.holds_iff, List.length_append]
    omega
  rw [take, if_pos hold, ← h, List.take_left, List.drop_left]

/-- A size that was written is read. -/
theorem size_ofNat {width n : Nat} (h : n < Nat.pow 256 width) (rest : Bytes) :
    size width (Bytes.ofNat width n ++ rest) = (.ok n, rest) := by
  have hn : (Bytes.ofNat width n).toNat = n := by
    rw [Bytes.toNat_ofNat]
    exact Nat.mod_eq_of_lt h
  simp only [size, map, bind, take_append (Bytes.length_ofNat width n), pure, hn]

/-- Reading on from a size that was written. -/
theorem bind_size {α : Type} {width n : Nat} (h : n < Nat.pow 256 width)
    (next : Nat → Reader α) (rest : Bytes) :
    bind (size width) next (Bytes.ofNat width n ++ rest) = next n rest := by
  simp only [bind, size_ofNat h]

/-- Enough bytes are left. -/
theorem need_of_le {n : Nat} {bs : Bytes} (h : n ≤ bs.length) : need n bs = (.ok (), bs) := by
  rw [need, if_pos ((Bytes.holds_iff bs n).mpr h)]

private theorem toNat_tiny (tiny : UInt8) {n : Nat} (h : tiny.toNat + n < 256) :
    (tiny + UInt8.ofNat n).toNat = tiny.toNat + n := by
  rw [UInt8.toNat_add, UInt8.toNat_ofNat']
  show (tiny.toNat + n % 256) % 256 = tiny.toNat + n
  omega

private theorem afterMarker_tiny (item : Reader Value) {m : UInt8} {n : Nat} (hn : n < 0x10) :
    (m.toNat = 0x80 + n → afterMarker item m = string n) ∧
      (m.toNat = 0x90 + n → afterMarker item m = list item n) ∧
      (m.toNat = 0xA0 + n → afterMarker item m = mapOf item n) ∧
      (m.toNat = 0xB0 + n → afterMarker item m = struct item n) := by
  unfold afterMarker
  dsimp only
  refine ⟨?_, ?_, ?_, ?_⟩
  · intro hm
    rw [hm, if_neg (by omega), if_neg (by omega), if_pos (by omega),
      show (0x80 + n) % 16 = n by omega]
  · intro hm
    rw [hm, if_neg (by omega), if_neg (by omega), if_neg (by omega), if_pos (by omega),
      show (0x90 + n) % 16 = n by omega]
  · intro hm
    rw [hm, if_neg (by omega), if_neg (by omega), if_neg (by omega), if_neg (by omega),
      if_pos (by omega), show (0xA0 + n) % 16 = n by omega]
  · intro hm
    rw [hm, if_neg (by omega), if_neg (by omega), if_neg (by omega), if_neg (by omega),
      if_neg (by omega), if_pos (by omega), show (0xB0 + n) % 16 = n by omega]

/-- A string, list or map is read on from its size. -/
theorem afterMarker_sizeHeader {item : Reader Value} {tiny wide : UInt8}
    {next : Nat → Reader Value} {header : Bytes} {n : Nat}
    (hkind : (tiny, wide, next) = (0x80, 0xD0, string) ∨
      (tiny, wide, next) = (0x90, 0xD4, list item) ∨
      (tiny, wide, next) = (0xA0, 0xD8, mapOf item))
    (h : SizeHeader tiny wide header n) (rest : Bytes) :
    bind byte (afterMarker item) (header ++ rest) = next n rest := by
  simp only [Prod.mk.injEq] at hkind
  cases h with
  | inMarker hn =>
    obtain ⟨hstring, hlist, hmap, -⟩ := afterMarker_tiny item (m := tiny + UInt8.ofNat n) hn
    rcases hkind with ⟨rfl, rfl, rfl⟩ | ⟨rfl, rfl, rfl⟩ | ⟨rfl, rfl, rfl⟩
    · exact congrFun (hstring (toNat_tiny _ (show 0x80 + n < 256 by omega))) rest
    · exact congrFun (hlist (toNat_tiny _ (show 0x90 + n < 256 by omega))) rest
    · exact congrFun (hmap (toNat_tiny _ (show 0xA0 + n < 256 by omega))) rest
  | oneByte hn =>
    rcases hkind with ⟨rfl, rfl, rfl⟩ | ⟨rfl, rfl, rfl⟩ | ⟨rfl, rfl, rfl⟩ <;>
      exact bind_size hn _ rest
  | twoBytes hn =>
    rcases hkind with ⟨rfl, rfl, rfl⟩ | ⟨rfl, rfl, rfl⟩ | ⟨rfl, rfl, rfl⟩ <;>
      exact bind_size hn _ rest
  | fourBytes hn =>
    rcases hkind with ⟨rfl, rfl, rfl⟩ | ⟨rfl, rfl, rfl⟩ | ⟨rfl, rfl, rfl⟩ <;>
      exact bind_size hn _ rest

/-- A structure is read on from its size. -/
theorem afterMarker_structureHeader {item : Reader Value} {header : Bytes} {n : Nat}
    (h : StructureHeader header n) (rest : Bytes) :
    bind byte (afterMarker item) (header ++ rest) = struct item n rest := by
  cases h with
  | inMarker hn =>
    obtain ⟨-, -, -, hstruct⟩ := afterMarker_tiny item (m := 0xB0 + UInt8.ofNat n) hn
    exact congrFun (hstruct (toNat_tiny _ (show 0xB0 + n < 256 by omega))) rest
  | oneByte hn => exact bind_size hn _ rest
  | twoBytes hn => exact bind_size hn _ rest

/-- The bytes of a scalar are read as that scalar. -/
theorem afterMarker_scalar {item : Reader Value} {bytes : Bytes} {v : Value}
    (h : Scalar bytes v) (rest : Bytes) :
    bind byte (afterMarker item) (bytes ++ rest) = (.ok v, rest) := by
  cases h with
  | null => rfl
  | boolean b => cases b <;> rfl
  | @tiny b h =>
    show afterMarker item b rest = _
    rw [afterMarker, if_pos h]
    rfl
  | @tinyNegative b h =>
    show afterMarker item b rest = _
    rw [afterMarker, if_neg (by omega), if_pos h]
    rfl
  | @integer marker digits h =>
    show afterMarker item marker (digits ++ rest) = _
    simp only [integerMarkers, List.mem_cons, Prod.mk.injEq, List.not_mem_nil, or_false] at h
    have key (width : Nat) (hw : digits.length = width) :
        Reader.integer width (digits ++ rest) =
          (.ok (.integer (Int64.ofInt digits.toInt)), rest) := by
      simp only [Reader.integer, map, bind, take_append hw, pure]
    rcases h with ⟨rfl, hw⟩ | ⟨rfl, hw⟩ | ⟨rfl, hw⟩ | ⟨rfl, hw⟩ <;> exact key _ hw
  | @float digits h =>
    show Reader.float (digits ++ rest) = _
    simp only [Reader.float, map, bind, take_append h, pure]
  | @string header text h =>
    rw [List.append_assoc, afterMarker_sizeHeader (.inl rfl) h]
    simp only [Reader.string, take_append rfl, Text.Utf8.decode_encode]

/-- Keys that are not seen stay so when another key is. -/
theorem unseen_insert {seen : Std.HashSet String} {k : String} {keys : List String}
    (hk : k ∉ keys) (h : ∀ key ∈ keys, seen.contains key = false) :
    ∀ key ∈ keys, (seen.insert k).contains key = false := by
  intro key hmem
  have hne : k ≠ key := by
    rintro rfl
    exact hk hmem
  rw [Std.HashSet.contains_insert, h key hmem]
  simp [hne]

/-- Keys that are not seen together with another key are others, and not seen without it. -/
theorem unseen_of_insert {seen : Std.HashSet String} {k : String} {keys : List String}
    (h : ∀ key ∈ keys, (seen.insert k).contains key = false) :
    ∀ key ∈ keys, k ≠ key ∧ seen.contains key = false := by
  intro key hmem
  have hnew := h key hmem
  rw [Std.HashSet.contains_insert, Bool.or_eq_false_iff] at hnew
  exact ⟨by simpa using hnew.1, hnew.2⟩

end Reader

/-- A value on a level that is not too deep is read after its marker. -/
theorem decodeNext_of_le {depth : Nat} (h : depth ≤ maxDepth) :
    decodeNext depth = Reader.bind Reader.byte (Reader.afterMarker (decodeNext (depth + 1))) := by
  have hlevels : maxDepth + 1 - depth = (maxDepth + 1 - (depth + 1)) + 1 := by omega
  rw [decodeNext, hlevels]
  rfl

mutual

/-- Bytes that stand for a value are read as that value, and nothing after them is taken. -/
theorem decodeNext_of_denotes {depth : Nat} {bytes : Bytes} {v : Value} :
    Denotes depth bytes v → ∀ rest, decodeNext depth (bytes ++ rest) = (.ok v, rest)
  | .scalar hd h, rest => by rw [decodeNext_of_le hd, Reader.afterMarker_scalar h]
  | @Denotes.list _ header body items hd h hb, rest => by
    have hitems := items_of_denotes hb [] rest
    have hneed : Reader.need items.length (body ++ rest) = (.ok (), body ++ rest) :=
      Reader.need_of_le (Nat.le_trans hb.length_le (by simp))
    rw [decodeNext_of_le hd, List.append_assoc,
      Reader.afterMarker_sizeHeader (.inr (.inl rfl)) h]
    simp only [Reader.list, Reader.bind, Reader.map, hneed, hitems, Reader.pure]
    rfl
  | @Denotes.map _ header body entries hd h hb hk, rest => by
    have hentries := entries_of_denotes hb [] ∅ rest hk (by simp)
    have hneed : Reader.need (2 * entries.length) (body ++ rest) = (.ok (), body ++ rest) :=
      Reader.need_of_le (Nat.le_trans hb.length_le (by simp))
    rw [decodeNext_of_le hd, List.append_assoc,
      Reader.afterMarker_sizeHeader (.inr (.inr rfl)) h]
    simp only [Reader.mapOf, Reader.bind, Reader.map, hneed, hentries, Reader.pure]
    rfl
  | @Denotes.struct _ header body tag fields hd h hb, rest => by
    have hitems := items_of_denotes hb [] rest
    have hneed : Reader.need fields.length (body ++ rest) = (.ok (), body ++ rest) :=
      Reader.need_of_le (Nat.le_trans hb.length_le (by simp))
    rw [decodeNext_of_le hd, List.append_assoc, Reader.afterMarker_structureHeader h]
    simp only [Reader.struct, Reader.byte, List.cons_append, Reader.bind, Reader.map, hneed,
      hitems, Reader.pure]
    rfl

/-- Bytes that stand for items are read as those items. -/
theorem items_of_denotes {depth : Nat} {bytes : Bytes} {vs : List Value} :
    DenoteItems depth bytes vs → ∀ before rest,
      Reader.items (decodeNext depth) before vs.length (bytes ++ rest) =
        (.ok (before.reverse ++ vs), rest)
  | .nil, before, rest => by
    simp only [List.length_nil, Reader.items, Reader.pure, List.append_nil, List.nil_append]
  | @DenoteItems.cons _ item items v vs h hs, before, rest => by
    have hitem := decodeNext_of_denotes h (items ++ rest)
    have hitems := items_of_denotes hs (v :: before) rest
    rw [List.reverse_cons, List.append_assoc] at hitems
    rw [List.length_cons, List.append_assoc]
    simp only [Reader.items, hitem, hitems]
    rfl

/-- Bytes that stand for entries with keys of their own are read as those entries. -/
theorem entries_of_denotes {depth : Nat} {bytes : Bytes} {es : List (String × Value)} :
    DenoteEntries depth bytes es → ∀ before seen rest, (es.map Prod.fst).Nodup →
      (∀ key ∈ es.map Prod.fst, seen.contains key = false) →
      Reader.entries (decodeNext depth) before seen es.length (bytes ++ rest) =
        (.ok (before.reverse ++ es), rest)
  | .nil, before, seen, rest, _, _ => by
    simp only [List.length_nil, Reader.entries, Reader.pure, List.append_nil, List.nil_append]
  | @DenoteEntries.cons _ key value entries k v es hk hv hs, before, seen, rest, hnodup, hseen => by
    rw [List.map_cons, List.nodup_cons] at hnodup
    have hkey := decodeNext_of_denotes hk (value ++ (entries ++ rest))
    have hvalue := decodeNext_of_denotes hv (entries ++ rest)
    have hnew : seen.contains k = false := hseen k (by simp)
    have hseen' : ∀ key ∈ es.map Prod.fst, (seen.insert k).contains key = false :=
      Reader.unseen_insert hnodup.1 fun key hmem ↦ hseen key (List.mem_cons_of_mem _ hmem)
    have hentries := entries_of_denotes hs ((k, v) :: before) (seen.insert k) rest hnodup.2 hseen'
    rw [List.reverse_cons, List.append_assoc] at hentries
    rw [List.length_cons, List.append_assoc, List.append_assoc]
    simp only [Reader.entries, hkey, hvalue, hnew, hentries]
    rfl

end

end ScriptedBolt.PackStream
