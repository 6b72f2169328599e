import ScriptedBolt.Proofs.PackStream.Recognition
import ScriptedBolt.Proofs.PackStream.Writing

/-!
# The shortest spelling

A value has many spellings, and what is written for it is no longer than any of them. Integers and
sizes are compared form by form. The entries of a map may be spelled in any order, so they are
first put in the order of their keys, which takes as many bytes. From there on a spelling and what
is written for its value have the same shape, and the comparison follows the value.
-/

namespace ScriptedBolt.PackStream

/-! ### Integers and sizes -/

/-- A number in two's complement lies in the range of its width. -/
theorem toInt_bounds (digits : Bytes) :
    -(Nat.pow 256 digits.length : Nat) ≤ 2 * digits.toInt ∧
      2 * digits.toInt < (Nat.pow 256 digits.length : Nat) := by
  have hpos : 0 < Nat.pow 256 digits.length := Nat.pow_pos (by decide)
  have hlow := Int.le_bmod (x := digits.toNat) hpos
  have hhigh := Int.bmod_le (x := digits.toNat) hpos
  have he : digits.toInt = (digits.toNat : Int).bmod (Nat.pow 256 digits.length) := rfl
  rw [he]
  omega

/-- An integer that fits a width is written in no more bytes than a marker and that width. -/
theorem length_integerBytes_le {i : Int64} {marker : UInt8} {width : Nat}
    (h : (marker, width) ∈ integerMarkers) (hlow : -(Nat.pow 256 width : Nat) ≤ 2 * i.toInt)
    (hhigh : 2 * i.toInt < (Nat.pow 256 width : Nat)) :
    (integerBytes i).length ≤ width + 1 := by
  have hwidth : (width = 1 ∧ -0x80 ≤ i.toInt ∧ i.toInt < 0x80) ∨
      (width = 2 ∧ -0x8000 ≤ i.toInt ∧ i.toInt < 0x8000) ∨
      (width = 4 ∧ -0x80000000 ≤ i.toInt ∧ i.toInt < 0x80000000) ∨ width = 8 := by
    simp only [integerMarkers, List.mem_cons, Prod.mk.injEq, List.not_mem_nil, or_false] at h
    rcases h with ⟨-, rfl⟩ | ⟨-, rfl⟩ | ⟨-, rfl⟩ | ⟨-, rfl⟩ <;> simp at hlow hhigh <;> omega
  unfold integerBytes
  dsimp only
  by_cases h0 : -0x10 ≤ i.toInt ∧ i.toInt < 0x80
  · rw [if_pos h0, Bytes.length_ofInt]
    omega
  rw [if_neg h0]
  by_cases h1 : -0x80 ≤ i.toInt ∧ i.toInt < 0x80
  · rw [if_pos h1, List.length_cons, Bytes.length_ofInt]
    omega
  rw [if_neg h1]
  by_cases h2 : -0x8000 ≤ i.toInt ∧ i.toInt < 0x8000
  · rw [if_pos h2, List.length_cons, Bytes.length_ofInt]
    omega
  rw [if_neg h2]
  by_cases h4 : -0x80000000 ≤ i.toInt ∧ i.toInt < 0x80000000
  · rw [if_pos h4, List.length_cons, Bytes.length_ofInt]
    omega
  · rw [if_neg h4, List.length_cons, Bytes.length_ofInt]
    omega

/-- What is written for an integer is no longer than any of its spellings. -/
theorem length_integerBytes_le_of_scalar {bytes : Bytes} {i : Int64}
    (h : Scalar bytes (.integer i)) : (integerBytes i).length ≤ bytes.length := by
  have tiny {n : Int} (hlow : -0x10 ≤ n) (hhigh : n < 0x80) :
      (integerBytes (Int64.ofInt n)).length ≤ 1 := by
    apply Nat.le_of_eq
    rw [integerBytes, Int64.toInt_ofInt_of_le (by omega) (by omega), if_pos ⟨hlow, hhigh⟩,
      Bytes.length_ofInt]
  cases h with
  | @tiny b h => exact tiny (by omega) (by omega)
  | @tinyNegative b h =>
    have := b.toNat_lt
    exact tiny (by omega) (by omega)
  | @integer marker digits h =>
    have ⟨hlow, hhigh⟩ := toInt_bounds digits
    -- The digits are eight at most, so their number is an integer of 64 bits as it stands.
    have hlen : digits.length ≤ 8 := by
      simp only [integerMarkers, List.mem_cons, Prod.mk.injEq, List.not_mem_nil, or_false] at h
      omega
    have hle : Nat.pow 256 digits.length ≤ 0x10000000000000000 :=
      Nat.pow_le_pow_right (by decide) hlen
    have hi : (Int64.ofInt digits.toInt).toInt = digits.toInt :=
      Int64.toInt_ofInt_of_le (by omega) (by omega)
    exact length_integerBytes_le h (by rwa [hi]) (by rwa [hi])

/-- A size that has a header can be written, in no more bytes. -/
theorem sizeBytes_of_sizeHeader {tiny wide : UInt8} {header : Bytes} {n : Nat} (kind : String)
    (h : SizeHeader tiny wide header n) :
    ∃ start, sizeBytes kind tiny wide n = .ok start ∧ start.length ≤ header.length := by
  unfold sizeBytes
  by_cases h4 : n < 0x10
  · exact ⟨_, if_pos h4, h.length_pos⟩
  rw [if_neg h4]
  by_cases h8 : n < 0x100
  · refine ⟨_, if_pos h8, ?_⟩
    cases h <;> simp_all
  rw [if_neg h8]
  by_cases h16 : n < 0x10000
  · refine ⟨_, if_pos h16, ?_⟩
    cases h <;> simp_all
  rw [if_neg h16]
  by_cases h32 : n < 0x100000000
  · refine ⟨_, if_pos h32, ?_⟩
    cases h <;> simp_all
  · cases h <;> omega

/-- A number of fields that has a header can be written with the tag, in one more byte. -/
theorem structureHeader_of_header {header : Bytes} {n : Nat} (tag : UInt8)
    (h : StructureHeader header n) :
    ∃ start, structureHeader tag n = .ok start ∧ start.length ≤ header.length + 1 := by
  unfold structureHeader
  by_cases h4 : n < 0x10
  · refine ⟨_, if_pos h4, ?_⟩
    cases h <;> simp_all
  rw [if_neg h4]
  by_cases h8 : n < 0x100
  · refine ⟨_, if_pos h8, ?_⟩
    cases h <;> simp_all
  rw [if_neg h8]
  by_cases h16 : n < 0x10000
  · refine ⟨_, if_pos h16, ?_⟩
    cases h <;> simp_all
  · cases h <;> omega

/-- A string that has a spelling can be written, in no more bytes. -/
theorem stringBytes_of_scalar {bytes : Bytes} {text : String} (h : Scalar bytes (.string text)) :
    ∃ shortest, stringBytes text = .ok shortest ∧ shortest.length ≤ bytes.length := by
  cases h with
  | @string header text hheader =>
    have hsize : text.utf8ByteSize = (Text.Utf8.encode text).length := Array.length_toList.symm
    obtain ⟨start, hstart, hle⟩ := sizeBytes_of_sizeHeader "string" hheader
    rw [← hsize] at hstart
    refine ⟨_, stringBytes_eq_ok_iff.mpr ⟨start, hstart, rfl⟩, ?_⟩
    rw [List.length_append, List.length_append]
    exact Nat.add_le_add_right hle _

/-! ### Values that can be spelled -/

/-- What is known of a value that can be spelled on a level in so many bytes: its maps are ordered,
there is room for its height, and it can be written in no more bytes. -/
structure Writable (depth size : Nat) (v : Value) : Prop where
  ordered : v.Ordered
  height_le : depth + v.height ≤ maxDepth
  shortest : ∃ bytes, encode v = .ok bytes ∧ bytes.length ≤ size

/-- A scalar that can be written lies on any level that is not too deep. -/
private theorem writable_scalar {depth size : Nat} {v : Value} {bytes : Bytes}
    (hd : depth ≤ maxDepth) (ho : v.Ordered) (hh : v.height = 0) (h : encode v = .ok bytes)
    (hle : bytes.length ≤ size) : Writable depth size v :=
  ⟨ho, by rw [hh]; exact hd, bytes, h, hle⟩

mutual

/-- A value that can be spelled can be written in no more bytes. -/
theorem writable_of_denotes {depth : Nat} {bytes : Bytes} :
    (v : Value) → Denotes depth bytes v → Writable depth bytes.length v
  | .null, h => writable_scalar h.depth_le trivial rfl encode_null h.length_pos
  | .boolean b, h => writable_scalar h.depth_le trivial rfl (encode_boolean b) h.length_pos
  | .integer i, h => by
    cases h with
    | scalar hd h =>
      exact writable_scalar hd trivial rfl (encode_integer i) (length_integerBytes_le_of_scalar h)
  | .float x, h => by
    cases h with
    | scalar hd h =>
      refine writable_scalar hd trivial rfl (encode_float x) ?_
      cases h with
      | float hlen => simp [hlen]
  | .string text, h => by
    obtain ⟨shortest, hwrite, hle⟩ := stringBytes_of_scalar h.scalar_of_string
    exact writable_scalar h.depth_le trivial rfl (encode_string text ▸ hwrite) hle
  | .list items, h => by
    obtain ⟨header, body, rfl, hheader, hbody⟩ := h.list_inv
    obtain ⟨start, hstart, hstartLe⟩ := sizeBytes_of_sizeHeader "list" hheader
    obtain ⟨ho, hd, written, hwritten, hle⟩ := writable_of_denoteItems h.depth_le items hbody
    refine ⟨ho, hd, start ++ written, encode_list_eq_ok_iff.mpr ⟨_, _, hstart, hwritten, rfl⟩, ?_⟩
    rw [List.length_append, List.length_append]
    exact Nat.add_le_add hstartLe hle
  | .map entries, h => by
    obtain ⟨header, body, hlen, hheader, hbody, hascending⟩ := h.map_inv
    obtain ⟨start, hstart, hstartLe⟩ := sizeBytes_of_sizeHeader "map" hheader
    obtain ⟨ho, hd, written, hwritten, hle⟩ := writable_of_denoteEntries h.depth_le entries hbody
    refine ⟨⟨hascending, ho⟩, hd, start ++ written,
      encode_map_eq_ok_iff.mpr ⟨_, _, hstart, hwritten, rfl⟩, ?_⟩
    rw [List.length_append, hlen]
    exact Nat.add_le_add hstartLe hle
  | .struct tag fields, h => by
    obtain ⟨header, body, rfl, hheader, hbody⟩ := h.struct_inv
    obtain ⟨start, hstart, hstartLe⟩ := structureHeader_of_header tag hheader
    obtain ⟨ho, hd, written, hwritten, hle⟩ := writable_of_denoteItems h.depth_le fields hbody
    refine ⟨ho, hd, start ++ written,
      encode_struct_eq_ok_iff.mpr ⟨_, _, hstart, hwritten, rfl⟩, ?_⟩
    simp only [List.length_append, List.length_cons]
    omega

/-- Items that can be spelled can be written in no more bytes. -/
theorem writable_of_denoteItems {depth : Nat} {bytes : Bytes} (hd : depth ≤ maxDepth) :
    (vs : List Value) → DenoteItems (depth + 1) bytes vs →
      Value.OrderedItems vs ∧ depth + Value.heightOfItems vs ≤ maxDepth ∧
        ∃ written, encodeItems vs = .ok written ∧ written.length ≤ bytes.length
  | [], _ => ⟨trivial, hd, [], encodeItems_nil, Nat.zero_le _⟩
  | v :: vs, h => by
    cases h with
    | cons hv hs =>
      obtain ⟨ho, hh, item, hitem, hle⟩ := writable_of_denotes v hv
      obtain ⟨hos, hhs, items, hitems, hles⟩ := writable_of_denoteItems hd vs hs
      refine ⟨⟨ho, hos⟩, ?_, item ++ items,
        encodeItems_cons_eq_ok_iff.mpr ⟨_, _, hitem, hitems, rfl⟩, ?_⟩
      · rw [Value.heightOfItems]
        omega
      · rw [List.length_append, List.length_append]
        exact Nat.add_le_add hle hles

/-- Entries that can be spelled in some order can be written in no more bytes. -/
theorem writable_of_denoteEntries {depth : Nat} {bytes : Bytes} (hd : depth ≤ maxDepth) :
    (es : List (String × Value)) → DenoteEntries (depth + 1) bytes es →
      Value.OrderedEntries es ∧ depth + Value.heightOfEntries es ≤ maxDepth ∧
        ∃ written, encodeEntries es = .ok written ∧ written.length ≤ bytes.length
  | [], _ => ⟨trivial, hd, [], encodeEntries_nil, Nat.zero_le _⟩
  | (k, v) :: es, h => by
    cases h with
    | cons hk hv hs =>
      obtain ⟨key, hkey, hlek⟩ := stringBytes_of_scalar hk.scalar_of_string
      obtain ⟨ho, hh, value, hvalue, hle⟩ := writable_of_denotes v hv
      obtain ⟨hos, hhs, entries, hentries, hles⟩ := writable_of_denoteEntries hd es hs
      refine ⟨⟨ho, hos⟩, ?_, key ++ value ++ entries,
        encodeEntries_cons_eq_ok_iff.mpr ⟨_, _, _, hkey, hvalue, hentries, rfl⟩, ?_⟩
      · rw [Value.heightOfEntries]
        omega
      · simp only [List.length_append]
        omega

end

/-- A value that is read can be written, in no more bytes than it was read from, and what is
written is read as that value. -/
theorem encode_shortest {bytes : Bytes} {v : Value} (h : decode bytes = .ok v) :
    ∃ shortest, encode v = .ok shortest ∧ decode shortest = .ok v ∧
      shortest.length ≤ bytes.length := by
  obtain ⟨ho, hd, shortest, hwritten, hle⟩ := writable_of_denotes v (decode_eq_ok_iff.mp h)
  exact ⟨shortest, hwritten, decode_of_encode hwritten ho (by omega), hle⟩

/-- A map is shorter when it is written than with wide headers and integers, whatever the order of
its entries was. -/
theorem encode_shortest_of_wide :
    decode [0xD8, 2, 0x81, 0x62, 0xC9, 0, 1, 0xD0, 1, 0x61, 0xC0] =
        .ok (.map [("a", .null), ("b", .integer 1)]) ∧
      ∃ shortest, encode (.map [("a", .null), ("b", .integer 1)]) = .ok shortest ∧
        decode shortest = .ok (.map [("a", .null), ("b", .integer 1)]) ∧
        shortest.length ≤ 11 := by
  have hb : Scalar [0x81, 0x62] (.string "b") := scalar_shortString "b" (by decide)
  have hinteger : Scalar [0xC9, 0, 1] (.integer 1) := scalar_integer (by decide) (by decide)
  have ha : Scalar ([0xD0, 1] ++ Text.Utf8.encode "a") (.string "a") :=
    .string (.oneByte (n := 1) (by decide))
  have hentries : DenoteEntries 1 [0x81, 0x62, 0xC9, 0, 1, 0xD0, 1, 0x61, 0xC0]
      [("b", .integer 1), ("a", .null)] :=
    .cons (.scalar (by decide) hb) (.scalar (by decide) hinteger)
      (.cons (.scalar (by decide) ha) (.scalar (by decide) .null) .nil)
  have hmap : Value.ofEntries [("b", .integer 1), ("a", .null)] =
      .map [("a", .null), ("b", .integer 1)] :=
    congrArg Value.map (Entries.sort_pair (by decide))
  have h : decode [0xD8, 2, 0x81, 0x62, 0xC9, 0, 1, 0xD0, 1, 0x61, 0xC0] =
      .ok (.map [("a", .null), ("b", .integer 1)]) := by
    rw [← hmap]
    exact decode_eq_ok_iff.mpr (.map (by decide) (.oneByte (by decide)) hentries (by decide))
  exact ⟨h, encode_shortest h⟩

end ScriptedBolt.PackStream
