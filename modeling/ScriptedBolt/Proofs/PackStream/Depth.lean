import ScriptedBolt.Proofs.PackStream.Writing

/-!
# The depth of what is written

The writer has no bound on how deep values are nested, the reader has one. What is written for a
value is read back on every level that leaves room for its height, and on any other level the
reader stops at the first value that lies too deep: all before it is in order, since the writer
wrote it.
-/

namespace ScriptedBolt.PackStream

/-! ### The least number of bytes -/

/-- What is written for a value is not empty. -/
theorem length_pos_of_encode {v : Value} {bytes : Bytes} (h : encode v = .ok bytes) :
    0 < bytes.length := by
  have header {kind : String} {tiny wide : UInt8} {n : Nat} {start body : Bytes}
      (hs : sizeBytes kind tiny wide n = .ok start) : 0 < (start ++ body).length := by
    have := (sizeHeader_of_sizeBytes hs).length_pos
    rw [List.length_append]
    omega
  cases v with
  | null =>
    rw [encode_null] at h
    exact Except.ok.inj h ▸ Scalar.null.length_pos
  | boolean b =>
    rw [encode_boolean] at h
    exact Except.ok.inj h ▸ (Scalar.boolean b).length_pos
  | integer i =>
    rw [encode_integer] at h
    exact Except.ok.inj h ▸ (scalar_integerBytes i).length_pos
  | float x =>
    rw [encode_float] at h
    exact Except.ok.inj h ▸ (scalar_floatBytes x).length_pos
  | string text =>
    rw [encode_string] at h
    exact (scalar_stringBytes h).length_pos
  | list items =>
    obtain ⟨start, body, hstart, -, rfl⟩ := encode_list_eq_ok_iff.mp h
    exact header hstart
  | map entries =>
    obtain ⟨start, body, hstart, -, rfl⟩ := encode_map_eq_ok_iff.mp h
    exact header hstart
  | struct tag fields =>
    obtain ⟨start, body, hstart, -, rfl⟩ := encode_struct_eq_ok_iff.mp h
    obtain ⟨header, rfl, -⟩ := structureHeader_of_eq hstart
    simp only [List.length_append, List.length_cons]
    omega

/-- What is written for items has at least a byte for each of them. -/
theorem length_le_of_encodeItems {vs : List Value} {bytes : Bytes}
    (h : encodeItems vs = .ok bytes) : vs.length ≤ bytes.length := by
  induction vs generalizing bytes with
  | nil => exact Nat.zero_le _
  | cons v vs ih =>
    obtain ⟨item, items, hitem, hitems, rfl⟩ := encodeItems_cons_eq_ok_iff.mp h
    have := length_pos_of_encode hitem
    have := ih hitems
    rw [List.length_append, List.length_cons]
    omega

/-- What is written for entries has at least two bytes for each of them. -/
theorem length_le_of_encodeEntries {es : List (String × Value)} {bytes : Bytes}
    (h : encodeEntries es = .ok bytes) : 2 * es.length ≤ bytes.length := by
  induction es generalizing bytes with
  | nil => exact Nat.zero_le _
  | cons e es ih =>
    obtain ⟨key, value, entries, hkey, hvalue, hentries, rfl⟩ :=
      encodeEntries_cons_eq_ok_iff.mp h
    have := (scalar_stringBytes hkey).length_pos
    have := length_pos_of_encode hvalue
    have := ih hentries
    rw [List.length_append, List.length_append, List.length_cons]
    omega

/-! ### Too deep -/

namespace Reader

variable {α β : Type} {bs : Bytes}

/-- Reading on fails as the first reader does. -/
theorem bind_of_error {read : Reader α} {next : α → Reader β} {e : DecodeError}
    (h : ∃ left, read bs = (.error e, left)) : ∃ left, bind read next bs = (.error e, left) := by
  obtain ⟨left, h⟩ := h
  exact ⟨left, by rw [bind, h]⟩

/-- With enough bytes left, the check for them passes and reading goes on. -/
theorem bind_need {n : Nat} (h : n ≤ bs.length) (next : Unit → Reader β) :
    bind (need n) next bs = next () bs := by
  rw [bind, need_of_le h]

end Reader

/-- Below the deepest level nothing is read. -/
theorem decodeNext_of_lt {depth : Nat} (h : maxDepth < depth) (bs : Bytes) :
    decodeNext depth bs = (.error .tooDeep, bs) := by
  have hlevels : maxDepth + 1 - depth = 0 := by omega
  rw [decodeNext, hlevels]
  rfl

mutual

/-- What is written for a value is too deep on a level without room for its height. -/
theorem decodeNext_tooDeep {depth : Nat} {bytes : Bytes} :
    (v : Value) → encode v = .ok bytes → v.Ordered → maxDepth < depth + v.height →
      ∀ rest, ∃ left, decodeNext depth (bytes ++ rest) = (.error .tooDeep, left)
  | .list items, h, ho, hd, rest => by
    by_cases hlevel : maxDepth < depth
    · exact ⟨_, decodeNext_of_lt hlevel _⟩
    have hle := Nat.le_of_not_lt hlevel
    obtain ⟨header, body, hheader, hbody, rfl⟩ := encode_list_eq_ok_iff.mp h
    have hneed : items.length ≤ (body ++ rest).length :=
      Nat.le_trans (length_le_of_encodeItems hbody) (by simp)
    rw [decodeNext_of_le hle, List.append_assoc,
      Reader.afterMarker_sizeHeader (.inr (.inl rfl)) (sizeHeader_of_sizeBytes hheader),
      Reader.list, Reader.bind_need hneed]
    exact Reader.bind_of_error (items_tooDeep hle items hbody ho hd [] rest)
  | .map entries, h, ho, hd, rest => by
    by_cases hlevel : maxDepth < depth
    · exact ⟨_, decodeNext_of_lt hlevel _⟩
    have hle := Nat.le_of_not_lt hlevel
    obtain ⟨header, body, hheader, hbody, rfl⟩ := encode_map_eq_ok_iff.mp h
    have hneed : 2 * entries.length ≤ (body ++ rest).length :=
      Nat.le_trans (length_le_of_encodeEntries hbody) (by simp)
    rw [decodeNext_of_le hle, List.append_assoc,
      Reader.afterMarker_sizeHeader (.inr (.inr rfl)) (sizeHeader_of_sizeBytes hheader),
      Reader.mapOf, Reader.bind_need hneed]
    exact Reader.bind_of_error (entries_tooDeep hle entries hbody ho.2 hd [] ∅ rest
      (nodup_of_ascending ho.1) (by simp))
  | .struct tag fields, h, ho, hd, rest => by
    by_cases hlevel : maxDepth < depth
    · exact ⟨_, decodeNext_of_lt hlevel _⟩
    have hle := Nat.le_of_not_lt hlevel
    obtain ⟨start, body, hstart, hbody, rfl⟩ := encode_struct_eq_ok_iff.mp h
    obtain ⟨header, rfl, hheader⟩ := structureHeader_of_eq hstart
    have hneed : fields.length ≤ (body ++ rest).length :=
      Nat.le_trans (length_le_of_encodeItems hbody) (by simp)
    rw [decodeNext_of_le hle, List.append_assoc, List.append_assoc,
      Reader.afterMarker_structureHeader hheader]
    show ∃ left, Reader.bind (Reader.need fields.length) _ (body ++ rest) = _
    rw [Reader.bind_need hneed]
    exact Reader.bind_of_error (items_tooDeep hle fields hbody ho hd [] rest)
  | .null, _, _, hd, _ => ⟨_, decodeNext_of_lt hd _⟩
  | .boolean _, _, _, hd, _ => ⟨_, decodeNext_of_lt hd _⟩
  | .integer _, _, _, hd, _ => ⟨_, decodeNext_of_lt hd _⟩
  | .float _, _, _, hd, _ => ⟨_, decodeNext_of_lt hd _⟩
  | .string _, _, _, hd, _ => ⟨_, decodeNext_of_lt hd _⟩

/-- What is written for items is too deep where one of them is. -/
theorem items_tooDeep {depth : Nat} {bytes : Bytes} (hle : depth ≤ maxDepth) :
    (vs : List Value) → encodeItems vs = .ok bytes → Value.OrderedItems vs →
      maxDepth < depth + Value.heightOfItems vs → ∀ before rest, ∃ left,
      Reader.items (decodeNext (depth + 1)) before vs.length (bytes ++ rest) =
        (.error .tooDeep, left)
  | [], _, _, hd, _, _ => absurd hd (Nat.not_lt_of_le hle)
  | v :: vs, h, ho, hd, before, rest => by
    obtain ⟨item, items, hitem, hitems, rfl⟩ := encodeItems_cons_eq_ok_iff.mp h
    rw [Value.OrderedItems] at ho
    rw [Value.heightOfItems] at hd
    simp only [List.append_assoc, List.length_cons, Reader.items]
    by_cases hv : maxDepth < depth + 1 + v.height
    · obtain ⟨left, hfirst⟩ := decodeNext_tooDeep v hitem ho.1 hv (items ++ rest)
      exact ⟨left, by rw [hfirst]⟩
    · rw [decodeNext_of_encode hitem ho.1 (Nat.le_of_not_lt hv)]
      exact items_tooDeep hle vs hitems ho.2 (by omega) (v :: before) rest

/-- What is written for entries is too deep where one of their values is, or their keys are. -/
theorem entries_tooDeep {depth : Nat} {bytes : Bytes} (hle : depth ≤ maxDepth) :
    (es : List (String × Value)) → encodeEntries es = .ok bytes → Value.OrderedEntries es →
      maxDepth < depth + Value.heightOfEntries es → ∀ before seen rest,
      (es.map Prod.fst).Nodup → (∀ key ∈ es.map Prod.fst, seen.contains key = false) → ∃ left,
      Reader.entries (decodeNext (depth + 1)) before seen es.length (bytes ++ rest) =
        (.error .tooDeep, left)
  | [], _, _, hd, _, _, _, _, _ => absurd hd (Nat.not_lt_of_le hle)
  | (k, v) :: es, h, ho, hd, before, seen, rest, hnodup, hseen => by
    obtain ⟨key, value, entries, hkey, hvalue, hentries, rfl⟩ :=
      encodeEntries_cons_eq_ok_iff.mp h
    rw [Value.OrderedEntries] at ho
    rw [Value.heightOfEntries] at hd
    rw [List.map_cons, List.nodup_cons] at hnodup
    have hnew : seen.contains k = false := hseen k (by simp)
    simp only [List.append_assoc, List.length_cons, Reader.entries]
    by_cases hlevel : maxDepth < depth + 1
    · rw [decodeNext_of_lt hlevel]
      exact ⟨_, rfl⟩
    rw [decodeNext_of_denotes (.scalar (Nat.le_of_not_lt hlevel) (scalar_stringBytes hkey))]
    dsimp only
    by_cases hv : maxDepth < depth + 1 + v.height
    · obtain ⟨left, hfirst⟩ := decodeNext_tooDeep v hvalue ho.1 hv (entries ++ rest)
      exact ⟨left, by rw [hfirst]⟩
    · rw [decodeNext_of_encode hvalue ho.1 (Nat.le_of_not_lt hv)]
      dsimp only
      rw [hnew]
      exact entries_tooDeep hle es hentries ho.2 (by omega) ((k, v) :: before) (seen.insert k)
        rest hnodup.2 (Reader.unseen_insert hnodup.1 fun key hmem ↦
          hseen key (List.mem_cons_of_mem _ hmem))

end

/-- What is written for a value is not read as a value if it has more than 64 levels below it. -/
theorem decode_tooDeep {v : Value} {bytes : Bytes} (h : encode v = .ok bytes) (ho : v.Ordered)
    (hd : maxDepth < v.height) : decode bytes = .error .tooDeep := by
  obtain ⟨left, hread⟩ := decodeNext_tooDeep v h ho (show maxDepth < 0 + v.height by omega) []
  rw [List.append_nil] at hread
  rw [decode, hread]

/-- What is written for a value is read as that value, and nothing after it is taken, on the levels
with room for its height; on all others it is too deep. So it is a value by itself exactly if the
value has at most 64 levels below it. -/
theorem decodeNext_written {v : Value} {bytes : Bytes} (h : encode v = .ok bytes)
    (ho : v.Ordered) :
    (∀ depth rest, depth + v.height ≤ 64 → decodeNext depth (bytes ++ rest) = (.ok v, rest)) ∧
      (∀ depth rest, 64 < depth + v.height →
        ∃ left, decodeNext depth (bytes ++ rest) = (.error .tooDeep, left)) ∧
      (decode bytes = .ok v ↔ v.height ≤ 64) := by
  refine ⟨fun depth rest hd ↦ decodeNext_of_encode h ho hd rest,
    fun depth rest hd ↦ decodeNext_tooDeep v h ho hd rest, ?_⟩
  constructor
  · intro hdecode
    apply Nat.le_of_not_lt
    intro hd
    rw [decode_tooDeep h ho hd] at hdecode
    simp at hdecode
  · exact decode_of_encode h ho

/-- A map of height two, with a structure in it and a NaN with a payload. -/
private def person : Value :=
  .map [("age", .integer (-17)),
    ("name", .struct 0x4E [.float ⟨0x7FF8000000000001⟩, .string "é"])]

/-- The bytes that are written for it. -/
private def personBytes : Bytes :=
  [0xA2, 0x83, 0x61, 0x67, 0x65, 0xC8, 0xEF, 0x84, 0x6E, 0x61, 0x6D, 0x65, 0xB2, 0x4E,
    0xC1, 0x7F, 0xF8, 0, 0, 0, 0, 0, 1, 0x82, 0xC3, 0xA9]

/-- A value of height two fits on level 62 and not on level 63. -/
theorem decodeNext_written_person :
    encode person = .ok personBytes ∧ person.Ordered ∧
      decodeNext 62 (personBytes ++ [0xFF]) = (.ok person, [0xFF]) ∧
      (∃ left, decodeNext 63 (personBytes ++ [0xFF]) = (.error .tooDeep, left)) ∧
      decode personBytes = .ok person := by
  have hwritten : encode person = .ok personBytes := rfl
  have hkeys : ["age", "name"].Pairwise (· < ·) := List.pairwise_pair.mpr (by decide)
  have hordered : person.Ordered := ⟨hkeys, trivial, ⟨trivial, trivial, trivial⟩, trivial⟩
  obtain ⟨hread, hdeep, hwhole⟩ := decodeNext_written hwritten hordered
  exact ⟨hwritten, hordered, hread 62 [0xFF] (by decide), hdeep 63 [0xFF] (by decide),
    hwhole.mpr (by decide)⟩

end ScriptedBolt.PackStream
