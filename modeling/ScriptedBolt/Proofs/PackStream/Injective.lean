import ScriptedBolt.Proofs.PackStream.Writing

/-!
# Written bytes tell values apart

The marker of a value tells its kind and how many bytes of size follow, and so a header tells the
size and where it ends. From there the bytes of two values are compared from left to right: if they
are the same up to what follows them, the values are the same and the same bytes follow. This does
not go through the reader, so it holds of values of any height.
-/

namespace ScriptedBolt

namespace Value

/-- Whether there are never values below a value. -/
def IsScalar : Value → Prop
  | list _ | map _ | struct _ _ => False
  | _ => True

/-- Values of one kind are both scalars or neither is. -/
theorem isScalar_iff_of_typeName {a b : Value} (h : a.typeName = b.typeName) :
    a.IsScalar ↔ b.IsScalar := by
  cases a <;> cases b <;> simp [typeName] at h <;> exact Iff.rfl

end Value

namespace PackStream

-- Powers are those of core, whatever else is imported.
attribute [local instance (2000)] instPowNat

/-! ### Markers -/

/-- The name of the kind of the values that start with a marker. -/
def kindOf (marker : UInt8) : String :=
  let m := marker.toNat
  if m < 0x80 ∨ 0xF0 ≤ m then "integer"
  else if m < 0x90 then "string"
  else if m < 0xA0 then "list"
  else if m < 0xB0 then "map"
  else if m < 0xC0 then "structure"
  else if m = 0xC0 then "null"
  else if m = 0xC1 then "float"
  else if m < 0xC4 then "boolean"
  else if m < 0xCC then "integer"
  else if m < 0xD4 then "string"
  else if m < 0xD8 then "list"
  else if m < 0xDC then "map"
  else "structure"

/-- How many bytes of size follow the marker of a string, a list, a map or a structure. -/
def widthOf (marker : UInt8) : Nat :=
  if marker.toNat < 0xD0 then 0 else 2 ^ (marker.toNat % 4)

/-- The size that a marker gives together with the bytes of size after it. -/
def sizeOf (marker : UInt8) (digits : Bytes) : Nat :=
  if widthOf marker = 0 then marker.toNat % 16 else digits.toNat

/-- Whether a header starts a value of a kind and of a size. -/
def Opens (kind : String) (size : Nat) (header : Bytes) : Prop :=
  ∃ marker digits, header = marker :: digits ∧ kindOf marker = kind ∧
    digits.length = widthOf marker ∧ sizeOf marker digits = size

/-- A header tells the kind and the size, and where it ends. -/
theorem Opens.unique {kind kind' : String} {size size' : Nat} {header header' more more' : Bytes}
    (h : Opens kind size header) (h' : Opens kind' size' header')
    (heq : header ++ more = header' ++ more') : kind = kind' ∧ size = size' ∧ more = more' := by
  obtain ⟨marker, digits, rfl, rfl, hlen, rfl⟩ := h
  obtain ⟨marker', digits', rfl, rfl, hlen', rfl⟩ := h'
  rw [List.cons_append, List.cons_append, List.cons.injEq] at heq
  obtain ⟨rfl, heq⟩ := heq
  obtain ⟨rfl, hmore⟩ := List.append_inj heq (hlen.trans hlen'.symm)
  exact ⟨rfl, rfl, hmore⟩

/-- The kinds of values that have a size, each with its marker for the size 0 and its first marker
that the size follows. -/
def sizedKinds : List (String × UInt8 × UInt8) :=
  [("string", 0x80, 0xD0), ("list", 0x90, 0xD4), ("map", 0xA0, 0xD8), ("structure", 0xB0, 0xDC)]

/-- The markers that hold a size. -/
private theorem inMarker_spec : ∀ entry ∈ sizedKinds, ∀ n < 0x10,
    kindOf (entry.2.1 + UInt8.ofNat n) = entry.1 ∧ widthOf (entry.2.1 + UInt8.ofNat n) = 0 ∧
      (entry.2.1 + UInt8.ofNat n).toNat % 16 = n := by decide

/-- The markers that a size follows. -/
private theorem behindMarker_spec : ∀ entry ∈ sizedKinds, ∀ k < 3,
    kindOf (entry.2.2 + UInt8.ofNat k) = entry.1 ∧
      widthOf (entry.2.2 + UInt8.ofNat k) = 2 ^ k := by decide

section Headers

variable {kind : String} {tiny wide : UInt8} {header : Bytes} {n : Nat}

private theorem opens_inMarker (hkind : (kind, tiny, wide) ∈ sizedKinds) (hn : n < 0x10) :
    Opens kind n [tiny + UInt8.ofNat n] := by
  obtain ⟨hopens, hwidth, hsize⟩ := inMarker_spec _ hkind n hn
  refine ⟨_, [], rfl, hopens, hwidth.symm, ?_⟩
  rw [sizeOf, if_pos hwidth]
  exact hsize

private theorem opens_behindMarker (hkind : (kind, tiny, wide) ∈ sizedKinds) {k : Nat} (hk : k < 3)
    (hn : n < Nat.pow 256 (2 ^ k)) :
    Opens kind n ((wide + UInt8.ofNat k) :: Bytes.ofNat (2 ^ k) n) := by
  obtain ⟨hopens, hwidth⟩ := behindMarker_spec _ hkind k hk
  have hpos : 2 ^ k ≠ 0 := Nat.pos_iff_ne_zero.mp (Nat.pow_pos (by decide))
  refine ⟨_, _, rfl, hopens, ?_, ?_⟩
  · rw [Bytes.length_ofNat, hwidth]
  · rw [sizeOf, if_neg (by rwa [hwidth]), Bytes.toNat_ofNat]
    exact Nat.mod_eq_of_lt hn

/-- The header of a string, a list or a map starts it. -/
theorem opens_of_sizeHeader (hkind : (kind, tiny, wide) ∈ sizedKinds)
    (h : SizeHeader tiny wide header n) : Opens kind n header := by
  cases h with
  | inMarker hn => exact opens_inMarker hkind hn
  | oneByte hn => simpa using opens_behindMarker hkind (k := 0) (by decide) hn
  | twoBytes hn => exact opens_behindMarker hkind (k := 1) (by decide) hn
  | fourBytes hn => exact opens_behindMarker hkind (k := 2) (by decide) hn

/-- What is written for a size starts the value. -/
theorem opens_of_sizeBytes (hkind : (kind, tiny, wide) ∈ sizedKinds)
    (h : sizeBytes kind tiny wide n = .ok header) : Opens kind n header :=
  opens_of_sizeHeader hkind (sizeHeader_of_sizeBytes h)

/-- The header of a structure starts it. -/
theorem opens_of_structureHeader (h : StructureHeader header n) : Opens "structure" n header := by
  have hkind : ("structure", 0xB0, 0xDC) ∈ sizedKinds := by decide
  cases h with
  | inMarker hn => exact opens_inMarker hkind hn
  | oneByte hn => exact opens_behindMarker hkind (k := 0) (by decide) hn
  | twoBytes hn => exact opens_behindMarker hkind (k := 1) (by decide) hn

end Headers

/-! ### Scalars -/

section Scalars

variable {s t r u : Bytes} {a b v : Value}

/-- What is written for a scalar is a spelling of it. -/
theorem scalar_of_encode {bytes : Bytes} (hv : v.IsScalar) (h : encode v = .ok bytes) :
    Scalar bytes v := by
  cases v with
  | null => exact Except.ok.inj (encode_null ▸ h) ▸ .null
  | boolean b => exact Except.ok.inj (encode_boolean b ▸ h) ▸ .boolean b
  | integer i => exact Except.ok.inj (encode_integer i ▸ h) ▸ scalar_integerBytes i
  | float x => exact Except.ok.inj (encode_float x ▸ h) ▸ scalar_floatBytes x
  | string text => exact scalar_stringBytes (encode_string text ▸ h)
  | list _ => exact hv.elim
  | map _ => exact hv.elim
  | struct _ _ => exact hv.elim

/-- The spellings of scalars tell them apart, whatever follows: only one of them can be read. -/
theorem Scalar.unique (ha : Scalar s a) (hb : Scalar t b) (h : s ++ r = t ++ u) :
    a = b ∧ r = u := by
  have hread : Reader.bind Reader.byte (Reader.afterMarker (Reader.fail .tooDeep)) (s ++ r) =
      (.ok a, r) := Reader.afterMarker_scalar ha r
  rw [h, Reader.afterMarker_scalar hb u, Prod.mk.injEq, Except.ok.injEq] at hread
  exact ⟨hread.1.symm, hread.2.symm⟩

/-- The marker of a scalar tells its kind. -/
theorem Scalar.kindOf_marker (h : Scalar s v) :
    ∃ marker more, s = marker :: more ∧ kindOf marker = v.typeName := by
  cases h with
  | null => exact ⟨_, _, rfl, rfl⟩
  | boolean b => exact ⟨_, _, rfl, by cases b <;> rfl⟩
  | tiny h => exact ⟨_, _, rfl, if_pos (.inl h)⟩
  | tinyNegative h => exact ⟨_, _, rfl, if_pos (.inr h)⟩
  | @integer marker digits h =>
    have hkind : ∀ entry ∈ integerMarkers, kindOf entry.1 = "integer" := by decide
    exact ⟨_, _, rfl, hkind _ h⟩
  | float h => exact ⟨_, _, rfl, rfl⟩
  | string h =>
    have hstring : ("string", 0x80, 0xD0) ∈ sizedKinds := by decide
    obtain ⟨marker, digits, rfl, hkind, -⟩ := opens_of_sizeHeader hstring h
    exact ⟨_, _, rfl, hkind⟩

end Scalars

/-! ### Values -/

section Values

variable {s t r u : Bytes}

/-- What is written for a value starts with a marker of its kind. -/
theorem kindOf_encode {v : Value} (h : encode v = .ok s) :
    ∃ marker more, s = marker :: more ∧ kindOf marker = v.typeName := by
  have opened {kind : String} {n : Nat} {header body : Bytes} (ho : Opens kind n header) :
      ∃ marker more, header ++ body = marker :: more ∧ kindOf marker = kind := by
    obtain ⟨marker, digits, rfl, hkind, -⟩ := ho
    exact ⟨_, _, rfl, hkind⟩
  cases v with
  | list items =>
    obtain ⟨header, body, hheader, -, rfl⟩ := encode_list_eq_ok_iff.mp h
    have hlist : ("list", 0x90, 0xD4) ∈ sizedKinds := by decide
    exact opened (opens_of_sizeBytes hlist hheader)
  | map entries =>
    obtain ⟨header, body, hheader, -, rfl⟩ := encode_map_eq_ok_iff.mp h
    have hmap : ("map", 0xA0, 0xD8) ∈ sizedKinds := by decide
    exact opened (opens_of_sizeBytes hmap hheader)
  | struct tag fields =>
    obtain ⟨start, body, hstart, -, rfl⟩ := encode_struct_eq_ok_iff.mp h
    obtain ⟨header, rfl, hheader⟩ := structureHeader_of_eq hstart
    rw [List.append_assoc]
    exact opened (opens_of_structureHeader hheader)
  | _ =>
    refine (scalar_of_encode ?_ h).kindOf_marker
    trivial

/-- Values that are written as the same bytes up to what follows are of one kind. -/
private theorem typeName_eq {a b : Value} (ha : encode a = .ok s) (hb : encode b = .ok t)
    (h : s ++ r = t ++ u) : a.typeName = b.typeName := by
  obtain ⟨marker, more, rfl, hkind⟩ := kindOf_encode ha
  obtain ⟨marker', more', rfl, hkind'⟩ := kindOf_encode hb
  rw [List.cons_append, List.cons_append, List.cons.injEq] at h
  rw [← hkind, ← hkind', h.1]

/-- Scalars are told apart. -/
private theorem eq_of_scalar {a b : Value} (hscalar : a.IsScalar) (ha : encode a = .ok s)
    (hb : encode b = .ok t) (h : s ++ r = t ++ u) : a = b ∧ r = u := by
  have hscalar' := (Value.isScalar_iff_of_typeName (typeName_eq ha hb h)).mp hscalar
  exact (scalar_of_encode hscalar ha).unique (scalar_of_encode hscalar' hb) h

mutual

/-- Values that are written as the same bytes up to what follows are the same, and the same bytes
follow. -/
theorem encode_append_inj {s t r u : Bytes} : (a b : Value) → encode a = .ok s →
    encode b = .ok t → s ++ r = t ++ u → a = b ∧ r = u
  | .null, _, ha, hb, h => eq_of_scalar trivial ha hb h
  | .boolean _, _, ha, hb, h => eq_of_scalar trivial ha hb h
  | .integer _, _, ha, hb, h => eq_of_scalar trivial ha hb h
  | .float _, _, ha, hb, h => eq_of_scalar trivial ha hb h
  | .string _, _, ha, hb, h => eq_of_scalar trivial ha hb h
  | .list items, b, ha, hb, h => by
    have hkind := typeName_eq ha hb h
    obtain ⟨header, body, hheader, hbody, rfl⟩ := encode_list_eq_ok_iff.mp ha
    cases b with
    | list items' =>
      obtain ⟨header', body', hheader', hbody', rfl⟩ := encode_list_eq_ok_iff.mp hb
      rw [List.append_assoc, List.append_assoc] at h
      obtain ⟨-, hlen, hmore⟩ :=
        (opens_of_sizeBytes (by decide) hheader).unique (opens_of_sizeBytes (by decide) hheader') h
      obtain ⟨rfl, hrest⟩ := encodeItems_append_inj items items' hlen hbody hbody' hmore
      exact ⟨rfl, hrest⟩
    | _ => simp [Value.typeName] at hkind
  | .map entries, b, ha, hb, h => by
    have hkind := typeName_eq ha hb h
    obtain ⟨header, body, hheader, hbody, rfl⟩ := encode_map_eq_ok_iff.mp ha
    cases b with
    | map entries' =>
      obtain ⟨header', body', hheader', hbody', rfl⟩ := encode_map_eq_ok_iff.mp hb
      rw [List.append_assoc, List.append_assoc] at h
      obtain ⟨-, hlen, hmore⟩ :=
        (opens_of_sizeBytes (by decide) hheader).unique (opens_of_sizeBytes (by decide) hheader') h
      obtain ⟨rfl, hrest⟩ := encodeEntries_append_inj entries entries' hlen hbody hbody' hmore
      exact ⟨rfl, hrest⟩
    | _ => simp [Value.typeName] at hkind
  | .struct tag fields, b, ha, hb, h => by
    have hkind := typeName_eq ha hb h
    obtain ⟨start, body, hstart, hbody, rfl⟩ := encode_struct_eq_ok_iff.mp ha
    obtain ⟨header, rfl, hheader⟩ := structureHeader_of_eq hstart
    cases b with
    | struct tag' fields' =>
      obtain ⟨start', body', hstart', hbody', rfl⟩ := encode_struct_eq_ok_iff.mp hb
      obtain ⟨header', rfl, hheader'⟩ := structureHeader_of_eq hstart'
      simp only [List.append_assoc, List.cons_append, List.nil_append] at h
      obtain ⟨-, hlen, hmore⟩ :=
        (opens_of_structureHeader hheader).unique (opens_of_structureHeader hheader') h
      obtain ⟨rfl, hfields⟩ := List.cons.inj hmore
      obtain ⟨rfl, hrest⟩ := encodeItems_append_inj fields fields' hlen hbody hbody' hfields
      exact ⟨rfl, hrest⟩
    | _ => simp [Value.typeName] at hkind

/-- Equally many items that are written as the same bytes up to what follows are the same. -/
theorem encodeItems_append_inj {s t r u : Bytes} : (as bs : List Value) →
    as.length = bs.length → encodeItems as = .ok s → encodeItems bs = .ok t → s ++ r = t ++ u →
      as = bs ∧ r = u
  | [], [], _, ha, hb, h => by
    obtain rfl := Except.ok.inj ha
    obtain rfl := Except.ok.inj hb
    exact ⟨rfl, h⟩
  | a :: as, b :: bs, hlen, ha, hb, h => by
    obtain ⟨item, items, hitem, hitems, rfl⟩ := encodeItems_cons_eq_ok_iff.mp ha
    obtain ⟨item', items', hitem', hitems', rfl⟩ := encodeItems_cons_eq_ok_iff.mp hb
    rw [List.append_assoc, List.append_assoc] at h
    obtain ⟨rfl, hmore⟩ := encode_append_inj a b hitem hitem' h
    obtain ⟨rfl, hrest⟩ := encodeItems_append_inj as bs (Nat.succ.inj hlen) hitems hitems' hmore
    exact ⟨rfl, hrest⟩

/-- Equally many entries that are written as the same bytes up to what follows are the same. -/
theorem encodeEntries_append_inj {s t r u : Bytes} : (as bs : List (String × Value)) →
    as.length = bs.length → encodeEntries as = .ok s → encodeEntries bs = .ok t →
      s ++ r = t ++ u → as = bs ∧ r = u
  | [], [], _, ha, hb, h => by
    obtain rfl := Except.ok.inj ha
    obtain rfl := Except.ok.inj hb
    exact ⟨rfl, h⟩
  | (k, a) :: as, (l, b) :: bs, hlen, ha, hb, h => by
    obtain ⟨key, value, entries, hkey, hvalue, hentries, rfl⟩ := encodeEntries_cons_eq_ok_iff.mp ha
    obtain ⟨key', value', entries', hkey', hvalue', hentries', rfl⟩ :=
      encodeEntries_cons_eq_ok_iff.mp hb
    simp only [List.append_assoc] at h
    obtain ⟨hk, hmore⟩ := (scalar_stringBytes hkey).unique (scalar_stringBytes hkey') h
    obtain rfl := Value.string.inj hk
    obtain ⟨rfl, hmore⟩ := encode_append_inj a b hvalue hvalue' hmore
    obtain ⟨rfl, hrest⟩ :=
      encodeEntries_append_inj as bs (Nat.succ.inj hlen) hentries hentries' hmore
    exact ⟨rfl, hrest⟩

end

/-- Values that are written as the same bytes are the same. -/
theorem encode_injective {a b : Value} {bytes : Bytes} (ha : encode a = .ok bytes)
    (hb : encode b = .ok bytes) : a = b :=
  (encode_append_inj (r := []) (u := []) a b ha hb rfl).1

end Values

end PackStream

end ScriptedBolt
