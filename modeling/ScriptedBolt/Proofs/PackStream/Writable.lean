import ScriptedBolt.Proofs.PackStream.Layout

/-!
# What can be written

A value can be written unless something in it, at any depth, has a size that its header cannot
hold: four bytes for strings, lists and maps, and two for structures. Nothing else makes the
writer fail, and what comes before the value at fault, however much of it there is, does not help.
-/

namespace ScriptedBolt

namespace Value

/-- Whether a value occurs in another one, at any depth. Each occurs in itself. -/
inductive Occurs (w : Value) : Value → Prop
  | here : Occurs w w
  | item {items : List Value} {item : Value} (hmem : item ∈ items) (h : Occurs w item) :
    Occurs w (.list items)
  | entry {entries : List (String × Value)} {entry : String × Value} (hmem : entry ∈ entries)
    (h : Occurs w entry.2) : Occurs w (.map entries)
  | field {tag : UInt8} {fields : List Value} {field : Value} (hmem : field ∈ fields)
    (h : Occurs w field) : Occurs w (.struct tag fields)

/-- Whether four bytes hold the size of a value that is a string, a list or a map, and those of
the keys of a map. -/
def Counted : Value → Prop
  | string text => text.utf8ByteSize < 0x100000000
  | list items => items.length < 0x100000000
  | map entries =>
    entries.length < 0x100000000 ∧ ∀ entry ∈ entries, entry.1.utf8ByteSize < 0x100000000
  | _ => True

/-- Whether a value is a structure with more fields than two bytes count. -/
def Overfull : Value → Prop
  | struct _ fields => 0xFFFF < fields.length
  | _ => False

/-- Whether the header of a value holds its size. -/
def Fits (v : Value) : Prop := v.Counted ∧ ¬v.Overfull

variable {P : Value → Prop}

/-- What holds of all that occurs in a list holds of it and of all that occurs in its items. -/
theorem forall_occurs_list_iff {items : List Value} :
    (∀ w : Value, w.Occurs (.list items) → P w) ↔
      P (.list items) ∧ ∀ item ∈ items, ∀ w : Value, w.Occurs item → P w := by
  constructor
  · intro h
    exact ⟨h _ .here, fun item hmem w hw ↦ h w (.item hmem hw)⟩
  · rintro ⟨hself, hitems⟩ w hw
    cases hw with
    | here => exact hself
    | item hmem hw => exact hitems _ hmem w hw

/-- What holds of all that occurs in a map holds of it and of all that occurs in its values. -/
theorem forall_occurs_map_iff {entries : List (String × Value)} :
    (∀ w : Value, w.Occurs (.map entries) → P w) ↔
      P (.map entries) ∧ ∀ entry ∈ entries, ∀ w : Value, w.Occurs entry.2 → P w := by
  constructor
  · intro h
    exact ⟨h _ .here, fun entry hmem w hw ↦ h w (.entry hmem hw)⟩
  · rintro ⟨hself, hentries⟩ w hw
    cases hw with
    | here => exact hself
    | entry hmem hw => exact hentries _ hmem w hw

/-- What holds of all that occurs in a structure holds of it and of all that occurs in its
fields. -/
theorem forall_occurs_struct_iff {tag : UInt8} {fields : List Value} :
    (∀ w : Value, w.Occurs (.struct tag fields) → P w) ↔
      P (.struct tag fields) ∧ ∀ field ∈ fields, ∀ w : Value, w.Occurs field → P w := by
  constructor
  · intro h
    exact ⟨h _ .here, fun field hmem w hw ↦ h w (.field hmem hw)⟩
  · rintro ⟨hself, hfields⟩ w hw
    cases hw with
    | here => exact hself
    | field hmem hw => exact hfields _ hmem w hw

end Value

namespace PackStream

/-! ### Headers -/

/-- Four bytes hold a size below `0x100000000`. -/
theorem exists_sizeBytes_iff {kind : String} {tiny wide : UInt8} {size : Nat} :
    (∃ header, sizeBytes kind tiny wide size = .ok header) ↔ size < 0x100000000 := by
  unfold sizeBytes
  constructor
  · rintro ⟨header, h⟩
    repeat' split at h
    all_goals first | omega | simp at h
  · intro hlt
    repeat' split
    all_goals exact ⟨_, rfl⟩

/-- Two bytes hold a number of fields up to `0xFFFF`. -/
theorem exists_structureHeader_iff {tag : UInt8} {size : Nat} :
    (∃ header, structureHeader tag size = .ok header) ↔ size ≤ 0xFFFF := by
  unfold structureHeader
  constructor
  · rintro ⟨header, h⟩
    repeat' split at h
    all_goals first | omega | simp at h
  · intro hle
    repeat' split
    all_goals first | exact ⟨_, rfl⟩ | omega

/-- What is written as one part after the other can be written if both parts can. -/
private theorem exists_append_iff {Front Back : Bytes → Prop} :
    (∃ bytes front back, Front front ∧ Back back ∧ bytes = front ++ back) ↔
      (∃ front, Front front) ∧ ∃ back, Back back := by
  constructor
  · rintro ⟨_, front, back, hfront, hback, -⟩
    exact ⟨⟨front, hfront⟩, back, hback⟩
  · rintro ⟨⟨front, hfront⟩, back, hback⟩
    exact ⟨_, front, back, hfront, hback, rfl⟩

/-- A string can be written if four bytes hold the size of its UTF-8. -/
theorem exists_stringBytes_iff {text : String} :
    (∃ bytes, stringBytes text = .ok bytes) ↔ text.utf8ByteSize < 0x100000000 := by
  simp only [stringBytes_eq_ok_iff]
  rw [← exists_sizeBytes_iff]
  constructor
  · rintro ⟨_, header, h, -⟩
    exact ⟨header, h⟩
  · rintro ⟨header, h⟩
    exact ⟨_, header, h, rfl⟩

/-! ### Values -/

/-- A value in which nothing else occurs can be written if it fits. -/
private theorem exists_encode_of_leaf {v : Value} {bytes : Bytes} (h : encode v = .ok bytes)
    (hfits : v.Fits) (hleaf : ∀ w : Value, w.Occurs v → w = v) :
    (∃ bytes, encode v = .ok bytes) ↔ ∀ w : Value, w.Occurs v → w.Fits :=
  ⟨fun _ w hw ↦ hleaf w hw ▸ hfits, fun _ ↦ ⟨bytes, h⟩⟩

mutual

/-- A value can be written exactly if everything in it fits its header. -/
theorem exists_encode_iff : (v : Value) →
    ((∃ bytes, encode v = .ok bytes) ↔ ∀ w : Value, w.Occurs v → w.Fits)
  | .null => exists_encode_of_leaf encode_null ⟨trivial, id⟩ (by rintro w ⟨⟩; rfl)
  | .boolean b => exists_encode_of_leaf (encode_boolean b) ⟨trivial, id⟩ (by rintro w ⟨⟩; rfl)
  | .integer i => exists_encode_of_leaf (encode_integer i) ⟨trivial, id⟩ (by rintro w ⟨⟩; rfl)
  | .float x => exists_encode_of_leaf (encode_float x) ⟨trivial, id⟩ (by rintro w ⟨⟩; rfl)
  | .string text => by
    rw [encode_string, exists_stringBytes_iff]
    constructor
    · rintro hlt w ⟨⟩
      exact ⟨hlt, id⟩
    · intro h
      exact (h _ .here).1
  | .list items => by
    have hfits : (Value.list items).Fits ↔ items.length < 0x100000000 := and_iff_left id
    simp only [encode_list_eq_ok_iff]
    rw [exists_append_iff, exists_sizeBytes_iff, exists_encodeItems_iff items,
      Value.forall_occurs_list_iff, hfits]
  | .map entries => by
    have hfits : (Value.map entries).Fits ↔
        entries.length < 0x100000000 ∧ ∀ entry ∈ entries, entry.1.utf8ByteSize < 0x100000000 :=
      and_iff_left id
    simp only [encode_map_eq_ok_iff]
    rw [exists_append_iff, exists_sizeBytes_iff, exists_encodeEntries_iff entries,
      Value.forall_occurs_map_iff, hfits, and_assoc, ← forall_and]
    simp only [← imp_and]
  | .struct tag fields => by
    have hfits : (Value.struct tag fields).Fits ↔ fields.length ≤ 0xFFFF :=
      (and_iff_right trivial).trans Nat.not_lt
    simp only [encode_struct_eq_ok_iff]
    rw [exists_append_iff, exists_structureHeader_iff, exists_encodeItems_iff fields,
      Value.forall_occurs_struct_iff, hfits]

/-- Items can be written exactly if everything in them fits its header. -/
theorem exists_encodeItems_iff : (items : List Value) →
    ((∃ bytes, encodeItems items = .ok bytes) ↔
      ∀ item ∈ items, ∀ w : Value, w.Occurs item → w.Fits)
  | [] => by simp [encodeItems_nil]
  | item :: items => by
    simp only [encodeItems_cons_eq_ok_iff]
    rw [exists_append_iff, exists_encode_iff item, exists_encodeItems_iff items,
      List.forall_mem_cons]

/-- Entries can be written exactly if four bytes hold the sizes of their keys and everything in
their values fits its header. -/
theorem exists_encodeEntries_iff : (entries : List (String × Value)) →
    ((∃ bytes, encodeEntries entries = .ok bytes) ↔ ∀ entry ∈ entries,
      entry.1.utf8ByteSize < 0x100000000 ∧ ∀ w : Value, w.Occurs entry.2 → w.Fits)
  | [] => by simp [encodeEntries_nil]
  | (key, value) :: entries => by
    rw [List.forall_mem_cons, ← exists_stringBytes_iff, ← exists_encode_iff value,
      ← exists_encodeEntries_iff entries]
    simp only [encodeEntries_cons_eq_ok_iff]
    constructor
    · rintro ⟨_, front, middle, back, hkey, hvalue, hentries, -⟩
      exact ⟨⟨⟨front, hkey⟩, middle, hvalue⟩, back, hentries⟩
    · rintro ⟨⟨⟨front, hkey⟩, middle, hvalue⟩, back, hentries⟩
      exact ⟨_, front, middle, back, hkey, hvalue, hentries, rfl⟩

end

end PackStream

end ScriptedBolt
