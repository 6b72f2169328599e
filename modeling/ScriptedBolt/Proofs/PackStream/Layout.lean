import ScriptedBolt.PackStream.Encode

/-!
# The layout of written values

The writer adds bytes to those that are written already. Which bytes it adds does not hang on what
stands before them, so the bytes of a value are a header and the bytes of the values below it, one
after the other. What is proved about written bytes is proved on this layout; nothing else opens
the writer.
-/

namespace ScriptedBolt.PackStream

/-- The bytes of items, one after the other. -/
def encodeItems (items : List Value) : Except EncodeError Bytes :=
  (writeItems #[] items).map Array.toList

/-- The bytes of entries, each a key and its value, one after the other. -/
def encodeEntries (entries : List (String × Value)) : Except EncodeError Bytes :=
  (writeEntries #[] entries).map Array.toList

/-! ### What is written does not hang on what is written already -/

section Continuing

variable {out : Array UInt8}

/-- A writer that has written before stops where one with nothing before it stops, and else has
written the same. -/
private theorem written_cases {before : Bytes} {after alone : Except EncodeError (Array UInt8)}
    (h : after.map Array.toList = (alone.map Array.toList).map (before ++ ·)) :
    (∃ e, after = .error e ∧ alone = .error e) ∨
      ∃ mid first, after = .ok mid ∧ alone = .ok first ∧
        mid.toList = before ++ first.toList := by
  cases after with
  | error e =>
    cases alone with
    | error e' => exact .inl ⟨e, rfl, by simpa [Except.map] using h.symm⟩
    | ok first => simp [Except.map] at h
  | ok mid =>
    cases alone with
    | error e' => simp [Except.map] at h
    | ok first => exact .inr ⟨mid, first, rfl, rfl, by simpa [Except.map] using h⟩

/-- What follows the first bytes follows them also after other bytes. -/
private theorem map_append {mid first : Array UInt8}
    {written : Array UInt8 → Except EncodeError (Array UInt8)} {more : Except EncodeError Bytes}
    (hmid : mid.toList = out.toList ++ first.toList)
    (h : ∀ out : Array UInt8, (written out).map Array.toList = more.map (out.toList ++ ·)) :
    (written mid).map Array.toList =
      ((written first).map Array.toList).map (out.toList ++ ·) := by
  rw [h, h, hmid]
  cases more with
  | error e => rfl
  | ok bytes => simp [Except.map]

end Continuing

mutual

/-- The bytes of a value are written after those that are written already. -/
theorem toList_write :
    (v : Value) → ∀ out, (write out v).map Array.toList = (encode v).map (out.toList ++ ·)
  | .null, out => by simp [encode, write, Except.map]
  | .boolean b, out => by simp [encode, write, Except.map]
  | .integer i, out => by simp [encode, write, Except.map]
  | .float x, out => by simp [encode, write, Except.map]
  | .string text, out => by
    rw [encode, write, write]
    cases stringBytes text with
    | error e => rfl
    | ok bytes => simp [bind, Except.bind, pure, Except.pure, Except.map]
  | .list items, out => by
    rw [encode, write, write]
    cases sizeBytes "list" 0x90 0xD4 items.length with
    | error e => rfl
    | ok header => exact map_append (by simp) (toList_writeItems items)
  | .map entries, out => by
    rw [encode, write, write]
    cases sizeBytes "map" 0xA0 0xD8 entries.length with
    | error e => rfl
    | ok header => exact map_append (by simp) (toList_writeEntries entries)
  | .struct tag fields, out => by
    rw [encode, write, write]
    cases structureHeader tag fields.length with
    | error e => rfl
    | ok header => exact map_append (by simp) (toList_writeItems fields)

/-- The bytes of items are written after those that are written already. -/
theorem toList_writeItems : (items : List Value) → ∀ out,
    (writeItems out items).map Array.toList = (encodeItems items).map (out.toList ++ ·)
  | [], out => by simp [encodeItems, writeItems, Except.map]
  | item :: items, out => by
    rw [encodeItems, writeItems, writeItems]
    rcases written_cases (toList_write item out) with ⟨e, ha, hf⟩ | ⟨mid, first, ha, hf, hmid⟩
    · rw [ha, hf]
      rfl
    · rw [ha, hf]
      exact map_append hmid (toList_writeItems items)

/-- The bytes of entries are written after those that are written already. -/
theorem toList_writeEntries : (entries : List (String × Value)) → ∀ out,
    (writeEntries out entries).map Array.toList = (encodeEntries entries).map (out.toList ++ ·)
  | [], out => by simp [encodeEntries, writeEntries, Except.map]
  | (key, value) :: entries, out => by
    rw [encodeEntries, writeEntries, writeEntries]
    cases stringBytes key with
    | error e => rfl
    | ok bytes =>
      have hvalue : (write (out ++ bytes) value).map Array.toList =
          ((write (#[] ++ bytes) value).map Array.toList).map (out.toList ++ ·) :=
        map_append (by rw [Array.toList_appendList, Array.toList_appendList]; rfl)
          (toList_write value)
      dsimp only
      rcases written_cases hvalue with ⟨e, ha, hf⟩ | ⟨mid, first, ha, hf, hmid⟩
      · rw [ha, hf]
        rfl
      · rw [ha, hf]
        exact map_append hmid (toList_writeEntries entries)

end

/-! ### Headers and what follows them -/

section Layout

variable {bytes : Bytes}

/-- A string is written as its size and its UTF-8. -/
theorem stringBytes_eq_ok_iff {text : String} :
    stringBytes text = .ok bytes ↔
      ∃ header, sizeBytes "string" 0x80 0xD0 text.utf8ByteSize = .ok header ∧
        bytes = header ++ Text.Utf8.encode text := by
  unfold stringBytes
  cases sizeBytes "string" 0x80 0xD0 text.utf8ByteSize with
  | error e => simp [bind, Except.bind]
  | ok header => simp [bind, Except.bind, pure, Except.pure, eq_comm]

/-- Null is written as its marker. -/
theorem encode_null : encode .null = .ok [0xC0] := rfl

/-- A boolean is written as its marker. -/
theorem encode_boolean (b : Bool) : encode (.boolean b) = .ok [if b then 0xC3 else 0xC2] := rfl

/-- An integer is written in its smallest form. -/
theorem encode_integer (i : Int64) : encode (.integer i) = .ok (integerBytes i) := by
  simp [encode, write, Except.map]

/-- A float is written as its marker and its bits. -/
theorem encode_float (x : Binary64) :
    encode (.float x) = .ok (0xC1 :: Bytes.ofNat 8 x.bits.toNat) := by
  simp [encode, write, Except.map]

/-- A value that is a string is written as that string. -/
theorem encode_string (text : String) : encode (.string text) = stringBytes text := by
  rw [encode, write]
  cases stringBytes text with
  | error e => rfl
  | ok bytes => simp [bind, Except.bind, pure, Except.pure, Except.map]

/-- What is written after a header that can be written. -/
private theorem header_then {header : Except EncodeError Bytes}
    {written : Array UInt8 → Except EncodeError (Array UInt8)} {more : Except EncodeError Bytes}
    (h : ∀ out : Array UInt8, (written out).map Array.toList = more.map (out.toList ++ ·)) :
    (header >>= fun start ↦ written ((#[] : Array UInt8) ++ start)).map Array.toList = .ok bytes ↔
      ∃ start body, header = .ok start ∧ more = .ok body ∧ bytes = start ++ body := by
  cases header with
  | error e => simp [bind, Except.bind, Except.map]
  | ok start =>
    simp only [bind, Except.bind, h]
    cases more with
    | error e => simp [Except.map]
    | ok body => simp [Except.map, eq_comm]

/-- A list is written as its size and its items. -/
theorem encode_list_eq_ok_iff {items : List Value} :
    encode (.list items) = .ok bytes ↔
      ∃ header body, sizeBytes "list" 0x90 0xD4 items.length = .ok header ∧
        encodeItems items = .ok body ∧ bytes = header ++ body := by
  rw [encode, write]
  exact header_then (toList_writeItems items)

/-- A map is written as its size and its entries. -/
theorem encode_map_eq_ok_iff {entries : List (String × Value)} :
    encode (.map entries) = .ok bytes ↔
      ∃ header body, sizeBytes "map" 0xA0 0xD8 entries.length = .ok header ∧
        encodeEntries entries = .ok body ∧ bytes = header ++ body := by
  rw [encode, write]
  exact header_then (toList_writeEntries entries)

/-- A structure is written as its header and its fields. -/
theorem encode_struct_eq_ok_iff {tag : UInt8} {fields : List Value} :
    encode (.struct tag fields) = .ok bytes ↔
      ∃ header body, structureHeader tag fields.length = .ok header ∧
        encodeItems fields = .ok body ∧ bytes = header ++ body := by
  rw [encode, write]
  exact header_then (toList_writeItems fields)

/-- No items are written as no bytes. -/
theorem encodeItems_nil : encodeItems [] = .ok [] := rfl

/-- No entries are written as no bytes. -/
theorem encodeEntries_nil : encodeEntries [] = .ok [] := rfl

/-- Items are written as the first of them and the others. -/
theorem encodeItems_cons_eq_ok_iff {v : Value} {vs : List Value} :
    encodeItems (v :: vs) = .ok bytes ↔
      ∃ item items, encode v = .ok item ∧ encodeItems vs = .ok items ∧ bytes = item ++ items := by
  rw [encodeItems, writeItems, encode]
  cases write #[] v with
  | error e => simp [Except.map]
  | ok first =>
    dsimp only
    rw [toList_writeItems vs first]
    cases encodeItems vs with
    | error e => simp [Except.map]
    | ok items => simp [Except.map, eq_comm]

/-- Entries are written as the key of the first of them, its value and the others. -/
theorem encodeEntries_cons_eq_ok_iff {k : String} {v : Value} {es : List (String × Value)} :
    encodeEntries ((k, v) :: es) = .ok bytes ↔
      ∃ key value entries, stringBytes k = .ok key ∧ encode v = .ok value ∧
        encodeEntries es = .ok entries ∧ bytes = key ++ value ++ entries := by
  rw [encodeEntries, writeEntries]
  cases stringBytes k with
  | error e => simp [Except.map]
  | ok key =>
    have hvalue : (write ((#[] : Array UInt8) ++ key) v).map Array.toList =
        (encode v).map (key ++ ·) := by
      simpa using toList_write v ((#[] : Array UInt8) ++ key)
    dsimp only
    rcases written_cases hvalue with ⟨e, ha, hf⟩ | ⟨mid, first, ha, hf, hmid⟩
    · rw [ha, encode, hf]
      simp [Except.map]
    · rw [ha, encode, hf]
      dsimp only
      rw [toList_writeEntries es mid, hmid]
      cases encodeEntries es with
      | error e => simp [Except.map]
      | ok entries => simp [Except.map, eq_comm]

end Layout

end ScriptedBolt.PackStream
