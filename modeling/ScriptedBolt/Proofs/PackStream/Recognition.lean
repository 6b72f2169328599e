import ScriptedBolt.Proofs.PackStream.Reading

/-!
# Reading nothing but what the grammar denotes

A reader that gives a value has taken bytes that stand for it from the front of a sequence, and
left the rest. Each reader is opened once, by what it means that it succeeds; the markers are then
told apart, and the levels are climbed from the deepest one. With the other direction the readers
accept exactly the grammar.
-/

namespace ScriptedBolt.Text.Utf8

/-- Bytes are read as a text exactly if they are its UTF-8. -/
theorem decode_eq_ok_iff {bytes : Bytes} {text : String} :
    decode bytes = .ok text ↔ bytes = encode text := by
  constructor
  · intro h
    unfold decode at h
    split at h
    · next found hfound =>
      obtain rfl := Except.ok.inj h
      rw [String.fromUTF8?] at hfound
      split at hfound
      · next hvalid =>
        obtain rfl := Option.some.inj hfound
        simp [encode, String.fromUTF8]
      · simp at hfound
    · simp at h
  · rintro rfl
    exact decode_encode text

end ScriptedBolt.Text.Utf8

namespace ScriptedBolt.PackStream

namespace Reader

section Opening

variable {α β : Type} {bs rest : Bytes}

/-- Reading on succeeds if both readers do, one after the other. -/
theorem bind_eq_ok_iff {read : Reader α} {next : α → Reader β} {b : β} :
    bind read next bs = (.ok b, rest) ↔
      ∃ a mid, read bs = (.ok a, mid) ∧ next a mid = (.ok b, rest) := by
  unfold bind
  constructor
  · intro h
    split at h
    · next a mid ha => exact ⟨a, mid, ha, h⟩
    · simp at h
  · rintro ⟨a, mid, ha, hb⟩
    rw [ha]
    exact hb

/-- A function is applied to what is read. -/
theorem map_eq_ok_iff {read : Reader α} {f : α → β} {b : β} :
    map f read bs = (.ok b, rest) ↔ ∃ a, read bs = (.ok a, rest) ∧ f a = b := by
  rw [map, bind_eq_ok_iff]
  constructor
  · rintro ⟨a, mid, ha, hb⟩
    simp only [pure, Prod.mk.injEq, Except.ok.injEq] at hb
    exact ⟨a, hb.2 ▸ ha, hb.1⟩
  · rintro ⟨a, ha, rfl⟩
    exact ⟨a, rest, ha, rfl⟩

/-- A byte is read if there is one. -/
theorem byte_eq_ok_iff {b : UInt8} : byte bs = (.ok b, rest) ↔ bs = b :: rest := by
  cases bs with
  | nil => simp [byte]
  | cons first bs => simp [byte]

/-- The bytes that are taken stand in front of those that are left. -/
theorem take_eq_ok_iff {n : Nat} {front : Bytes} :
    take n bs = (.ok front, rest) ↔ front.length = n ∧ bs = front ++ rest := by
  constructor
  · intro h
    unfold take at h
    split at h
    · next hold =>
      simp only [Prod.mk.injEq, Except.ok.injEq] at h
      obtain ⟨rfl, rfl⟩ := h
      refine ⟨?_, (List.take_append_drop n bs).symm⟩
      rw [List.length_take]
      exact Nat.min_eq_left ((Bytes.holds_iff bs n).mp hold)
    · simp at h
  · rintro ⟨hlen, rfl⟩
    exact take_append hlen rest

/-- The check for enough bytes passes if there are enough of them, and takes none. -/
theorem need_eq_ok_iff {n : Nat} {u : Unit} :
    need n bs = (.ok u, rest) ↔ n ≤ bs.length ∧ bs = rest := by
  constructor
  · intro h
    unfold need at h
    split at h
    · next hold =>
      simp only [Prod.mk.injEq, true_and] at h
      exact ⟨(Bytes.holds_iff bs n).mp hold, h⟩
    · simp at h
  · rintro ⟨hle, rfl⟩
    exact need_of_le hle

/-- A size is read from its bytes, whatever size of that width it is. -/
theorem size_eq_ok_iff {width n : Nat} :
    size width bs = (.ok n, rest) ↔
      n < Nat.pow 256 width ∧ bs = Bytes.ofNat width n ++ rest := by
  rw [size, map_eq_ok_iff]
  constructor
  · rintro ⟨digits, htake, rfl⟩
    obtain ⟨rfl, rfl⟩ := take_eq_ok_iff.mp htake
    exact ⟨Bytes.toNat_lt digits, by rw [Bytes.ofNat_toNat]⟩
  · rintro ⟨hlt, rfl⟩
    refine ⟨Bytes.ofNat width n, take_append (Bytes.length_ofNat width n) rest, ?_⟩
    rw [Bytes.toNat_ofNat]
    exact Nat.mod_eq_of_lt hlt

/-- The string that is read is the one whose UTF-8 the bytes are. -/
theorem string_eq_ok_iff {n : Nat} {v : Value} :
    string n bs = (.ok v, rest) ↔ ∃ text, v = .string text ∧
      (Text.Utf8.encode text).length = n ∧ bs = Text.Utf8.encode text ++ rest := by
  constructor
  · intro h
    unfold string at h
    split at h
    · simp at h
    · next htake =>
      obtain ⟨hlen, rfl⟩ := take_eq_ok_iff.mp htake
      split at h
      · next text htext =>
        simp only [Prod.mk.injEq, Except.ok.injEq] at h
        obtain ⟨rfl, rfl⟩ := h
        obtain rfl := Text.Utf8.decode_eq_ok_iff.mp htext
        exact ⟨text, rfl, hlen, rfl⟩
      · simp at h
  · rintro ⟨text, rfl, hlen, rfl⟩
    simp only [string, take_append hlen, Text.Utf8.decode_encode]

end Opening

/-- Whether a reader gives a value only for bytes that stand for it on a level. -/
def Sound (depth : Nat) (item : Reader Value) : Prop :=
  ∀ (bytes rest : Bytes) (v : Value), item bytes = (.ok v, rest) →
    ∃ front, bytes = front ++ rest ∧ Denotes depth front v

/-- Whether a reader that goes on from a size gives a value only for bytes that stand for it on a
level together with the header of the size. -/
def SoundAfter (depth : Nat) (Header : Bytes → Nat → Prop) (next : Nat → Reader Value) : Prop :=
  ∀ (header bytes rest : Bytes) (n : Nat) (v : Value), Header header n →
    next n bytes = (.ok v, rest) → ∃ body, bytes = body ++ rest ∧ Denotes depth (header ++ body) v

variable {depth : Nat} {item : Reader Value} {bytes rest : Bytes}

/-- Items that are read are denoted, after those that were read before. -/
theorem denoteItems_of_items (hitem : Sound depth item) {count : Nat} {before vs : List Value}
    (h : items item before count bytes = (.ok vs, rest)) :
    ∃ front more, vs = before.reverse ++ more ∧ more.length = count ∧ bytes = front ++ rest ∧
      DenoteItems depth front more := by
  induction count generalizing before bytes with
  | zero =>
    simp only [items, pure, Prod.mk.injEq, Except.ok.injEq] at h
    obtain ⟨rfl, rfl⟩ := h
    exact ⟨[], [], (List.append_nil _).symm, rfl, rfl, .nil⟩
  | succ count ih =>
    simp only [items] at h
    split at h
    · next v mid hv =>
      obtain ⟨first, rfl, hfirst⟩ := hitem _ _ _ hv
      obtain ⟨front, more, rfl, rfl, rfl, hmore⟩ := ih h
      refine ⟨first ++ front, v :: more, ?_, rfl, ?_, .cons hfirst hmore⟩
      · rw [List.reverse_cons, List.append_assoc, List.singleton_append]
      · rw [List.append_assoc]
    · simp at h

/-- Entries that are read are denoted, after those that were read before. Their keys are none of
those seen before, and differ from each other. -/
theorem denoteEntries_of_entries (hitem : Sound depth item) {count : Nat}
    {before es : List (String × Value)} {seen : Std.HashSet String}
    (h : entries item before seen count bytes = (.ok es, rest)) :
    ∃ front more, es = before.reverse ++ more ∧ more.length = count ∧ bytes = front ++ rest ∧
      DenoteEntries depth front more ∧ (more.map Prod.fst).Nodup ∧
      ∀ key ∈ more.map Prod.fst, seen.contains key = false := by
  induction count generalizing before seen bytes with
  | zero =>
    simp only [entries, pure, Prod.mk.injEq, Except.ok.injEq] at h
    obtain ⟨rfl, rfl⟩ := h
    exact ⟨[], [], (List.append_nil _).symm, rfl, rfl, .nil, .nil, by simp⟩
  | succ count ih =>
    simp only [entries] at h
    split at h
    · simp at h
    · next k afterKey hreadKey =>
      obtain ⟨key, rfl, hkey⟩ := hitem _ _ _ hreadKey
      split at h
      · simp at h
      · next v afterValue hreadValue =>
        obtain ⟨value, rfl, hvalue⟩ := hitem _ _ _ hreadValue
        split at h
        · simp at h
        · next hnew =>
          obtain ⟨front, more, rfl, rfl, rfl, hmore, hnodup, hfresh⟩ := ih h
          -- A later key is none of those seen, and so not the key that was added to them either.
          have hother := unseen_of_insert hfresh
          refine ⟨key ++ value ++ front, (k, v) :: more, ?_, rfl, ?_, .cons hkey hvalue hmore,
            ?_, ?_⟩
          · rw [List.reverse_cons, List.append_assoc, List.singleton_append]
          · simp only [List.append_assoc]
          · apply List.nodup_cons.mpr
            refine ⟨?_, hnodup⟩
            intro hmem
            exact (hother k hmem).1 rfl
          · intro other ho
            rcases List.mem_cons.mp ho with rfl | ho
            · simpa using hnew
            · exact (hother other ho).2
    · simp at h

/-- The header of a string is followed by its UTF-8. -/
theorem soundAfter_string (hd : depth ≤ maxDepth) :
    SoundAfter depth (SizeHeader 0x80 0xD0) string := by
  intro header bytes rest n v hheader h
  obtain ⟨text, rfl, rfl, rfl⟩ := string_eq_ok_iff.mp h
  exact ⟨Text.Utf8.encode text, rfl, .scalar hd (.string hheader)⟩

/-- The header of a list is followed by its items. -/
theorem soundAfter_list (hd : depth ≤ maxDepth) (hitem : Sound (depth + 1) item) :
    SoundAfter depth (SizeHeader 0x90 0xD4) (list item) := by
  intro header bytes rest n v hheader hread
  obtain ⟨_, mid, hneed, hmap⟩ := bind_eq_ok_iff.mp hread
  obtain ⟨-, rfl⟩ := need_eq_ok_iff.mp hneed
  obtain ⟨vs, hitems, rfl⟩ := map_eq_ok_iff.mp hmap
  obtain ⟨body, more, rfl, rfl, rfl, hbody⟩ := denoteItems_of_items hitem hitems
  exact ⟨body, rfl, .list hd hheader hbody⟩

/-- The header of a map is followed by its entries. -/
theorem soundAfter_mapOf (hd : depth ≤ maxDepth) (hitem : Sound (depth + 1) item) :
    SoundAfter depth (SizeHeader 0xA0 0xD8) (mapOf item) := by
  intro header bytes rest n v hheader hread
  obtain ⟨_, mid, hneed, hmap⟩ := bind_eq_ok_iff.mp hread
  obtain ⟨-, rfl⟩ := need_eq_ok_iff.mp hneed
  obtain ⟨es, hentries, rfl⟩ := map_eq_ok_iff.mp hmap
  obtain ⟨body, more, rfl, rfl, rfl, hbody, hnodup, -⟩ :=
    denoteEntries_of_entries hitem hentries
  exact ⟨body, rfl, .map hd hheader hbody hnodup⟩

/-- The header of a structure is followed by its tag and its fields. -/
theorem soundAfter_struct (hd : depth ≤ maxDepth) (hitem : Sound (depth + 1) item) :
    SoundAfter depth StructureHeader (struct item) := by
  intro header bytes rest n v hheader hread
  obtain ⟨tag, afterTag, htag, hchecked⟩ := bind_eq_ok_iff.mp hread
  obtain rfl := byte_eq_ok_iff.mp htag
  obtain ⟨_, mid, hneed, hmap⟩ := bind_eq_ok_iff.mp hchecked
  obtain ⟨-, rfl⟩ := need_eq_ok_iff.mp hneed
  obtain ⟨fields, hitems, rfl⟩ := map_eq_ok_iff.mp hmap
  obtain ⟨body, more, rfl, rfl, rfl, hbody⟩ := denoteItems_of_items hitem hitems
  exact ⟨tag :: body, rfl, .struct hd hheader hbody⟩

/-- Whether what is read after a marker stands for its value on a level together with it. -/
private def SoundFrom (depth : Nat) (marker : UInt8) (read : Reader Value) : Prop :=
  ∀ (bytes rest : Bytes) (v : Value), read bytes = (.ok v, rest) →
    ∃ front, bytes = front ++ rest ∧ Denotes depth (marker :: front) v

section Markers

variable {marker : UInt8}

private theorem soundFrom_pure {v : Value} (hd : depth ≤ maxDepth) (h : Scalar [marker] v) :
    SoundFrom depth marker (pure v) := by
  intro bytes rest w hread
  simp only [pure, Prod.mk.injEq, Except.ok.injEq] at hread
  obtain ⟨rfl, rfl⟩ := hread
  exact ⟨[], rfl, .scalar hd h⟩

private theorem soundFrom_integer {width : Nat} (hd : depth ≤ maxDepth)
    (h : (marker, width) ∈ integerMarkers) : SoundFrom depth marker (integer width) := by
  intro bytes rest v hread
  obtain ⟨digits, htake, rfl⟩ := map_eq_ok_iff.mp hread
  obtain ⟨rfl, rfl⟩ := take_eq_ok_iff.mp htake
  exact ⟨digits, rfl, .scalar hd (.integer h)⟩

private theorem soundFrom_float (hd : depth ≤ maxDepth) : SoundFrom depth 0xC1 float := by
  intro bytes rest v hread
  obtain ⟨digits, htake, rfl⟩ := map_eq_ok_iff.mp hread
  obtain ⟨hlen, rfl⟩ := take_eq_ok_iff.mp htake
  exact ⟨digits, rfl, .scalar hd (.float hlen)⟩

variable {Header : Bytes → Nat → Prop} {next : Nat → Reader Value}

private theorem soundFrom_inMarker {n : Nat} (hnext : SoundAfter depth Header next)
    (h : Header [marker] n) : SoundFrom depth marker (next n) := by
  intro bytes rest v hread
  exact hnext _ _ _ _ _ h hread

private theorem soundFrom_size {width : Nat} (hnext : SoundAfter depth Header next)
    (h : ∀ n, n < Nat.pow 256 width → Header (marker :: Bytes.ofNat width n) n) :
    SoundFrom depth marker (bind (size width) next) := by
  intro bytes rest v hread
  obtain ⟨n, mid, hsize, hafter⟩ := bind_eq_ok_iff.mp hread
  obtain ⟨hn, rfl⟩ := size_eq_ok_iff.mp hsize
  obtain ⟨body, rfl, hbody⟩ := hnext _ _ _ _ _ (h n hn) hafter
  exact ⟨Bytes.ofNat width n ++ body, (List.append_assoc ..).symm, hbody⟩

private theorem eq_tiny_add (tiny : UInt8) (h16 : tiny.toNat % 16 = 0)
    (hlow : tiny.toNat ≤ marker.toNat) (hhigh : marker.toNat < tiny.toNat + 16) :
    tiny + UInt8.ofNat (marker.toNat % 16) = marker := by
  have hlt := marker.toNat_lt
  apply UInt8.toNat_inj.mp
  rw [UInt8.toNat_add, UInt8.toNat_ofNat']
  omega

private theorem sizeHeader_marker {tiny wide : UInt8} (h16 : tiny.toNat % 16 = 0)
    (hlow : tiny.toNat ≤ marker.toNat) (hhigh : marker.toNat < tiny.toNat + 16) :
    SizeHeader tiny wide [marker] (marker.toNat % 16) := by
  have h : SizeHeader tiny wide [tiny + UInt8.ofNat (marker.toNat % 16)] (marker.toNat % 16) :=
    .inMarker (Nat.mod_lt _ (by decide))
  rwa [eq_tiny_add tiny h16 hlow hhigh] at h

private theorem structureHeader_marker (hlow : 0xB0 ≤ marker.toNat)
    (hhigh : marker.toNat < 0xC0) : StructureHeader [marker] (marker.toNat % 16) := by
  have h : StructureHeader [0xB0 + UInt8.ofNat (marker.toNat % 16)] (marker.toNat % 16) :=
    .inMarker (Nat.mod_lt _ (by decide))
  rwa [eq_tiny_add 0xB0 rfl hlow hhigh] at h

/-- What is read after a marker stands for its value together with it. -/
private theorem soundFrom_afterMarker (hd : depth ≤ maxDepth) (hitem : Sound (depth + 1) item)
    (marker : UInt8) : SoundFrom depth marker (afterMarker item marker) := by
  have hstring := soundAfter_string hd
  have hlist := soundAfter_list hd hitem
  have hmap := soundAfter_mapOf hd hitem
  have hstruct := soundAfter_struct hd hitem
  have eq_of (b : UInt8) (h : marker.toNat = b.toNat) : marker = b := UInt8.toNat_inj.mp h
  unfold afterMarker
  dsimp only
  by_cases h80 : marker.toNat < 0x80
  · rw [if_pos h80]
    exact soundFrom_pure hd (.tiny h80)
  rw [if_neg h80]
  by_cases hF0 : 0xF0 ≤ marker.toNat
  · rw [if_pos hF0]
    exact soundFrom_pure hd (.tinyNegative hF0)
  rw [if_neg hF0]
  by_cases h90 : marker.toNat < 0x90
  · rw [if_pos h90]
    exact soundFrom_inMarker hstring (sizeHeader_marker rfl (Nat.le_of_not_lt h80) h90)
  rw [if_neg h90]
  by_cases hA0 : marker.toNat < 0xA0
  · rw [if_pos hA0]
    exact soundFrom_inMarker hlist (sizeHeader_marker rfl (Nat.le_of_not_lt h90) hA0)
  rw [if_neg hA0]
  by_cases hB0 : marker.toNat < 0xB0
  · rw [if_pos hB0]
    exact soundFrom_inMarker hmap (sizeHeader_marker rfl (Nat.le_of_not_lt hA0) hB0)
  rw [if_neg hB0]
  by_cases hC0 : marker.toNat < 0xC0
  · rw [if_pos hC0]
    exact soundFrom_inMarker hstruct (structureHeader_marker (Nat.le_of_not_lt hB0) hC0)
  rw [if_neg hC0]
  split
  case h_1 h => exact eq_of 0xC0 h ▸ soundFrom_pure hd .null
  case h_2 h => exact eq_of 0xC1 h ▸ soundFrom_float hd
  case h_3 h => exact eq_of 0xC2 h ▸ soundFrom_pure hd (.boolean false)
  case h_4 h => exact eq_of 0xC3 h ▸ soundFrom_pure hd (.boolean true)
  case h_5 h => exact eq_of 0xC8 h ▸ soundFrom_integer hd (by decide)
  case h_6 h => exact eq_of 0xC9 h ▸ soundFrom_integer hd (by decide)
  case h_7 h => exact eq_of 0xCA h ▸ soundFrom_integer hd (by decide)
  case h_8 h => exact eq_of 0xCB h ▸ soundFrom_integer hd (by decide)
  case h_9 h => exact eq_of 0xD0 h ▸ soundFrom_size hstring fun _ hn ↦ .oneByte hn
  case h_10 h => exact eq_of 0xD1 h ▸ soundFrom_size hstring fun _ hn ↦ .twoBytes hn
  case h_11 h => exact eq_of 0xD2 h ▸ soundFrom_size hstring fun _ hn ↦ .fourBytes hn
  case h_12 h => exact eq_of 0xD4 h ▸ soundFrom_size hlist fun _ hn ↦ .oneByte hn
  case h_13 h => exact eq_of 0xD5 h ▸ soundFrom_size hlist fun _ hn ↦ .twoBytes hn
  case h_14 h => exact eq_of 0xD6 h ▸ soundFrom_size hlist fun _ hn ↦ .fourBytes hn
  case h_15 h => exact eq_of 0xD8 h ▸ soundFrom_size hmap fun _ hn ↦ .oneByte hn
  case h_16 h => exact eq_of 0xD9 h ▸ soundFrom_size hmap fun _ hn ↦ .twoBytes hn
  case h_17 h => exact eq_of 0xDA h ▸ soundFrom_size hmap fun _ hn ↦ .fourBytes hn
  case h_18 h => exact eq_of 0xDC h ▸ soundFrom_size hstruct fun _ hn ↦ .oneByte hn
  case h_19 h => exact eq_of 0xDD h ▸ soundFrom_size hstruct fun _ hn ↦ .twoBytes hn
  case h_20 =>
    intro bytes rest v hread
    simp [fail] at hread

end Markers

end Reader

/-- A value that is read is denoted by the bytes in front of those that are left. -/
theorem sound_decodeNext (depth : Nat) : Reader.Sound depth (decodeNext depth) := by
  -- The induction is on the number of levels below; past the last one nothing is read.
  induction hlevels : maxDepth + 1 - depth generalizing depth with
  | zero =>
    intro bytes rest v h
    rw [decodeNext, hlevels] at h
    simp [Reader.value, Reader.fail] at h
  | succ levels ih =>
    have hd : depth ≤ maxDepth := by omega
    intro bytes rest v h
    rw [decodeNext_of_le hd] at h
    obtain ⟨marker, mid, hmarker, hafter⟩ := Reader.bind_eq_ok_iff.mp h
    obtain rfl := Reader.byte_eq_ok_iff.mp hmarker
    obtain ⟨front, rfl, hfront⟩ :=
      Reader.soundFrom_afterMarker hd (ih (depth + 1) (by omega)) marker _ _ _ hafter
    exact ⟨marker :: front, rfl, hfront⟩

/-- A value is read from bytes and others are left exactly if the bytes before those stand for the
value. -/
theorem decodeNext_eq_ok_iff {depth : Nat} {bytes rest : Bytes} {v : Value} :
    decodeNext depth bytes = (.ok v, rest) ↔
      ∃ front, bytes = front ++ rest ∧ Denotes depth front v := by
  constructor
  · exact sound_decodeNext depth bytes rest v
  · rintro ⟨front, rfl, hfront⟩
    exact decodeNext_of_denotes hfront rest

/-- Bytes are a value exactly if all of them together stand for it. -/
theorem decode_eq_ok_iff {bytes : Bytes} {v : Value} :
    decode bytes = .ok v ↔ Denotes 0 bytes v := by
  constructor
  · intro h
    unfold decode at h
    split at h
    · simp at h
    · next w hread =>
      obtain rfl := Except.ok.inj h
      obtain ⟨front, rfl, hfront⟩ := decodeNext_eq_ok_iff.mp hread
      rwa [List.append_nil]
    · simp at h
  · intro h
    have hread := decodeNext_of_denotes h []
    rw [List.append_nil] at hread
    rw [decode, hread]

/-- Readers accept exactly the grammar: a value is read exactly if a front part of the bytes stands
for it, and where no front part stands for any value there is an error. The checks on how many
bytes are left refuse no items and no entries that are there. -/
theorem decodeNext_recognizes (depth : Nat) (bytes : Bytes) :
    (∀ v rest, decodeNext depth bytes = (.ok v, rest) ↔
        ∃ front, bytes = front ++ rest ∧ Denotes depth front v) ∧
      ((∀ front rest v, bytes = front ++ rest → ¬Denotes depth front v) →
        ∃ e rest, decodeNext depth bytes = (.error e, rest)) ∧
      (∀ body rest items, bytes = body ++ rest → DenoteItems (depth + 1) body items →
        Reader.need items.length bytes = (.ok (), bytes)) ∧
      (∀ body rest entries, bytes = body ++ rest → DenoteEntries (depth + 1) body entries →
        Reader.need (2 * entries.length) bytes = (.ok (), bytes)) := by
  refine ⟨fun v rest ↦ decodeNext_eq_ok_iff, ?_, ?_, ?_⟩
  · intro hnone
    cases hread : decodeNext depth bytes with
    | mk result rest =>
      cases result with
      | error e => exact ⟨e, rest, rfl⟩
      | ok v =>
        obtain ⟨front, hbytes, hfront⟩ := decodeNext_eq_ok_iff.mp hread
        exact absurd hfront (hnone front rest v hbytes)
  · rintro body rest items rfl hbody
    exact Reader.need_of_le (Nat.le_trans hbody.length_le (by simp))
  · rintro body rest entries rfl hbody
    exact Reader.need_of_le (Nat.le_trans hbody.length_le (by simp))

end ScriptedBolt.PackStream
