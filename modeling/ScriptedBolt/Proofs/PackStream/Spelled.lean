import ScriptedBolt.Proofs.PackStream.Recognition

/-!
# Values as they are spelled

Between the bytes and the value stands the spelling of the value: which header each size has, and in
which order the entries of each map come. A spelling may repeat keys. If it does not, its bytes
stand for its value, and every sequence of bytes that stands for a value has such a spelling. If it
does, it is refused for a key that is repeated, and for nothing else (`decodeNext_repeated`).
-/

namespace ScriptedBolt.PackStream

/-- How a value is spelled. The key of an entry is given by its bytes and its text. -/
inductive Spelled where
  | scalar (bytes : Bytes) (v : Value)
  | list (header : Bytes) (items : List Spelled)
  | map (header : Bytes) (entries : List (Bytes × String × Spelled))
  | struct (header : Bytes) (tag : UInt8) (fields : List Spelled)

namespace Spelled

mutual

/-- The bytes of a spelling. -/
def bytes : Spelled → Bytes
  | scalar bytes _ => bytes
  | list header items => header ++ bytesOfItems items
  | map header entries => header ++ bytesOfEntries entries
  | struct header tag fields => header ++ tag :: bytesOfItems fields

/-- The bytes of items, one after the other. -/
def bytesOfItems : List Spelled → Bytes
  | [] => []
  | item :: items => item.bytes ++ bytesOfItems items

/-- The bytes of entries, each a key and its value, one after the other. -/
def bytesOfEntries : List (Bytes × String × Spelled) → Bytes
  | [] => []
  | (key, _, value) :: entries => key ++ value.bytes ++ bytesOfEntries entries

end

mutual

/-- The value that is spelled. -/
def value : Spelled → Value
  | scalar _ v => v
  | list _ items => .list (valuesOfItems items)
  | map _ entries => .ofEntries (valuesOfEntries entries)
  | struct _ tag fields => .struct tag (valuesOfItems fields)

/-- The values of items. -/
def valuesOfItems : List Spelled → List Value
  | [] => []
  | item :: items => item.value :: valuesOfItems items

/-- The keys of entries with their values. -/
def valuesOfEntries : List (Bytes × String × Spelled) → List (String × Value)
  | [] => []
  | (_, text, value) :: entries => (text, value.value) :: valuesOfEntries entries

end

mutual

/-- Whether a spelling follows the grammar on a level, repeated keys apart. -/
def Fits (depth : Nat) : Spelled → Prop
  | scalar bytes v => depth ≤ maxDepth ∧ Scalar bytes v
  | list header items =>
    depth ≤ maxDepth ∧ SizeHeader 0x90 0xD4 header items.length ∧ FitItems (depth + 1) items
  | map header entries =>
    depth ≤ maxDepth ∧ SizeHeader 0xA0 0xD8 header entries.length ∧ FitEntries (depth + 1) entries
  | struct header _ fields =>
    depth ≤ maxDepth ∧ StructureHeader header fields.length ∧ FitItems (depth + 1) fields

/-- Whether all items follow the grammar. -/
def FitItems (depth : Nat) : List Spelled → Prop
  | [] => True
  | item :: items => item.Fits depth ∧ FitItems depth items

/-- Whether the keys and the values of all entries follow the grammar. -/
def FitEntries (depth : Nat) : List (Bytes × String × Spelled) → Prop
  | [] => True
  | (key, text, value) :: entries =>
    (depth ≤ maxDepth ∧ Scalar key (.string text)) ∧ value.Fits depth ∧ FitEntries depth entries

end

/-- The keys of entries. -/
def keys (entries : List (Bytes × String × Spelled)) : List String :=
  entries.map fun entry ↦ entry.2.1

mutual

/-- Whether no map at any depth of a spelling repeats a key. -/
def Distinct : Spelled → Prop
  | scalar _ _ => True
  | list _ items => DistinctItems items
  | map _ entries => (keys entries).Nodup ∧ DistinctEntries entries
  | struct _ _ fields => DistinctItems fields

/-- Whether this holds of all items. -/
def DistinctItems : List Spelled → Prop
  | [] => True
  | item :: items => item.Distinct ∧ DistinctItems items

/-- Whether this holds of the values of all entries. -/
def DistinctEntries : List (Bytes × String × Spelled) → Prop
  | [] => True
  | (_, _, value) :: entries => value.Distinct ∧ DistinctEntries entries

end

variable {depth : Nat}

/-! ### Entries one by one -/

/-- Entries follow the grammar if each of them does. -/
theorem fitEntries_iff {entries : List (Bytes × String × Spelled)} :
    FitEntries depth entries ↔ ∀ entry ∈ entries,
      (depth ≤ maxDepth ∧ Scalar entry.1 (.string entry.2.1)) ∧ entry.2.2.Fits depth := by
  induction entries with
  | nil => simp [FitEntries]
  | cons entry entries ih =>
    obtain ⟨key, text, value⟩ := entry
    rw [FitEntries, ih, List.forall_mem_cons, ← and_assoc]

/-- No key is repeated in the values of entries if none is in any of them. -/
theorem distinctEntries_iff {entries : List (Bytes × String × Spelled)} :
    DistinctEntries entries ↔ ∀ entry ∈ entries, entry.2.2.Distinct := by
  induction entries with
  | nil => simp [DistinctEntries]
  | cons entry entries ih =>
    obtain ⟨key, text, value⟩ := entry
    rw [DistinctEntries, ih, List.forall_mem_cons]

/-- The values of entries, entry by entry. -/
theorem valuesOfEntries_eq_map (entries : List (Bytes × String × Spelled)) :
    valuesOfEntries entries = entries.map fun entry ↦ (entry.2.1, entry.2.2.value) := by
  induction entries with
  | nil => rfl
  | cons entry entries ih =>
    obtain ⟨key, text, value⟩ := entry
    rw [valuesOfEntries, ih, List.map_cons]

/-- There is a value for each item. -/
theorem length_valuesOfItems (items : List Spelled) :
    (valuesOfItems items).length = items.length := by
  induction items with
  | nil => rfl
  | cons item items ih => rw [valuesOfItems, List.length_cons, ih, List.length_cons]

/-- There is a value for each entry. -/
theorem length_valuesOfEntries (entries : List (Bytes × String × Spelled)) :
    (valuesOfEntries entries).length = entries.length := by
  rw [valuesOfEntries_eq_map, List.length_map]

/-- Entries keep their keys. -/
theorem keys_valuesOfEntries (entries : List (Bytes × String × Spelled)) :
    (valuesOfEntries entries).map Prod.fst = keys entries := by
  rw [valuesOfEntries_eq_map, List.map_map]
  rfl

/-! ### Spellings without repeated keys -/

mutual

/-- The bytes of a spelling that repeats no key stand for its value. -/
theorem denotes : (s : Spelled) → (depth : Nat) → s.Fits depth → s.Distinct →
    Denotes depth s.bytes s.value
  | scalar _ _, _, h, _ => .scalar h.1 h.2
  | list header items, depth, ⟨hd, hheader, hitems⟩, hdistinct => by
    rw [← length_valuesOfItems] at hheader
    exact .list hd hheader (denoteItems items (depth + 1) hitems hdistinct)
  | map header entries, depth, ⟨hd, hheader, hentries⟩, ⟨hkeys, hdistinct⟩ => by
    rw [← length_valuesOfEntries] at hheader
    rw [← keys_valuesOfEntries] at hkeys
    exact .map hd hheader (denoteEntries entries (depth + 1) hentries hdistinct) hkeys
  | struct header tag fields, depth, ⟨hd, hheader, hfields⟩, hdistinct => by
    rw [← length_valuesOfItems] at hheader
    exact .struct hd hheader (denoteItems fields (depth + 1) hfields hdistinct)

/-- The bytes of items without repeated keys stand for their values. -/
theorem denoteItems : (items : List Spelled) → (depth : Nat) → FitItems depth items →
    DistinctItems items → DenoteItems depth (bytesOfItems items) (valuesOfItems items)
  | [], _, _, _ => .nil
  | item :: items, depth, ⟨hitem, hitems⟩, ⟨hdistinct, hdistincts⟩ =>
    .cons (denotes item depth hitem hdistinct) (denoteItems items depth hitems hdistincts)

/-- The bytes of entries whose values repeat no keys stand for these entries. -/
theorem denoteEntries : (entries : List (Bytes × String × Spelled)) → (depth : Nat) →
    FitEntries depth entries → DistinctEntries entries →
      DenoteEntries depth (bytesOfEntries entries) (valuesOfEntries entries)
  | [], _, _, _ => .nil
  | (_, _, value) :: entries, depth, ⟨hkey, hvalue, hentries⟩, ⟨hdistinct, hdistincts⟩ =>
    .cons (.scalar hkey.1 hkey.2) (denotes value depth hvalue hdistinct)
      (denoteEntries entries depth hentries hdistincts)

end

end Spelled

mutual

/-- Bytes that stand for a value are those of a spelling of it that repeats no key. -/
theorem exists_spelled_of_denotes {depth : Nat} {bytes : Bytes} {v : Value} :
    Denotes depth bytes v →
      ∃ s : Spelled, s.Fits depth ∧ s.Distinct ∧ s.bytes = bytes ∧ s.value = v
  | .scalar hd h => ⟨.scalar bytes v, ⟨hd, h⟩, trivial, rfl, rfl⟩
  | @Denotes.list _ header body items hd h hb => by
    obtain ⟨spelled, hfit, hdistinct, rfl, rfl⟩ := exists_spelled_of_denoteItems hb
    rw [Spelled.length_valuesOfItems] at h
    exact ⟨.list header spelled, ⟨hd, h, hfit⟩, hdistinct, rfl, rfl⟩
  | @Denotes.map _ header body entries hd h hb hk => by
    obtain ⟨spelled, hfit, hdistinct, rfl, rfl⟩ := exists_spelled_of_denoteEntries hb
    rw [Spelled.length_valuesOfEntries] at h
    rw [Spelled.keys_valuesOfEntries] at hk
    exact ⟨.map header spelled, ⟨hd, h, hfit⟩, ⟨hk, hdistinct⟩, rfl, rfl⟩
  | @Denotes.struct _ header body tag fields hd h hb => by
    obtain ⟨spelled, hfit, hdistinct, rfl, rfl⟩ := exists_spelled_of_denoteItems hb
    rw [Spelled.length_valuesOfItems] at h
    exact ⟨.struct header tag spelled, ⟨hd, h, hfit⟩, hdistinct, rfl, rfl⟩

/-- Bytes that stand for items are those of spellings of them. -/
theorem exists_spelled_of_denoteItems {depth : Nat} {bytes : Bytes} {vs : List Value} :
    DenoteItems depth bytes vs → ∃ items, Spelled.FitItems depth items ∧
      Spelled.DistinctItems items ∧ Spelled.bytesOfItems items = bytes ∧
        Spelled.valuesOfItems items = vs
  | .nil => ⟨[], trivial, trivial, rfl, rfl⟩
  | .cons h hs => by
    obtain ⟨item, hfit, hdistinct, rfl, rfl⟩ := exists_spelled_of_denotes h
    obtain ⟨items, hfits, hdistincts, rfl, rfl⟩ := exists_spelled_of_denoteItems hs
    exact ⟨item :: items, ⟨hfit, hfits⟩, ⟨hdistinct, hdistincts⟩, rfl, rfl⟩

/-- Bytes that stand for entries are those of spellings of them. -/
theorem exists_spelled_of_denoteEntries {depth : Nat} {bytes : Bytes}
    {es : List (String × Value)} : DenoteEntries depth bytes es →
      ∃ entries, Spelled.FitEntries depth entries ∧ Spelled.DistinctEntries entries ∧
        Spelled.bytesOfEntries entries = bytes ∧ Spelled.valuesOfEntries entries = es
  | .nil => ⟨[], trivial, trivial, rfl, rfl⟩
  | @DenoteEntries.cons _ key _ _ k _ _ hk hv hs => by
    obtain ⟨value, hfit, hdistinct, rfl, rfl⟩ := exists_spelled_of_denotes hv
    obtain ⟨entries, hfits, hdistincts, rfl, rfl⟩ := exists_spelled_of_denoteEntries hs
    exact ⟨(key, k, value) :: entries, ⟨⟨hk.depth_le, hk.scalar_of_string⟩, hfit, hfits⟩,
      ⟨hdistinct, hdistincts⟩, rfl, rfl⟩

end

namespace Spelled

/-! ### Spellings with repeated keys -/

/-- A spelling takes at least a byte. -/
theorem length_bytes_pos {depth : Nat} {s : Spelled} (h : s.Fits depth) : 0 < s.bytes.length := by
  cases s with
  | scalar bytes v => exact h.2.length_pos
  | list header items | map header items | struct header tag fields =>
    have := h.2.1.length_pos
    rw [bytes, List.length_append]
    omega

/-- Items take at least a byte each. -/
theorem length_le_bytesOfItems {depth : Nat} {items : List Spelled} (h : FitItems depth items) :
    items.length ≤ (bytesOfItems items).length := by
  induction items with
  | nil => exact Nat.zero_le _
  | cons item items ih =>
    have := length_bytes_pos h.1
    have := ih h.2
    rw [bytesOfItems, List.length_append, List.length_cons]
    omega

/-- Entries take at least two bytes each. -/
theorem length_le_bytesOfEntries {depth : Nat} {entries : List (Bytes × String × Spelled)}
    (h : FitEntries depth entries) : 2 * entries.length ≤ (bytesOfEntries entries).length := by
  induction entries with
  | nil => exact Nat.zero_le _
  | cons entry entries ih =>
    obtain ⟨key, text, value⟩ := entry
    have := h.1.2.length_pos
    have := length_bytes_pos h.2.1
    have := ih h.2.2
    rw [bytesOfEntries, List.length_append, List.length_append, List.length_cons]
    omega

end Spelled

/-- Whether a reader refuses bytes for a key that is repeated. -/
def Reader.Repeats {α : Type} (read : Reader α) (bytes : Bytes) : Prop :=
  ∃ key left, read bytes = (.error (.duplicateKey key), left)

/-- Reading on refuses what the first reader does. -/
theorem Reader.Repeats.bind {α β : Type} {read : Reader α} {next : α → Reader β} {bs : Bytes}
    (h : read.Repeats bs) : (bind read next).Repeats bs := by
  obtain ⟨key, left, hread⟩ := h
  exact ⟨key, left, by rw [Reader.bind, hread]⟩

/-- Where there are enough bytes, what comes after the check for them decides. -/
theorem Reader.Repeats.bind_need {β : Type} {n : Nat} {next : Unit → Reader β} {bs : Bytes}
    (h : (next ()).Repeats bs) (hle : n ≤ bs.length) : (Reader.bind (need n) next).Repeats bs := by
  rwa [Repeats, Reader.bind, need_of_le hle]

mutual

/-- A spelling that repeats a key somewhere is refused for a repeated key, whatever follows it. -/
theorem decodeNext_repeated : (s : Spelled) → (depth : Nat) → s.Fits depth → ¬s.Distinct →
    ∀ rest, (decodeNext depth).Repeats (s.bytes ++ rest)
  | .scalar _ _, _, _, hnot, _ => absurd trivial hnot
  | .list header items, depth, ⟨hd, hheader, hitems⟩, hnot, rest => by
    have hle : items.length ≤ (Spelled.bytesOfItems items ++ rest).length :=
      Nat.le_trans (Spelled.length_le_bytesOfItems hitems) (by simp)
    rw [Reader.Repeats, decodeNext_of_le hd, Spelled.bytes, List.append_assoc,
      Reader.afterMarker_sizeHeader (.inr (.inl rfl)) hheader]
    exact (items_repeated items (depth + 1) hitems hnot [] rest).bind.bind_need hle
  | .map header entries, depth, ⟨hd, hheader, hentries⟩, hnot, rest => by
    have hle : 2 * entries.length ≤ (Spelled.bytesOfEntries entries ++ rest).length :=
      Nat.le_trans (Spelled.length_le_bytesOfEntries hentries) (by simp)
    have hrepeated : ¬((Spelled.keys entries).Nodup ∧ Spelled.DistinctEntries entries ∧
        ∀ key ∈ Spelled.keys entries, (∅ : Std.HashSet String).contains key = false) :=
      fun h ↦ hnot ⟨h.1, h.2.1⟩
    rw [Reader.Repeats, decodeNext_of_le hd, Spelled.bytes, List.append_assoc,
      Reader.afterMarker_sizeHeader (.inr (.inr rfl)) hheader]
    exact (entries_repeated entries (depth + 1) hentries [] ∅ hrepeated rest).bind.bind_need hle
  | .struct header tag fields, depth, ⟨hd, hheader, hfields⟩, hnot, rest => by
    have hle : fields.length ≤ (Spelled.bytesOfItems fields ++ rest).length :=
      Nat.le_trans (Spelled.length_le_bytesOfItems hfields) (by simp)
    rw [Reader.Repeats, decodeNext_of_le hd, Spelled.bytes, List.append_assoc,
      Reader.afterMarker_structureHeader hheader]
    exact (items_repeated fields (depth + 1) hfields hnot [] rest).bind.bind_need hle

/-- Items are refused where one of them repeats a key: those before it are read. -/
theorem items_repeated : (items : List Spelled) → (depth : Nat) →
    Spelled.FitItems depth items → ¬Spelled.DistinctItems items → ∀ before rest,
      (Reader.items (decodeNext depth) before items.length).Repeats
        (Spelled.bytesOfItems items ++ rest)
  | [], _, _, hnot, _, _ => absurd trivial hnot
  | item :: items, depth, ⟨hitem, hitems⟩, hnot, before, rest => by
    rw [Spelled.bytesOfItems, List.append_assoc, List.length_cons, Reader.Repeats]
    simp only [Reader.items]
    by_cases hdistinct : item.Distinct
    · rw [decodeNext_of_denotes (Spelled.denotes item depth hitem hdistinct)]
      have hothers : ¬Spelled.DistinctItems items := fun h ↦ hnot ⟨hdistinct, h⟩
      exact items_repeated items depth hitems hothers (item.value :: before) rest
    · obtain ⟨key, left, hread⟩ := decodeNext_repeated item depth hitem hdistinct
        (Spelled.bytesOfItems items ++ rest)
      exact ⟨key, left, by rw [hread]⟩

/-- Entries are refused where one of their values repeats a key, or their keys are not all new. -/
theorem entries_repeated : (entries : List (Bytes × String × Spelled)) → (depth : Nat) →
    Spelled.FitEntries depth entries → ∀ before seen,
      ¬((Spelled.keys entries).Nodup ∧ Spelled.DistinctEntries entries ∧
        ∀ key ∈ Spelled.keys entries, seen.contains key = false) → ∀ rest,
      (Reader.entries (decodeNext depth) before seen entries.length).Repeats
        (Spelled.bytesOfEntries entries ++ rest)
  | [], _, _, _, _, hnot, _ => absurd ⟨.nil, trivial, by simp [Spelled.keys]⟩ hnot
  | (key, text, value) :: entries, depth, ⟨hkey, hvalue, hentries⟩, before, seen, hnot, rest => by
    rw [Spelled.bytesOfEntries, List.append_assoc, List.append_assoc, List.length_cons,
      Reader.Repeats]
    simp only [Reader.entries, decodeNext_of_denotes (.scalar hkey.1 hkey.2)]
    by_cases hdistinct : value.Distinct
    · simp only [decodeNext_of_denotes (Spelled.denotes value depth hvalue hdistinct)]
      by_cases hseen : seen.contains text = true
      · exact ⟨text, _, if_pos hseen⟩
      · rw [if_neg hseen]
        apply entries_repeated entries depth hentries ((text, value.value) :: before)
        rintro ⟨hnodup, hdistincts, hunseen⟩
        -- The other keys are none of those seen, among which this one is now.
        have hother := Reader.unseen_of_insert hunseen
        apply hnot
        refine ⟨List.nodup_cons.mpr ⟨fun hmem ↦ (hother text hmem).1 rfl, hnodup⟩,
          ⟨hdistinct, hdistincts⟩, ?_⟩
        intro other ho
        rcases List.mem_cons.mp ho with rfl | ho
        · simpa using hseen
        · exact (hother other ho).2
    · obtain ⟨repeated, left, hread⟩ := decodeNext_repeated value depth hvalue hdistinct
        (Spelled.bytesOfEntries entries ++ rest)
      exact ⟨repeated, left, by rw [hread]⟩

end

end ScriptedBolt.PackStream
