import ScriptedBolt.Message.Payload
import ScriptedBolt.Proofs.PackStream.Spelled
import ScriptedBolt.Script

/-!
# The order of entries

The entries of a map may come in any order, in maps at any depth at once (`Spelled.Reordered`). What
is spelled stays the same value, and a key that is repeated stays repeated. So no peer can tell by
the order in which it sends entries whether its bytes are a value, which one they are, and whether
the message that they spell is the one expected (`decode_reordered`).
-/

namespace ScriptedBolt.PackStream

namespace Spelled

mutual

/-- One spelling is another with the entries of maps in another order, at any depth. -/
inductive Reordered : Spelled → Spelled → Prop
  | scalar {bytes : Bytes} {v : Value} : Reordered (.scalar bytes v) (.scalar bytes v)
  | list {header : Bytes} {items items' : List Spelled} (h : ReorderedItems items items') :
    Reordered (.list header items) (.list header items')
  | map {header : Bytes} {entries within entries' : List (Bytes × String × Spelled)}
    (h : ReorderedEntries entries within) (hperm : within.Perm entries') :
    Reordered (.map header entries) (.map header entries')
  | struct {header : Bytes} {tag : UInt8} {fields fields' : List Spelled}
    (h : ReorderedItems fields fields') :
    Reordered (.struct header tag fields) (.struct header tag fields')

/-- Each item is another with the entries of maps in another order. -/
inductive ReorderedItems : List Spelled → List Spelled → Prop
  | nil : ReorderedItems [] []
  | cons {item item' : Spelled} {items items' : List Spelled} (h : Reordered item item')
    (hs : ReorderedItems items items') : ReorderedItems (item :: items) (item' :: items')

/-- Each entry has its key, and as its value another with the entries of maps in another order. -/
inductive ReorderedEntries : List (Bytes × String × Spelled) → List (Bytes × String × Spelled) → Prop
  | nil : ReorderedEntries [] []
  | cons {key : Bytes} {text : String} {value value' : Spelled}
    {entries entries' : List (Bytes × String × Spelled)} (h : Reordered value value')
    (hs : ReorderedEntries entries entries') :
    ReorderedEntries ((key, text, value) :: entries) ((key, text, value') :: entries')

end

/-- There are as many items as before. -/
theorem ReorderedItems.length_eq {items items' : List Spelled} (h : ReorderedItems items items') :
    items.length = items'.length := by
  induction items generalizing items' with
  | nil => cases h; rfl
  | cons item items ih =>
    cases h with
    | cons h hs => rw [List.length_cons, List.length_cons, ih hs]

/-- Entries keep their keys. -/
theorem ReorderedEntries.keys_eq {entries entries' : List (Bytes × String × Spelled)}
    (h : ReorderedEntries entries entries') : keys entries = keys entries' := by
  induction entries generalizing entries' with
  | nil => cases h; rfl
  | cons entry entries ih =>
    cases h with
    | cons h hs => exact congrArg (_ :: ·) (ih hs)

/-- There are as many entries as before. -/
theorem ReorderedEntries.length_eq {entries entries' : List (Bytes × String × Spelled)}
    (h : ReorderedEntries entries entries') : entries.length = entries'.length := by
  have hlen := congrArg List.length h.keys_eq
  rwa [keys, keys, List.length_map, List.length_map] at hlen

variable {depth : Nat}

mutual

/-- In another order a spelling follows the grammar as before. -/
theorem Reordered.fits {s s' : Spelled} : Reordered s s' → ∀ {depth : Nat}, s.Fits depth →
    s'.Fits depth
  | .scalar, _, h => h
  | .list hs, _, ⟨hd, hheader, hitems⟩ => ⟨hd, hs.length_eq ▸ hheader, hs.fit hitems⟩
  | .map hs hperm, _, ⟨hd, hheader, hentries⟩ => by
    refine ⟨hd, ?_, ?_⟩
    · rwa [← hperm.length_eq, ← hs.length_eq]
    · rw [fitEntries_iff]
      intro entry hmem
      exact fitEntries_iff.mp (hs.fit hentries) entry (hperm.mem_iff.mpr hmem)
  | .struct hs, _, ⟨hd, hheader, hfields⟩ => ⟨hd, hs.length_eq ▸ hheader, hs.fit hfields⟩

/-- So do items. -/
theorem ReorderedItems.fit {items items' : List Spelled} : ReorderedItems items items' →
    ∀ {depth : Nat}, FitItems depth items → FitItems depth items'
  | .nil, _, _ => trivial
  | .cons h hs, _, ⟨hitem, hitems⟩ => ⟨h.fits hitem, hs.fit hitems⟩

/-- So do entries. -/
theorem ReorderedEntries.fit {entries entries' : List (Bytes × String × Spelled)} :
    ReorderedEntries entries entries' → ∀ {depth : Nat}, FitEntries depth entries →
      FitEntries depth entries'
  | .nil, _, _ => trivial
  | .cons h hs, _, ⟨hkey, hvalue, hentries⟩ => ⟨hkey, h.fits hvalue, hs.fit hentries⟩

end

mutual

/-- In another order a spelling repeats a key exactly if it did before. -/
theorem Reordered.distinct_iff {s s' : Spelled} : Reordered s s' → (s.Distinct ↔ s'.Distinct)
  | .scalar => Iff.rfl
  | .list hs => hs.distinct_iff
  | .map hs hperm => by
    have hkeys := (hperm.map fun entry ↦ entry.2.1).nodup_iff
    have hvalues := hs.distinct_iff
    rw [Distinct, Distinct, hs.keys_eq, hvalues, distinctEntries_iff, distinctEntries_iff]
    exact and_congr hkeys (forall_congr' fun _ ↦ imp_congr_left hperm.mem_iff)
  | .struct hs => hs.distinct_iff

/-- So do items. -/
theorem ReorderedItems.distinct_iff {items items' : List Spelled} :
    ReorderedItems items items' → (DistinctItems items ↔ DistinctItems items')
  | .nil => Iff.rfl
  | .cons h hs => and_congr h.distinct_iff hs.distinct_iff

/-- So do the values of entries. -/
theorem ReorderedEntries.distinct_iff {entries entries' : List (Bytes × String × Spelled)} :
    ReorderedEntries entries entries' → (DistinctEntries entries ↔ DistinctEntries entries')
  | .nil => Iff.rfl
  | .cons h hs => and_congr h.distinct_iff hs.distinct_iff

end

mutual

/-- In another order the same value is spelled, if no key is repeated. -/
theorem Reordered.value_eq {s s' : Spelled} : Reordered s s' → s.Distinct → s.value = s'.value
  | .scalar, _ => rfl
  | .list hs, hdistinct => congrArg Value.list (hs.values_eq hdistinct)
  | @Reordered.map header entries within entries' hs hperm, ⟨hkeys, hdistinct⟩ => by
    have hnodup : ((valuesOfEntries entries).map Prod.fst).Nodup := by
      rwa [keys_valuesOfEntries]
    have hvalues : (valuesOfEntries entries).Perm (valuesOfEntries entries') := by
      rw [hs.values_eq hdistinct, valuesOfEntries_eq_map, valuesOfEntries_eq_map]
      exact hperm.map _
    exact congrArg Value.map (Entries.sort_eq_of_perm hnodup hvalues)
  | .struct hs, hdistinct => congrArg (Value.struct _) (hs.values_eq hdistinct)

/-- The same items are spelled. -/
theorem ReorderedItems.values_eq {items items' : List Spelled} : ReorderedItems items items' →
    DistinctItems items → valuesOfItems items = valuesOfItems items'
  | .nil, _ => rfl
  | .cons h hs, ⟨hdistinct, hdistincts⟩ => by
    rw [valuesOfItems, valuesOfItems, h.value_eq hdistinct, hs.values_eq hdistincts]

/-- Each entry spells the same value. -/
theorem ReorderedEntries.values_eq {entries entries' : List (Bytes × String × Spelled)} :
    ReorderedEntries entries entries' → DistinctEntries entries →
      valuesOfEntries entries = valuesOfEntries entries'
  | .nil, _ => rfl
  | .cons h hs, ⟨hdistinct, hdistincts⟩ => by
    rw [valuesOfEntries, valuesOfEntries, h.value_eq hdistinct, hs.values_eq hdistincts]

end

/-- The bytes of a spelling that repeats no key are its value. -/
theorem decode_bytes {s : Spelled} (hfit : s.Fits 0) (h : s.Distinct) :
    decode s.bytes = .ok s.value :=
  decode_eq_ok_iff.mpr (denotes s 0 hfit h)

/-- The bytes of a spelling that repeats a key are no value. -/
theorem decode_repeated {s : Spelled} (hfit : s.Fits 0) (h : ¬s.Distinct) :
    ∃ key, decode s.bytes = .error (.duplicateKey key) := by
  obtain ⟨key, left, hread⟩ := decodeNext_repeated s 0 hfit h []
  rw [List.append_nil] at hread
  exact ⟨key, by rw [decode, hread]⟩

/-- In another order bytes are a value exactly if they were one before, and they are the same. -/
theorem Reordered.decode_eq_ok_iff {s s' : Spelled} (h : s.Reordered s') (hfit : s.Fits 0)
    {v : Value} : decode s'.bytes = .ok v ↔ decode s.bytes = .ok v := by
  by_cases hdistinct : s.Distinct
  · rw [decode_bytes hfit hdistinct, decode_bytes (h.fits hfit) (h.distinct_iff.mp hdistinct),
      h.value_eq hdistinct]
  · obtain ⟨key, hrefused⟩ := decode_repeated hfit hdistinct
    obtain ⟨key', hrefused'⟩ := decode_repeated (h.fits hfit) (mt h.distinct_iff.mpr hdistinct)
    rw [hrefused, hrefused']
    exact iff_of_false nofun nofun

end Spelled

/-- Payloads that are the same values spell the same messages. -/
theorem ofPayload_eq_ok_iff_of_decode {bytes bytes' : Bytes}
    (h : ∀ v, decode bytes' = .ok v ↔ decode bytes = .ok v) {version : Version} {role : Role}
    {m : Message} : Message.ofPayload version role bytes' = .ok m ↔
      Message.ofPayload version role bytes = .ok m := by
  rw [Message.ofPayload, Message.ofPayload]
  cases hread : decode bytes with
  | ok v => rw [(h v).mpr hread]
  | error e =>
    cases hread' : decode bytes' with
    | ok v => exact absurd ((h v).mp hread') (by rw [hread]; nofun)
    | error e' => exact iff_of_false nofun nofun

/-- The order of entries is not told by what is read. All bytes that are a value have a spelling,
which follows the grammar. With the entries of its maps in any other order, at every depth, its
bytes are the same value as before. If it repeats a key in some map, they are refused for a repeated
key, before and after. So a payload spells a message that is the one expected exactly if it does in
any other order. -/
theorem decode_reordered :
    (∀ bytes v, decode bytes = .ok v →
      ∃ s : Spelled, s.Fits 0 ∧ s.Distinct ∧ s.bytes = bytes ∧ s.value = v) ∧
    ∀ s s' : Spelled, s.Fits 0 → s.Reordered s' →
      (∀ v, decode s.bytes = .ok v → decode s'.bytes = .ok v) ∧
      (¬s.Distinct → (∃ key, decode s.bytes = .error (.duplicateKey key)) ∧
        ∃ key, decode s'.bytes = .error (.duplicateKey key)) ∧
      ∀ (version : Version) (script : Script) (expect : Expect),
        (∃ m, Message.ofPayload version .client s'.bytes = .ok m ∧
            script.matchesLine expect m = true) ↔
          ∃ m, Message.ofPayload version .client s.bytes = .ok m ∧
            script.matchesLine expect m = true := by
  refine ⟨fun bytes v h ↦ exists_spelled_of_denotes (decode_eq_ok_iff.mp h), ?_⟩
  intro s s' hfit hreordered
  refine ⟨fun v ↦ (hreordered.decode_eq_ok_iff hfit).mpr, ?_, ?_⟩
  · intro hrepeated
    exact ⟨Spelled.decode_repeated hfit hrepeated, Spelled.decode_repeated (hreordered.fits hfit)
      (mt hreordered.distinct_iff.mpr hrepeated)⟩
  · intro version script expect
    have hpayload (m : Message) : Message.ofPayload version .client s'.bytes = .ok m ↔
        Message.ofPayload version .client s.bytes = .ok m :=
      ofPayload_eq_ok_iff_of_decode fun _ ↦ hreordered.decode_eq_ok_iff hfit
    simp only [hpayload]

/-- A map in a map, with an integer that is wider than it has to be, and with a repeated key if that
is `a`. -/
private def nested (letter : UInt8) (text : String) : Spelled :=
  .map [0xA2] [([0x81, 0x62], "b", .scalar [0xC8, 1] (.integer 1)),
    ([0x81, 0x61], "a", .map [0xD8, 2] [([0x81, 0x61], "a", .scalar [0xC0] .null),
      ([0x81, letter], text, .scalar [0xC3] (.boolean true))])]

/-- The same with the entries of both maps in the other order. -/
private def turned (letter : UInt8) (text : String) : Spelled :=
  .map [0xA2] [([0x81, 0x61], "a", .map [0xD8, 2]
      [([0x81, letter], text, .scalar [0xC3] (.boolean true)),
        ([0x81, 0x61], "a", .scalar [0xC0] .null)]),
    ([0x81, 0x62], "b", .scalar [0xC8, 1] (.integer 1))]

private theorem nested_reordered (letter : UInt8) (text : String) :
    (nested letter text).Reordered (turned letter text) :=
  .map (.cons .scalar (.cons (.map (.cons .scalar (.cons .scalar .nil)) (.swap ..)) .nil)) (.swap ..)

private theorem nested_fits {letter : UInt8} {text : String}
    (h : Scalar [0x81, letter] (.string text)) : (nested letter text).Fits 0 := by
  have ha : Scalar [0x81, 0x61] (.string "a") := scalar_shortString "a" (by decide)
  have hb : Scalar [0x81, 0x62] (.string "b") := scalar_shortString "b" (by decide)
  have hinteger : Scalar [0xC8, 1] (.integer 1) := scalar_integer (by decide) (by decide)
  have houter : SizeHeader 0xA0 0xD8 [0xA2] 2 := .inMarker (n := 2) (by decide)
  have hinner : SizeHeader 0xA0 0xD8 [0xD8, 2] 2 := .oneByte (n := 2) (by decide)
  have hlevel (depth : Nat) (h : depth < 3) : depth ≤ maxDepth := by
    show depth ≤ 64
    omega
  exact ⟨hlevel 0 (by decide), houter, ⟨hlevel 1 (by decide), hb⟩, ⟨hlevel 1 (by decide), hinteger⟩,
    ⟨hlevel 1 (by decide), ha⟩,
    ⟨hlevel 1 (by decide), hinner, ⟨hlevel 2 (by decide), ha⟩, ⟨hlevel 2 (by decide), .null⟩,
      ⟨hlevel 2 (by decide), h⟩, ⟨hlevel 2 (by decide), .boolean true⟩, trivial⟩, trivial⟩

/-- In both orders the two maps are the same value, and with a repeated key in the inner one both
are refused. -/
theorem decode_reordered_nested :
    decode [0xA2, 0x81, 0x61, 0xD8, 2, 0x81, 0x63, 0xC3, 0x81, 0x61, 0xC0, 0x81, 0x62, 0xC8, 1] =
        .ok (.map [("a", .map [("a", .null), ("c", .boolean true)]), ("b", .integer 1)]) ∧
      ∃ key, decode [0xA2, 0x81, 0x61, 0xD8, 2, 0x81, 0x61, 0xC3, 0x81, 0x61, 0xC0,
        0x81, 0x62, 0xC8, 1] = .error (.duplicateKey key) := by
  have hc : Scalar [0x81, 0x63] (.string "c") := scalar_shortString "c" (by decide)
  have ha : Scalar [0x81, 0x61] (.string "a") := scalar_shortString "a" (by decide)
  have hvalue : (nested 0x63 "c").value =
      .map [("a", .map [("a", .null), ("c", .boolean true)]), ("b", .integer 1)] := by
    have hinner : Value.ofEntries [("a", .null), ("c", .boolean true)] =
        .map [("a", .null), ("c", .boolean true)] :=
      congrArg Value.map (Entries.sort_of_ascending (by decide))
    simp only [nested, Spelled.value, Spelled.valuesOfEntries, hinner]
    exact congrArg Value.map (Entries.sort_pair (by decide))
  have hdistinct : (nested 0x63 "c").Distinct :=
    ⟨by decide, trivial, ⟨by decide, trivial, trivial, trivial⟩, trivial⟩
  have hread : decode (nested 0x63 "c").bytes =
      .ok (.map [("a", .map [("a", .null), ("c", .boolean true)]), ("b", .integer 1)]) := by
    rw [← hvalue]
    exact decode_eq_ok_iff.mpr ((nested 0x63 "c").denotes 0 (nested_fits hc) hdistinct)
  have hrepeated : ¬(nested 0x61 "a").Distinct := by
    rintro ⟨-, -, ⟨hkeys, -⟩, -⟩
    exact absurd hkeys (by decide)
  obtain ⟨hsame, -⟩ := decode_reordered.2 _ _ (nested_fits hc) (nested_reordered 0x63 "c")
  obtain ⟨-, hrefused, -⟩ := decode_reordered.2 _ _ (nested_fits ha) (nested_reordered 0x61 "a")
  exact ⟨hsame _ hread, (hrefused hrepeated).2⟩

end ScriptedBolt.PackStream
