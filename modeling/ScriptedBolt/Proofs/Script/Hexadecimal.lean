import ScriptedBolt.Proofs.Script.Spelling

/-!
# Bytes in hexadecimal

Behind `<RAW>` and `HANDSHAKE` stand bytes, two characters each. What counts is neither where blanks
stand nor the case of letters, and what a dump of bytes shows is read as these bytes. The characters
have to be hexadecimal digits, with one exception: the first of a pair may be a plus sign, which
counts as a zero (`readServer_plus`). So it is the characters with a zero in the place of such a
sign that spell the bytes (`readHex_iff`).
-/

namespace ScriptedBolt

namespace Text

/-! ### Digits -/

/-- The hexadecimal digits. -/
def IsHexDigit (c : Char) : Prop := c ∈ "0123456789abcdefABCDEF".toList

instance : DecidablePred IsHexDigit := fun c ↦
  inferInstanceAs (Decidable (c ∈ "0123456789abcdefABCDEF".toList))

/-- The number that a hexadecimal digit stands for. -/
def hexValue (c : Char) : Nat := "0123456789abcdef".toList.idxOf c.toLower

/-- The characters of a text that are not blank. -/
def unblanked (text : List Char) : List Char := text.filter (!isBlank ·)

/-- Whether characters spell bytes: each pair is two hexadecimal digits, read base 16. -/
inductive Spells : List Char → Bytes → Prop
  | nil : Spells [] []
  | pair {high low : Char} {digits : List Char} {b : UInt8} {bytes : Bytes}
    (hhigh : IsHexDigit high) (hlow : IsHexDigit low)
    (hb : b.toNat = 16 * hexValue high + hexValue low) (h : Spells digits bytes) :
    Spells (high :: low :: digits) (b :: bytes)

/-- Characters with a zero in the place of each plus sign that is the first of its pair. -/
def zeroSigns : List Char → List Char
  | high :: low :: digits => (if high = '+' then '0' else high) :: low :: zeroSigns digits
  | digits => digits

/-- What holds of the characters of the ASCII table one by one holds of all of them. -/
private theorem of_ascii {P : Char → Prop} (h : ∀ n < 128, P (Char.ofNat n)) {c : Char}
    (hc : c.toNat < 128) : P c := by
  rw [← Char.ofNat_toNat c]
  exact h c.toNat hc

/-- Hexadecimal digits are in the ASCII table. -/
private theorem not_isHexDigit {c : Char} (hc : ¬c.toNat < 128) : ¬IsHexDigit c := by
  have hall : "0123456789abcdefABCDEF".toList.all (fun d ↦ decide (d.toNat < 128)) = true := by
    decide
  exact fun h ↦ hc (of_decide_eq_true (List.all_eq_true.mp hall c h))

/-- Only the characters of the ASCII table have another lower case. -/
private theorem toLower_eq_self {c : Char} (hc : ¬c.toNat < 128) : c.toLower = c := by
  apply dif_neg
  rintro ⟨-, hupper⟩
  have hbound : c.toNat ≤ 90 := UInt32.le_iff_toNat_le.mp hupper
  omega

/-- Exactly the hexadecimal digits stand for a number. -/
theorem hexDigit?_eq (c : Char) :
    hexDigit? c = if IsHexDigit c then some (hexValue c) else none := by
  by_cases hc : c.toNat < 128
  · exact of_ascii (P := fun c ↦ hexDigit? c = if IsHexDigit c then some (hexValue c) else none)
      (by decide +kernel) hc
  · have hle {d : Char} (hd : d.toNat < 128) : ¬c ≤ d := by
      intro h
      have hval : c.toNat ≤ d.toNat := Char.le_def.mp h
      omega
    have hdigit : ¬c.isDigit = true := by
      intro h
      have hbound : c.toNat ≤ 57 := (Char.isDigit_iff_toNat.mp h).2
      omega
    rw [if_neg (not_isHexDigit hc), hexDigit?, if_neg hdigit, if_neg fun h ↦ hle (by decide) h.2,
      if_neg fun h ↦ hle (by decide) h.2]

/-- A digit stands for a number below 16. -/
theorem hexValue_lt {c : Char} (h : IsHexDigit c) : hexValue c < 16 := by
  have hall : "0123456789abcdefABCDEF".toList.all (fun d ↦ decide (hexValue d < 16)) = true := by
    decide
  exact of_decide_eq_true (List.all_eq_true.mp hall c h)

/-- In lower case a digit stays one, stands for the same number, and is a plus sign only if it was
one. -/
private theorem toLower_spec (c : Char) : (IsHexDigit c.toLower ↔ IsHexDigit c) ∧
    hexValue c.toLower = hexValue c ∧ (c.toLower = '+' ↔ c = '+') := by
  by_cases hc : c.toNat < 128
  · exact of_ascii (P := fun c ↦ (IsHexDigit c.toLower ↔ IsHexDigit c) ∧
      hexValue c.toLower = hexValue c ∧ (c.toLower = '+' ↔ c = '+')) (by decide +kernel) hc
  · rw [toLower_eq_self hc]
    exact ⟨Iff.rfl, rfl, Iff.rfl⟩

/-! ### Pairs -/

/-- Two characters are a byte if they are digits, the first one a plus sign at most, and it is the
one that they spell. -/
theorem hexByte?_eq_some_iff {high low : Char} {b : UInt8} : hexByte? high low = some b ↔
    IsHexDigit (if high = '+' then '0' else high) ∧ IsHexDigit low ∧
      b.toNat = 16 * hexValue (if high = '+' then '0' else high) + hexValue low := by
  have hfirst : hexByte? high low = (hexDigit? low).bind fun l ↦
      (hexDigit? (if high = '+' then '0' else high)).map fun h ↦ UInt8.ofNat (16 * h + l) := by
    unfold hexByte?
    by_cases hsign : high = '+'
    · rw [if_pos hsign, hsign]
      rfl
    · rw [if_neg hsign]
      simp only [if_neg hsign]
      cases hexDigit? high <;> rfl
  rw [hfirst]
  generalize (if high = '+' then '0' else high) = first
  rw [hexDigit?_eq, hexDigit?_eq]
  by_cases hhigh : IsHexDigit first
  · by_cases hlow : IsHexDigit low
    · have hlt := hexValue_lt hhigh
      have hlt' := hexValue_lt hlow
      rw [if_pos hhigh, if_pos hlow, and_iff_right hhigh, and_iff_right hlow, Option.bind_some,
        Option.map_some, Option.some.injEq, ← UInt8.toNat_inj, UInt8.toNat_ofNat',
        Nat.mod_eq_of_lt (by omega)]
      exact eq_comm
    · simp [hlow]
  · simp [hhigh]

/-- Nothing spells no bytes, and nothing else does. -/
theorem Spells.eq_nil_iff {digits : List Char} {bytes : Bytes} (h : Spells digits bytes) :
    digits = [] ↔ bytes = [] := by
  cases h <;> simp

/-- Two characters spell a byte. -/
theorem Spells.length_eq {digits : List Char} {bytes : Bytes} (h : Spells digits bytes) :
    digits.length = 2 * bytes.length := by
  induction h with
  | nil => rfl
  | pair _ _ _ _ ih =>
    rw [List.length_cons, List.length_cons, List.length_cons, ih]
    rfl

/-- Characters that spell bytes are two for each byte, and digits. -/
theorem exists_spells_iff {digits : List Char} :
    (∃ bytes, Spells digits bytes) ↔ digits.length % 2 = 0 ∧ ∀ c ∈ digits, IsHexDigit c := by
  constructor
  · rintro ⟨bytes, h⟩
    induction h with
    | nil => simp
    | @pair high low digits b bytes hhigh hlow _ _ ih =>
      rw [List.forall_mem_cons, List.forall_mem_cons, List.length_cons, List.length_cons]
      exact ⟨by omega, hhigh, hlow, ih.2⟩
  · rintro ⟨heven, hall⟩
    match digits with
    | [] => exact ⟨[], .nil⟩
    | [_] => cases heven
    | high :: low :: digits =>
      rw [List.forall_mem_cons, List.forall_mem_cons] at hall
      obtain ⟨hhigh, hlow, hall⟩ := hall
      have hlt := hexValue_lt hhigh
      have hlt' := hexValue_lt hlow
      have hrest : digits.length % 2 = 0 := by
        rw [List.length_cons, List.length_cons] at heven
        omega
      obtain ⟨bytes, h⟩ := exists_spells_iff.mpr ⟨hrest, hall⟩
      refine ⟨UInt8.ofNat (16 * hexValue high + hexValue low) :: bytes, .pair hhigh hlow ?_ h⟩
      rw [UInt8.toNat_ofNat', Nat.mod_eq_of_lt (by omega)]

/-- The same characters in lower case spell the same bytes. -/
theorem spells_toLower_iff {digits : List Char} {bytes : Bytes} :
    Spells (digits.map Char.toLower) bytes ↔ Spells digits bytes := by
  have hstep {high low : Char} {digits : List Char} {b : UInt8} {bytes : Bytes} :
      Spells (high :: low :: digits) (b :: bytes) ↔ IsHexDigit high ∧ IsHexDigit low ∧
        b.toNat = 16 * hexValue high + hexValue low ∧ Spells digits bytes := by
    constructor
    · intro h
      cases h with
      | pair hhigh hlow hb h => exact ⟨hhigh, hlow, hb, h⟩
    · rintro ⟨hhigh, hlow, hb, h⟩
      exact .pair hhigh hlow hb h
  match digits, bytes with
  | [], bytes => exact Iff.rfl
  | [c], bytes => exact ⟨nofun, nofun⟩
  | high :: low :: digits, [] => exact ⟨nofun, nofun⟩
  | high :: low :: digits, b :: bytes =>
    obtain ⟨hhigh, hhighValue, -⟩ := toLower_spec high
    obtain ⟨hlow, hlowValue, -⟩ := toLower_spec low
    rw [List.map_cons, List.map_cons, hstep, hstep, hhigh, hlow, hhighValue, hlowValue,
      spells_toLower_iff]

/-- Signs are replaced in lower case as they are. -/
theorem zeroSigns_toLower (digits : List Char) :
    zeroSigns (digits.map Char.toLower) = (zeroSigns digits).map Char.toLower := by
  match digits with
  | [] => rfl
  | [c] => rfl
  | high :: low :: digits =>
    rw [List.map_cons, List.map_cons, zeroSigns, zeroSigns, List.map_cons, List.map_cons,
      zeroSigns_toLower digits, if_congr (toLower_spec high).2.2 rfl rfl, apply_ite Char.toLower]
    rfl

/-- There are as many characters as before. -/
theorem length_zeroSigns (digits : List Char) : (zeroSigns digits).length = digits.length := by
  match digits with
  | [] => rfl
  | [c] => rfl
  | high :: low :: digits =>
    rw [zeroSigns, List.length_cons, List.length_cons, length_zeroSigns digits]
    rfl

/-- Nothing is left only of nothing. -/
theorem zeroSigns_eq_nil {digits : List Char} : zeroSigns digits = [] ↔ digits = [] := by
  rw [← List.length_eq_zero_iff, length_zeroSigns, List.length_eq_zero_iff]

/-- Characters without a plus sign stay as they are. -/
theorem zeroSigns_of_not_mem {digits : List Char} (h : '+' ∉ digits) : zeroSigns digits = digits := by
  match digits with
  | [] => rfl
  | [c] => rfl
  | high :: low :: digits =>
    rw [List.mem_cons, List.mem_cons, not_or, not_or] at h
    rw [zeroSigns, if_neg (Ne.symm h.1), zeroSigns_of_not_mem h.2.2]

end Text

namespace Script

open Text (Spells zeroSigns unblanked IsHexDigit)

/-- Two characters at a time are read as the bytes that they spell. -/
theorem hexPairs_eq_ok_iff {digits : List Char} (heven : digits.length % 2 = 0) {bytes : Bytes} :
    hexPairs digits = .ok bytes ↔ Spells (zeroSigns digits) bytes := by
  match digits with
  | [] =>
    constructor
    · intro h
      obtain rfl := Except.ok.inj h
      exact .nil
    · intro h
      cases h
      rfl
  | [_] => cases heven
  | high :: low :: digits =>
    have hrest : digits.length % 2 = 0 := by
      rw [List.length_cons, List.length_cons] at heven
      omega
    rw [hexPairs, zeroSigns]
    constructor
    · intro h
      split at h
      · cases h
      · next b hbyte =>
        obtain ⟨bytes, hbytes, rfl⟩ := map_eq_ok_iff.mp h
        obtain ⟨hhigh, hlow, hb⟩ := Text.hexByte?_eq_some_iff.mp hbyte
        exact .pair hhigh hlow hb ((hexPairs_eq_ok_iff hrest).mp hbytes)
    · intro h
      cases h with
      | pair hhigh hlow hb h =>
        rw [Text.hexByte?_eq_some_iff.mpr ⟨hhigh, hlow, hb⟩]
        exact map_eq_ok_iff.mpr ⟨_, (hexPairs_eq_ok_iff hrest).mpr h, rfl⟩

/-- A text is read as bytes if it spells them, wherever blanks stand in it, and is not blank. -/
theorem readHex_iff {text : List Char} {bytes : Bytes} :
    readHex text = .ok bytes ↔ bytes ≠ [] ∧ Spells (zeroSigns (unblanked text)) bytes := by
  have heven_of (h : Spells (zeroSigns (unblanked text)) bytes) :
      (unblanked text).length % 2 = 0 := by
    rw [← Text.length_zeroSigns]
    exact (Text.exists_spells_iff.mp ⟨bytes, h⟩).1
  show (if (unblanked text).isEmpty || (unblanked text).length % 2 == 1 then
    .error (.oddHex text) else hexPairs (unblanked text)) = .ok bytes ↔ _
  generalize unblanked text = digits at *
  constructor
  · intro h
    split at h
    · cases h
    · next hodd =>
      rw [Bool.or_eq_true, not_or, List.isEmpty_iff, beq_iff_eq] at hodd
      have hspells := (hexPairs_eq_ok_iff (by omega)).mp h
      exact ⟨fun hnil ↦ hodd.1 (Text.zeroSigns_eq_nil.mp (hspells.eq_nil_iff.mpr hnil)), hspells⟩
  · rintro ⟨hne, hspells⟩
    have heven := heven_of hspells
    rw [if_neg]
    · exact (hexPairs_eq_ok_iff heven).mpr hspells
    · rw [Bool.or_eq_true, not_or, List.isEmpty_iff, beq_iff_eq]
      exact ⟨fun hnil ↦ hne (hspells.eq_nil_iff.mp (Text.zeroSigns_eq_nil.mpr hnil)), by omega⟩

/-- Bytes are read from behind `<RAW>`. -/
theorem readServer_raw_iff {text : List Char} (hblank : text.head?.all Text.isBlank = true)
    {a : Action} : readServer ("<RAW>".toList ++ text) = .ok a ↔
      ∃ bytes, a = .raw bytes ∧ bytes ≠ [] ∧ Spells (zeroSigns (unblanked text)) bytes := by
  rw [readServer, Text.splitWord_graphic (by decide) (by decide) hblank]
  dsimp only
  rw [if_neg (by decide), if_neg (by decide), if_pos rfl, map_eq_ok_iff]
  apply exists_congr
  intro bytes
  rw [readHex_iff, unblanked, Text.filter_trimStart, and_comm, eq_comm]
  rfl

/-- Bytes are read from behind `HANDSHAKE`. -/
theorem readDirective_handshake_iff {text : List Char}
    (hblank : text.head?.all Text.isBlank = true) {d : Directive} :
    readDirective ("HANDSHAKE".toList ++ text) = .ok d ↔
      ∃ bytes, d = .handshake bytes ∧ bytes ≠ [] ∧ Spells (zeroSigns (unblanked text)) bytes := by
  rw [readDirective, Text.splitWord_graphic (by decide) (by decide) hblank]
  dsimp only
  rw [if_neg (by decide), if_neg (by decide), if_pos rfl, map_eq_ok_iff]
  apply exists_congr
  intro bytes
  rw [readHex_iff, unblanked, Text.filter_trimStart, and_comm, eq_comm]
  rfl

/-- What a dump of bytes shows spells these bytes. -/
theorem spells_hexDump {bytes : Bytes} (hne : bytes ≠ []) :
    Spells (zeroSigns (unblanked (Text.hexDump bytes).toList)) bytes := by
  have hdump : (Text.hexDump bytes).toList.filter (!Text.isBlank ·) =
      bytes.flatMap fun b ↦ (Text.upperHex b).toList := by
    have hbehind : (' ' :: (Text.hexDump bytes).toList).filter (!Text.isBlank ·) =
        bytes.flatMap fun b ↦ (Text.upperHex b).toList := by
      rw [Text.toList_hexDump hne, Text.filter_flatMap_upperHex]
    rwa [List.filter_cons_of_neg (by decide)] at hbehind
  exact (readHex_iff.mp (readHex_of_filter hne hdump)).2

/-- Behind `<RAW>` and `HANDSHAKE` stand bytes, two characters each and at least one of them. They
are read from the characters that are not blank, with a zero in the place of a plus sign that is the
first of a pair, which have to be hexadecimal digits. Without a plus sign that is no exception. Blanks
and the case of letters do not count, and what a dump of bytes shows is read as these bytes. -/
theorem bytes_behind_word {text : List Char} (hblank : text.head?.all Text.isBlank = true) :
    let digits := unblanked text
    (∀ a, readServer ("<RAW>".toList ++ text) = .ok a ↔
      ∃ bytes, a = .raw bytes ∧ bytes ≠ [] ∧ Spells (zeroSigns digits) bytes) ∧
    (∀ d, readDirective ("HANDSHAKE".toList ++ text) = .ok d ↔
      ∃ bytes, d = .handshake bytes ∧ bytes ≠ [] ∧ Spells (zeroSigns digits) bytes) ∧
    ((∃ bytes, bytes ≠ [] ∧ Spells (zeroSigns digits) bytes) ↔
      digits ≠ [] ∧ digits.length % 2 = 0 ∧ ∀ c ∈ zeroSigns digits, IsHexDigit c) ∧
    ('+' ∉ text → zeroSigns digits = digits) ∧
    (∀ text', (unblanked text').map Char.toLower = digits.map Char.toLower → ∀ bytes,
      Spells (zeroSigns (unblanked text')) bytes ↔ Spells (zeroSigns digits) bytes) ∧
    ∀ bytes, bytes ≠ [] → Spells (zeroSigns (unblanked (Text.hexDump bytes).toList)) bytes := by
  intro digits
  refine ⟨fun a ↦ readServer_raw_iff hblank, fun d ↦ readDirective_handshake_iff hblank, ?_,
    fun h ↦ Text.zeroSigns_of_not_mem fun hmem ↦ h (List.mem_of_mem_filter hmem), ?_,
    fun bytes ↦ spells_hexDump⟩
  · rw [← Text.length_zeroSigns digits, ← Text.exists_spells_iff]
    constructor
    · rintro ⟨bytes, hne, h⟩
      exact ⟨fun hnil ↦ hne (h.eq_nil_iff.mp (Text.zeroSigns_eq_nil.mpr hnil)), bytes, h⟩
    · rintro ⟨hne, bytes, h⟩
      exact ⟨bytes, fun hnil ↦ hne (Text.zeroSigns_eq_nil.mp (h.eq_nil_iff.mpr hnil)), h⟩
  · intro text' hlower bytes
    rw [← Text.spells_toLower_iff, ← Text.zeroSigns_toLower, hlower, Text.zeroSigns_toLower,
      Text.spells_toLower_iff]

/-- Two bytes with a tab between digits of either case. -/
theorem bytes_behind_word_mixed :
    "\t0A f\tF".toList.head?.all Text.isBlank = true ∧
      readServer ("<RAW>".toList ++ "\t0A f\tF".toList) = .ok (.raw [0x0A, 0xFF]) ∧
      readDirective ("HANDSHAKE".toList ++ "\t0A f\tF".toList) = .ok (.handshake [0x0A, 0xFF]) := by
  have hblank : "\t0A f\tF".toList.head?.all Text.isBlank = true := by rfl
  have hspells : Spells (zeroSigns (unblanked "\t0A f\tF".toList)) [0x0A, 0xFF] :=
    .pair (by decide) (by decide) (by decide) (.pair (by decide) (by decide) (by decide) .nil)
  obtain ⟨hraw, hhandshake, -⟩ := bytes_behind_word hblank
  exact ⟨hblank, (hraw _).mpr ⟨_, rfl, List.cons_ne_nil _ _, hspells⟩,
    (hhandshake _).mpr ⟨_, rfl, List.cons_ne_nil _ _, hspells⟩⟩

/-- A plus sign is read as if it were a digit, though it is none. -/
theorem readServer_plus :
    readServer "<RAW> +5".toList = .ok (.raw [5]) ∧ ¬IsHexDigit '+' ∧
      ¬∃ bytes, Spells (unblanked " +5".toList) bytes := by
  refine ⟨by rfl, by decide, fun h ↦ ?_⟩
  have hplus : IsHexDigit '+' := (Text.exists_spells_iff.mp h).2 '+' (by decide)
  exact absurd hplus (by decide)

end Script

end ScriptedBolt
