import ScriptedBolt.Proofs.Literal.Extension
import ScriptedBolt.Proofs.Script.Hexadecimal
import ScriptedBolt.Proofs.Text.Words

/-!
# Bodies with a word behind them

A word behind a line stands behind its body, whatever the form of the line is. Bytes, durations and
the fields of a message are read up to the end of the body, so that with a word behind them they are
refused or are others. The number of a version may be completed by a word, and behind the name of
`AUTO`, behind `<EXIT>` and behind `<NOOP>` nothing is read.
-/

namespace ScriptedBolt

/-! ### Versions -/

namespace Version

open Text (IsGap IsWord boundedNumeral? lt_of_boundedNumeral?)

variable {rest gap word : List Char} {v : Version}

/-- In a text without a point all characters are other ones. -/
private theorem all_ne_point {text : List Char} (h : '.' ∉ text) :
    ∀ c ∈ text, (c != '.') = true := by
  intro c hc
  rw [bne_iff_ne]
  rintro rfl
  exact h hc

/-- Without a point a text spells a major number. -/
private theorem ofText?_major {text : List Char} (h : '.' ∉ text) :
    ofText? text = (boundedNumeral? 256 (Text.trim text)).map fun major ↦ ⟨UInt8.ofNat major, 0⟩ := by
  have htake : text.takeWhile (· != '.') = text := List.takeWhile_eq_self_iff.mpr (all_ne_point h)
  have hdrop : text.dropWhile (· != '.') = [] := List.dropWhile_eq_nil_iff.mpr (all_ne_point h)
  have hzero : boundedNumeral? 256 (Text.trim ['0']) = some 0 := by decide
  simp only [ofText?, htake, hdrop, hzero]
  cases boundedNumeral? 256 (Text.trim text) <;> rfl

/-- The first point stands between the two numbers. -/
private theorem ofText?_point {front : List Char} (h : '.' ∉ front) (back : List Char) :
    ofText? (front ++ '.' :: back) = (boundedNumeral? 256 (Text.trim front)).bind fun major ↦
      (boundedNumeral? 256 (Text.trim back)).map fun minor ↦
        ⟨UInt8.ofNat major, UInt8.ofNat minor⟩ := by
  have htake : (front ++ '.' :: back).takeWhile (· != '.') = front := by
    rw [List.takeWhile_append_of_pos (all_ne_point h), List.takeWhile_cons_of_neg (by decide),
      List.append_nil]
  have hdrop : (front ++ '.' :: back).dropWhile (· != '.') = '.' :: back := by
    rw [List.dropWhile_append_of_pos (all_ne_point h), List.dropWhile_cons_of_neg (by decide)]
  simp only [ofText?, htake, hdrop]
  cases boundedNumeral? 256 (Text.trim front) with
  | none => rfl
  | some major => cases boundedNumeral? 256 (Text.trim back) <;> rfl

/-- Blanks are no points. -/
private theorem point_not_mem (hgap : IsGap gap) : '.' ∉ gap :=
  fun hmem ↦ Bool.noConfusion (hgap.2 '.' hmem)

/-- A point and a number behind a major number are its minor number. -/
private theorem ofText?_minor_behind {major : Nat} {back : List Char} (hpoint : '.' ∉ rest)
    (hmajor : boundedNumeral? 256 (Text.trim rest) = some major) (hgap : IsGap gap)
    (hback : ∀ c ∈ back, Text.isBlank c = false) :
    ofText? (rest ++ (gap ++ '.' :: back)) = some ⟨UInt8.ofNat major, 0⟩ ↔
      boundedNumeral? 256 back = some 0 := by
  have hfront : '.' ∉ rest ++ gap := by simp [hpoint, point_not_mem hgap]
  have htrim : Text.trim back = back := by
    by_cases hnil : back = []
    · rw [hnil]
      rfl
    · exact IsWord.trim ⟨hnil, hback⟩
  rw [← List.append_assoc, ofText?_point hfront, Text.trim_append_blanks hgap.2, hmajor,
    Option.bind_some, htrim]
  constructor
  · intro h
    obtain ⟨minor, hminor, heq⟩ := Option.map_eq_some_iff.mp h
    have hzero : (UInt8.ofNat minor).toNat = 0 := congrArg UInt8.toNat (Version.mk.inj heq).2
    rw [UInt8.toNat_ofNat', Nat.mod_eq_of_lt (lt_of_boundedNumeral? hminor)] at hzero
    rw [hminor, hzero]
  · intro hzero
    rw [hzero]
    rfl

/-- A version with a word behind it is the same only if the word is its minor number 0. -/
theorem ofText?_behind (h : ofText? rest = some v) (hgap : IsGap gap) (hword : IsWord word) :
    ofText? (rest ++ (gap ++ word)) = some v ↔
      '.' ∉ rest ∧ ∃ minor, word = '.' :: minor ∧ boundedNumeral? 256 minor = some 0 := by
  by_cases hpoint : '.' ∈ rest
  · -- The word stands behind the minor number, where no blank may.
    rw [iff_false_intro (not_and_of_not_left _ (not_not_intro hpoint)), iff_false]
    obtain ⟨front, back, rfl, hfront⟩ := List.eq_append_cons_of_mem hpoint
    rw [ofText?_point hfront] at h
    obtain ⟨major, -, h⟩ := Option.bind_eq_some_iff.mp h
    obtain ⟨minor, hminor, -⟩ := Option.map_eq_some_iff.mp h
    rw [List.append_assoc, List.cons_append, ofText?_point hfront,
      Text.boundedNumeral?_behind hminor hgap hword]
    cases boundedNumeral? 256 (Text.trim front) <;> simp
  rw [and_iff_right hpoint]
  rw [ofText?_major hpoint] at h
  obtain ⟨major, hmajor, rfl⟩ := Option.map_eq_some_iff.mp h
  by_cases hlater : '.' ∈ word
  · obtain ⟨front, back, rfl, hfront⟩ := List.eq_append_cons_of_mem hlater
    cases front with
    | nil =>
      rw [List.nil_append,
        ofText?_minor_behind hpoint hmajor hgap (List.forall_mem_cons.mp hword.2).2]
      simp
    | cons c front =>
      -- Something stands between the blanks and the point, behind the major number.
      have hfirst : '.' ∉ rest ++ (gap ++ c :: front) := by
        simp only [List.mem_append, not_or]
        exact ⟨hpoint, point_not_mem hgap, hfront⟩
      have hsplit : rest ++ (gap ++ (c :: front ++ '.' :: back)) =
          (rest ++ (gap ++ c :: front)) ++ '.' :: back := by simp
      have hblank := (List.forall_mem_append.mp hword.2).1
      rw [hsplit, ofText?_point hfirst,
        Text.boundedNumeral?_behind hmajor hgap ⟨List.cons_ne_nil c front, hblank⟩]
      apply iff_of_false
      · simp
      · rintro ⟨minor, heq, -⟩
        obtain ⟨rfl, -⟩ := List.cons.inj heq
        exact hfront List.mem_cons_self
  · -- Without a point the word stands behind the major number.
    have hnone : '.' ∉ rest ++ (gap ++ word) := by
      simp only [List.mem_append, not_or]
      exact ⟨hpoint, point_not_mem hgap, hlater⟩
    rw [ofText?_major hnone, Text.boundedNumeral?_behind hmajor hgap hword]
    apply iff_of_false
    · simp
    · rintro ⟨minor, rfl, -⟩
      exact hlater List.mem_cons_self

end Version

namespace Script

open Text (IsGap IsWord)

variable {raw rest gap word : List Char}

/-! ### The form of a line with a word behind it -/

/-- The body of a form. -/
def Form.body : Form → List Char
  | silent => []
  | directive body | marked _ body | unmarked body => body

/-- A form with more text behind its body. -/
def Form.append (more : List Char) : Form → Form
  | silent => silent
  | directive body => directive (body ++ more)
  | marked role body => marked role (body ++ more)
  | unmarked body => unmarked (body ++ more)

/-- A word behind a text does not complete a mark at its start. -/
private theorem starts_of_behind {line : List Char} (hne : line ≠ []) (hgap : IsGap gap)
    {first second : Char} (hsecond : Text.isBlank second = false) {back : List Char}
    (h : line ++ (gap ++ word) = first :: second :: back) :
    ∃ more, line = first :: second :: more := by
  obtain ⟨c, line, rfl⟩ := List.exists_cons_of_ne_nil hne
  obtain ⟨b, blanks, rfl⟩ := List.exists_cons_of_ne_nil hgap.1
  obtain ⟨rfl, htail⟩ := List.cons.inj h
  cases line with
  | nil =>
    have hb := hgap.2 b List.mem_cons_self
    obtain ⟨rfl, -⟩ := List.cons.inj htail
    rw [hsecond] at hb
    cases hb
  | cons d more =>
    obtain ⟨rfl, -⟩ := List.cons.inj htail
    exact ⟨more, rfl⟩

/-- A word behind a line stands behind its body. -/
theorem form_behind (hbody : (form raw).body ≠ []) (hgap : IsGap gap) (hword : IsWord word) :
    ∃ gap', IsGap gap' ∧ form (raw ++ (gap ++ word)) = (form raw).append (gap' ++ word) := by
  have hne : Text.trim raw ≠ [] := by
    intro hnil
    rw [form, hnil] at hbody
    exact hbody rfl
  obtain ⟨gap', hgap', htrim⟩ := Text.trim_behind hne hgap hword
  unfold form at hbody ⊢
  rw [htrim]
  generalize Text.trim raw = line at hne hbody ⊢
  -- Behind a mark the body is what stands there, trimmed once more.
  have hmarked (mark : List Char → Form)
      (happend : ∀ body more, (mark body).append more = mark (body ++ more)) {rest : List Char}
      (hrest : Text.trim rest ≠ []) : ∃ gap'', IsGap gap'' ∧
        mark (Text.trim (rest ++ (gap' ++ word))) =
          (mark (Text.trim rest)).append (gap'' ++ word) := by
    obtain ⟨gap'', hgap'', htrim⟩ := Text.trim_behind hrest hgap' hword
    exact ⟨gap'', hgap'', by rw [htrim, happend]⟩
  split at hbody
  · exact absurd rfl hbody
  · exact absurd rfl hbody
  · exact absurd rfl hbody
  · exact hmarked .directive (fun _ _ ↦ rfl) hbody
  · exact hmarked (.marked .client) (fun _ _ ↦ rfl) hbody
  · exact hmarked (.marked .server) (fun _ _ ↦ rfl) hbody
  · next hhash hslashes hdirective hclient hserver =>
    refine ⟨gap', hgap', ?_⟩
    have hpair {first second : Char} {back : List Char} (hsecond : Text.isBlank second = false)
        (heq : line ++ (gap' ++ word) = first :: second :: back) :=
      starts_of_behind hne hgap' hsecond heq
    obtain ⟨c, more, rfl⟩ := List.exists_cons_of_ne_nil hne
    split
    · next heq => cases heq
    · next heq => exact (hhash more (congrArg (· :: more) (List.cons.inj heq).1)).elim
    · next heq => exact (hslashes _ (hpair (by decide) heq).choose_spec).elim
    · next heq => exact (hdirective _ (hpair (by decide) heq).choose_spec).elim
    · next heq => exact (hclient _ (hpair (by decide) heq).choose_spec).elim
    · next heq => exact (hserver _ (hpair (by decide) heq).choose_spec).elim
    · rfl

/-- The body of a form is trimmed. -/
theorem trim_body (raw : List Char) : Text.trim (form raw).body = (form raw).body := by
  unfold form
  split
  · rfl
  · rfl
  · rfl
  · exact Text.trim_trim _
  · exact Text.trim_trim _
  · exact Text.trim_trim _
  · exact Text.trim_trim raw

/-! ### Bodies with a word behind them -/

/-- What stands behind a word of a line when another word is put behind the line. -/
private def behind (gap word rest : List Char) : List Char :=
  if rest = [] then word else rest ++ (gap ++ word)

/-- Bytes with a word behind them are refused, or they are more bytes. -/
theorem readHex_behind {bytes : Bytes} (h : readHex rest = .ok bytes) (hgap : IsGap gap)
    (hword : IsWord word) : readHex (behind gap word rest) ≠ .ok bytes := by
  intro h'
  obtain ⟨hne, hspells⟩ := readHex_iff.mp h
  have hspells' := (readHex_iff.mp h').2
  have hrest : rest ≠ [] := by
    rintro rfl
    exact hne (hspells.eq_nil_iff.mp rfl)
  have hgapNone : Text.unblanked gap = [] := by
    rw [Text.unblanked, List.filter_eq_nil_iff]
    intro c hc
    simp [hgap.2 c hc]
  have hwordAll : Text.unblanked word = word := by
    rw [Text.unblanked, List.filter_eq_self]
    intro c hc
    simp [hword.2 c hc]
  have hall : Text.unblanked (behind gap word rest) = Text.unblanked rest ++ word := by
    rw [behind, if_neg hrest, Text.unblanked, List.filter_append, List.filter_append]
    show Text.unblanked rest ++ (Text.unblanked gap ++ Text.unblanked word) = _
    rw [hgapNone, hwordAll]
    rfl
  have hlength := hspells.length_eq
  have hlength' := hspells'.length_eq
  rw [Text.length_zeroSigns] at hlength hlength'
  rw [hall, List.length_append, hlength] at hlength'
  have hpos := List.length_pos_iff.mpr hword.1
  omega

/-- No blank can stand in the text of a number. -/
private theorem isBlank_of_isNumeric {c : Char} (h : Binary64.isNumeric c = true) :
    Text.isBlank c = false := by
  apply Text.isBlank_of_isGraphic
  rw [Binary64.isNumeric, Bool.or_eq_true, Char.isAlphanum, Bool.or_eq_true] at h
  rcases h with (halpha | hdigit) | hmark
  · rw [Text.isGraphic, Bool.and_eq_true, decide_eq_true_eq, decide_eq_true_eq]
    rcases Bool.or_eq_true_iff.mp halpha with hupper | hlower
    · obtain ⟨hlow, hhigh⟩ := of_decide_eq_true hupper
      have hlow : 65 ≤ c.toNat := UInt32.le_iff_toNat_le.mp hlow
      have hhigh : c.toNat ≤ 90 := UInt32.le_iff_toNat_le.mp hhigh
      omega
    · obtain ⟨hlow, hhigh⟩ := Bool.and_eq_true_iff.mp hlower
      have hlow : 97 ≤ c.toNat := UInt32.le_iff_toNat_le.mp (of_decide_eq_true hlow)
      have hhigh : c.toNat ≤ 122 := UInt32.le_iff_toNat_le.mp (of_decide_eq_true hhigh)
      omega
  · exact Text.isGraphic_of_isDigit hdigit
  · have hall : ['+', '-', '.'].all Text.isGraphic = true := by decide
    exact List.all_eq_true.mp hall c (List.contains_iff_mem.mp hmark)

/-- A duration with a word behind it is refused. -/
theorem readSleep_behind {d : Span} (h : readSleep rest = .ok d) (hgap : IsGap gap)
    (hword : IsWord word) : readSleep (behind gap word rest) ≠ .ok d := by
  have hspelled {text : List Char} (h : readSleep text = .ok d) :
      ∃ x, Binary64.ofText? (Text.trim text) = some x := by
    unfold readSleep at h
    split at h
    · next hd =>
      obtain ⟨x, hx, -⟩ := Option.bind_eq_some_iff.mp hd
      exact ⟨x, hx⟩
    · cases h
  intro h'
  obtain ⟨x, hx⟩ := hspelled h
  obtain ⟨y, hy⟩ := hspelled h'
  have hne : Text.trim rest ≠ [] := by
    intro hnil
    rw [hnil] at hx
    cases hx
  have hrest : rest ≠ [] := by
    rintro rfl
    exact hne rfl
  obtain ⟨gap', hgap', htrim⟩ := Text.trim_behind hne hgap hword
  obtain ⟨b, blanks, rfl⟩ := List.exists_cons_of_ne_nil hgap'.1
  rw [behind, if_neg hrest, htrim] at hy
  have hb := isBlank_of_isNumeric (Binary64.isNumeric_of_ofText? hy b (by simp))
  rw [hgap'.2 b List.mem_cons_self] at hb
  cases hb

/-- A text that holds a word does not only hold spaces. -/
private theorem skipSpace_ne_nil (hword : IsWord word) (text : List Char) :
    Literal.skipSpace (text ++ word) ≠ [] := by
  intro hnil
  obtain ⟨c, more, rfl⟩ := List.exists_cons_of_ne_nil hword.1
  have hc : Literal.isSpace c = true :=
    List.dropWhile_eq_nil_iff.mp hnil c (List.mem_append_right _ List.mem_cons_self)
  have hblank := hword.2 c List.mem_cons_self
  simp only [Literal.isSpace, Bool.or_eq_true, beq_iff_eq] at hc
  rcases hc with ((rfl | rfl) | rfl) | rfl
  all_goals exact absurd hblank (by decide)

/-- A message with a word behind it is refused, or it has more fields. -/
theorem readMessage_behind {name : List Char} {m : Message} (h : readMessage name rest = .ok m)
    (hgap : IsGap gap) (hword : IsWord word) :
    readMessage name (behind gap word rest) ≠ .ok m := by
  have hfields {text : List Char} (h : readMessage name text = .ok m) :
      Literal.values text = .ok m.fields := by
    unfold readMessage at h
    split at h
    · cases h
    · split at h
      · next fields hfields =>
        obtain rfl := Except.ok.inj h
        exact hfields
      · cases h
  intro h'
  have hvalues := hfields h
  have hvalues' := hfields h'
  by_cases hrest : rest = []
  · rw [behind, if_pos hrest] at hvalues'
    rw [hrest] at hvalues
    have hnone : m.fields = [] := (Except.ok.inj hvalues).symm
    exact Literal.ne_nil_of_values hvalues' (skipSpace_ne_nil hword []) hnone
  · rw [behind, if_neg hrest] at hvalues'
    obtain ⟨b, blanks, rfl⟩ := List.exists_cons_of_ne_nil hgap.1
    exact Nat.lt_irrefl _ (Literal.length_lt_of_values_append hvalues
      (hgap.2 b List.mem_cons_self) (skipSpace_ne_nil hword (b :: blanks)) hvalues')

variable {body : List Char}

/-- A line of the client with a word behind it does not expect the same message. -/
theorem readClient_behind {m : Message} (h : readClient body = .ok m)
    (hne : Text.trimStart body ≠ []) (hgap : IsGap gap) (hword : IsWord word) :
    readClient (body ++ (gap ++ word)) ≠ .ok m := by
  have hbehind := Text.splitWord_behind hne hgap hword
  unfold readClient at h ⊢
  rw [hbehind]
  dsimp only at h ⊢
  split at h
  · cases h
  · next hcommand =>
    rw [if_neg hcommand]
    exact readMessage_behind h hgap hword

/-- A line of the server with a word behind it performs the same action only if that is `<EXIT>` or
`<NOOP>`. -/
theorem readServer_behind {a : Action} (h : readServer body = .ok a)
    (hne : Text.trimStart body ≠ []) (hgap : IsGap gap) (hword : IsWord word) :
    readServer (body ++ (gap ++ word)) = .ok a ↔ a = .exit ∨ a = .keepAlive := by
  have hbehind := Text.splitWord_behind hne hgap hword
  unfold readServer at h ⊢
  rw [hbehind]
  dsimp only at h ⊢
  split at h
  · next hexit =>
    obtain rfl := Except.ok.inj h
    rw [if_pos hexit]
    exact iff_of_true rfl (.inl rfl)
  · next hexit =>
    rw [if_neg hexit]
    split at h
    · next hnoop =>
      obtain rfl := Except.ok.inj h
      rw [if_pos hnoop]
      exact iff_of_true rfl (.inr rfl)
    · next hnoop =>
      rw [if_neg hnoop]
      split at h
      · next hraw =>
        obtain ⟨bytes, hbytes, rfl⟩ := map_eq_ok_iff.mp h
        rw [if_pos hraw]
        rw [map_eq_ok_map_iff fun _ ↦ Action.raw.inj]
        exact iff_of_false (readHex_behind hbytes hgap hword) (by simp)
      · next hraw =>
        rw [if_neg hraw]
        split at h
        · next hsleep =>
          obtain ⟨d, hd, rfl⟩ := map_eq_ok_iff.mp h
          rw [if_pos hsleep]
          rw [map_eq_ok_map_iff fun _ ↦ Action.sleep.inj]
          exact iff_of_false (readSleep_behind hd hgap hword) (by simp)
        · next hsleep =>
          rw [if_neg hsleep]
          split at h
          · cases h
          · next hcommand =>
            obtain ⟨m, hm, rfl⟩ := map_eq_ok_iff.mp h
            rw [if_neg hcommand, map_eq_ok_map_iff fun _ ↦ Action.send.inj]
            exact iff_of_false (readMessage_behind hm hgap hword) (by simp)

/-- `BOLT` pins the version that is spelled behind it if that is supported. -/
private theorem readDirective_version_iff {d : Directive}
    (hbolt : (Text.splitWord body).1 = "BOLT".toList) : readDirective body = .ok d ↔
      ∃ v, d = .version v ∧ Version.ofText? (Text.splitWord body).2 = some v ∧
        v.isSupported = true := by
  have hnot : "BOLT".toList ≠ "AUTO".toList := by decide
  unfold readDirective
  dsimp only
  rw [hbolt, if_neg hnot, if_pos rfl]
  cases Version.ofText? (Text.splitWord body).2 with
  | none => simp
  | some w =>
    dsimp only
    by_cases hsupported : w.isSupported = true
    · rw [if_pos hsupported]
      constructor
      · intro h
        exact ⟨w, (Except.ok.inj h).symm, rfl, hsupported⟩
      · rintro ⟨v, rfl, heq, -⟩
        rw [Option.some.inj heq]
    · rw [if_neg hsupported]
      constructor
      · intro h
        cases h
      · rintro ⟨v, -, heq, hv⟩
        obtain rfl := Option.some.inj heq
        exact absurd hv hsupported

/-- `BOLT` with a word behind it pins the same version only if the word is the minor number 0 of a
version that had none. -/
private theorem readVersion_behind {d : Directive}
    (hbolt : (Text.splitWord body).1 = "BOLT".toList) (h : readDirective body = .ok d)
    (hne : Text.trimStart body ≠ []) (hgap : IsGap gap) (hword : IsWord word) :
    (∃ v, d = .version v) ∧ (readDirective (body ++ (gap ++ word)) = .ok d ↔ '.' ∉ body ∧
      ∃ minor, word = '.' :: minor ∧ Text.boundedNumeral? 256 minor = some 0) := by
  obtain ⟨v, rfl, hv, hsupported⟩ := (readDirective_version_iff hbolt).mp h
  have hbehind := Text.splitWord_behind hne hgap hword
  have hrest : (Text.splitWord body).2 ≠ [] := by
    intro hnil
    rw [hnil] at hv
    cases hv
  have hpoint : '.' ∈ body ↔ '.' ∈ (Text.splitWord body).2 := by
    rw [Text.mem_splitWord (by decide), hbolt]
    simp
  have hbolt' : (Text.splitWord (body ++ (gap ++ word))).1 = "BOLT".toList := by
    rw [hbehind]
    exact hbolt
  refine ⟨⟨v, rfl⟩, ?_⟩
  rw [readDirective_version_iff hbolt', hbehind, if_neg hrest, hpoint,
    ← Version.ofText?_behind hv hgap hword]
  constructor
  · rintro ⟨w, heq, hw, -⟩
    rw [hw, Directive.version.inj heq]
  · intro hw
    exact ⟨v, rfl, hw, hsupported⟩

/-- A directive with a word behind it says the same only if it is `AUTO` with a name, or if the word
is the minor number 0 of a version that had none. -/
theorem readDirective_behind {d : Directive} (h : readDirective body = .ok d)
    (hne : Text.trimStart body ≠ []) (hgap : IsGap gap) (hword : IsWord word) :
    readDirective (body ++ (gap ++ word)) = .ok d ↔ (∃ name, d = .auto name) ∨
      (∃ v, d = .version v) ∧ '.' ∉ body ∧ ∃ minor, word = '.' :: minor ∧
        Text.boundedNumeral? 256 minor = some 0 := by
  by_cases hbolt : (Text.splitWord body).1 = "BOLT".toList
  · obtain ⟨hversion, hiff⟩ := readVersion_behind hbolt h hne hgap hword
    have hauto : ¬∃ name, d = .auto name := by
      obtain ⟨v, rfl⟩ := hversion
      simp
    rw [or_iff_right hauto, and_iff_right hversion]
    exact hiff
  have hbehind := Text.splitWord_behind hne hgap hword
  unfold readDirective at h ⊢
  rw [hbehind]
  dsimp only at h ⊢
  rw [if_neg hbolt] at h ⊢
  split at h
  · next hauto =>
    rw [if_pos hauto]
    split at h
    · cases h
    · next hname =>
      obtain rfl := Except.ok.inj h
      have hrest : Text.trimStart (Text.splitWord body).2 ≠ [] := by
        intro hnil
        rw [Text.splitWord, hnil] at hname
        exact hname rfl
      have hsame := Text.splitWord_behind hrest hgap hword
      have hne : (Text.splitWord body).2 ≠ [] := fun hnil ↦ hrest (by rw [hnil]; rfl)
      rw [if_neg hne, hsame, if_neg hname]
      exact iff_of_true rfl (.inl ⟨_, rfl⟩)
  · next hauto =>
    rw [if_neg hauto]
    split at h
    · next hhandshake =>
      obtain ⟨bytes, hbytes, rfl⟩ := map_eq_ok_iff.mp h
      rw [if_pos hhandshake, map_eq_ok_map_iff fun _ ↦ Directive.handshake.inj]
      exact iff_of_false (readHex_behind hbytes hgap hword) (by simp)
    · split at h
      · cases h
      · cases h

end Script

end ScriptedBolt
