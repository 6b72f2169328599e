import Mathlib.Data.List.Basic
import Mathlib.Data.List.TakeWhile
import ScriptedBolt.Proofs.Value.Spelling
import ScriptedBolt.Text.Numeral

/-!
# Words behind texts

A word stands behind a text when blanks stand between the two. To trim such a text, or to split its
first word off, changes it before the word only. A numeral has no word behind it, and any line of a
text can have one.
-/

namespace ScriptedBolt

namespace Text

/-- Whether a text is one or more blanks. -/
def IsGap (gap : List Char) : Prop := gap ≠ [] ∧ ∀ c ∈ gap, isBlank c = true

/-- Whether a text is a word: one or more characters, none of them blank. -/
def IsWord (word : List Char) : Prop := word ≠ [] ∧ ∀ c ∈ word, isBlank c = false

instance : DecidablePred IsGap := fun gap ↦
  decidable_of_iff (gap ≠ [] ∧ gap.all isBlank = true) (by rw [List.all_eq_true, IsGap])

instance : DecidablePred IsWord := fun word ↦
  decidable_of_iff (word ≠ [] ∧ word.all (!isBlank ·) = true) (by simp [IsWord])

variable {text gap word : List Char}

/-- A word shows at its start. -/
theorem IsWord.trimStart (h : IsWord word) : trimStart word = word := by
  obtain ⟨c, more, rfl⟩ := List.exists_cons_of_ne_nil h.1
  exact trimStart_cons (h.2 c List.mem_cons_self) more

/-- A text that ends in a word shows at its end. -/
theorem IsWord.trimEnd_append (h : IsWord word) (text : List Char) :
    trimEnd (text ++ word) = text ++ word := by
  obtain ⟨more, c, rfl⟩ := (List.eq_nil_or_concat' word).resolve_left h.1
  rw [← List.append_assoc]
  exact Text.trimEnd_append (h.2 c (by simp)) (text ++ more)

/-- At the start of a text with a word behind it, that text is trimmed, or all before the word. -/
theorem trimStart_behind (hgap : IsGap gap) (hword : IsWord word) (text : List Char) :
    trimStart (text ++ (gap ++ word)) =
      if trimStart text = [] then word else trimStart text ++ (gap ++ word) := by
  have hblank : trimStart (gap ++ word) = word := by
    rw [trimStart, List.dropWhile_append_of_pos hgap.2]
    exact hword.trimStart
  rw [trimStart, List.dropWhile_append]
  cases hstart : text.dropWhile isBlank with
  | nil => simpa [trimStart, hstart] using hblank
  | cons c more => simp [trimStart, hstart]

/-- What is trimmed at the end of a text is blank. -/
theorem exists_trimEnd_append (text : List Char) :
    ∃ blanks, (∀ c ∈ blanks, isBlank c = true) ∧ text = trimEnd text ++ blanks := by
  refine ⟨(text.reverse.takeWhile isBlank).reverse, ?_, ?_⟩
  · intro c hc
    exact List.all_eq_true.mp List.all_takeWhile c (List.mem_reverse.mp hc)
  · rw [trimEnd, ← List.reverse_append, List.takeWhile_append_dropWhile, List.reverse_reverse]

/-- A text with a word behind it is trimmed as the text is, with the word behind. -/
theorem trim_behind (hne : trim text ≠ []) (hgap : IsGap gap) (hword : IsWord word) :
    ∃ gap', IsGap gap' ∧ trim (text ++ (gap ++ word)) = trim text ++ (gap' ++ word) := by
  have hstart : trimStart text ≠ [] := by
    intro hnil
    rw [trim, hnil] at hne
    exact hne rfl
  obtain ⟨blanks, hblanks, heq⟩ := exists_trimEnd_append (trimStart text)
  refine ⟨blanks ++ gap, ⟨?_, ?_⟩, ?_⟩
  · exact List.append_ne_nil_of_right_ne_nil _ hgap.1
  · exact List.forall_mem_append.mpr ⟨hblanks, hgap.2⟩
  · calc trim (text ++ (gap ++ word))
        = trimEnd (trimStart text ++ (gap ++ word)) := by
          rw [trim, trimStart_behind hgap hword, if_neg hstart]
      _ = trimStart text ++ (gap ++ word) := by
          rw [← List.append_assoc, hword.trimEnd_append]
      _ = trim text ++ blanks ++ (gap ++ word) := congrArg (· ++ (gap ++ word)) heq
      _ = trim text ++ (blanks ++ gap ++ word) := by simp only [List.append_assoc]

/-- Behind the first word of a text another one stands behind what follows the first. -/
theorem splitWord_behind (hne : trimStart text ≠ []) (hgap : IsGap gap) (hword : IsWord word) :
    splitWord (text ++ (gap ++ word)) = ((splitWord text).1,
      if (splitWord text).2 = [] then word else (splitWord text).2 ++ (gap ++ word)) := by
  obtain ⟨b, blanks, rfl⟩ := List.exists_cons_of_ne_nil hgap.1
  have hb : (!isBlank b) = false := by
    rw [hgap.2 b List.mem_cons_self]
    rfl
  have hbehind := trimStart_behind hgap hword ((trimStart text).dropWhile (!isBlank ·))
  obtain ⟨htake, hdrop⟩ := @span_append (!isBlank ·) b hb (trimStart text) (blanks ++ word)
  rw [splitWord, trimStart_behind hgap hword, if_neg hne]
  rw [List.cons_append, htake, hdrop, ← List.cons_append, hbehind]
  rfl

/-- What is not blank in a text is not left out with the blanks. -/
private theorem mem_filter_iff {c : Char} (hc : isBlank c = false) (text : List Char) :
    c ∈ text.filter (!isBlank ·) ↔ c ∈ text := by
  simp [List.mem_filter, hc]

/-- What is not blank in a text stands in its first word or behind it. -/
theorem mem_splitWord {c : Char} (hc : isBlank c = false) :
    c ∈ text ↔ c ∈ (splitWord text).1 ∨ c ∈ (splitWord text).2 := by
  rw [← mem_filter_iff hc, ← splitWord_filter, mem_filter_iff hc, List.mem_append]

/-- Blanks at the end of a text are trimmed. -/
theorem trim_append_blanks {blanks : List Char} (h : ∀ c ∈ blanks, isBlank c = true)
    (text : List Char) : trim (text ++ blanks) = trim text := by
  induction blanks generalizing text with
  | nil => rw [List.append_nil]
  | cons c blanks ih =>
    rw [List.forall_mem_cons] at h
    rw [List.append_cons, ih h.2, trim_append h.1]

/-- What is not blank in a text is not trimmed. -/
theorem mem_trim {c : Char} (hc : isBlank c = false) : c ∈ trim text ↔ c ∈ text := by
  have hend (text : List Char) : c ∈ trimEnd text ↔ c ∈ text := by
    obtain ⟨blanks, hblanks, heq⟩ := exists_trimEnd_append text
    have hnot : c ∉ blanks := fun hmem ↦ Bool.noConfusion (hc.symm.trans (hblanks c hmem))
    conv_rhs => rw [heq, List.mem_append]
    rw [or_iff_left hnot]
  rw [trim, hend, ← mem_filter_iff hc, filter_trimStart, mem_filter_iff hc]

/-- Nothing of a word is trimmed. -/
theorem IsWord.trim (h : IsWord word) : trim word = word := by
  have hend := h.trimEnd_append []
  rw [List.nil_append] at hend
  rw [Text.trim, h.trimStart, hend]

/-- There are no blanks in a numeral. -/
theorem isBlank_of_boundedNumeral? {bound n : Nat} (h : boundedNumeral? bound text = some n) :
    ∀ c ∈ text, isBlank c = false := by
  have hdigits : (dropPlus text).all Char.isDigit = true := by
    unfold boundedNumeral? at h
    dsimp only at h
    split at h
    · cases h
    · next hnot =>
      rw [Bool.or_eq_true, not_or, Bool.not_eq_true', Bool.not_eq_false] at hnot
      exact hnot.2
  have hblank (c : Char) (hc : c ∈ dropPlus text) : isBlank c = false :=
    isBlank_of_isGraphic (isGraphic_of_isDigit (List.all_eq_true.mp hdigits c hc))
  unfold dropPlus at hblank
  split at hblank
  · exact List.forall_mem_cons.mpr ⟨rfl, hblank⟩
  · exact hblank

/-- A bounded numeral stands for a number below its bound. -/
theorem lt_of_boundedNumeral? {bound n : Nat} (h : boundedNumeral? bound text = some n) :
    n < bound := by
  unfold boundedNumeral? at h
  dsimp only at h
  split at h
  · cases h
  · split at h
    · next hlt => exact Option.some.inj h ▸ hlt
    · cases h

/-- A text with a word behind it is no numeral if it is one without. -/
theorem boundedNumeral?_behind {bound n : Nat} (h : boundedNumeral? bound (trim text) = some n)
    (hgap : IsGap gap) (hword : IsWord word) :
    boundedNumeral? bound (trim (text ++ (gap ++ word))) = none := by
  have hne : trim text ≠ [] := by
    intro hnil
    rw [hnil] at h
    cases h
  obtain ⟨gap', hgap', htrim⟩ := trim_behind hne hgap hword
  obtain ⟨b, blanks, rfl⟩ := List.exists_cons_of_ne_nil hgap'.1
  rw [Option.eq_none_iff_forall_ne_some]
  intro m hm
  have hb := isBlank_of_boundedNumeral? hm b (by rw [htrim]; simp)
  rw [hgap'.2 b List.mem_cons_self] at hb
  cases hb

/-! ### Where lines end -/

/-- Whether a line ends so: in a line feed, with or without a carriage return before it. -/
private def EndsIn (raw ending : List Char) : Prop :=
  ending = ['\n'] ∧ raw.getLast? ≠ some '\r' ∨ ending = ['\r', '\n']

/-- A line is cut off at its end. -/
private theorem lines_endsIn {raw ending : List Char} (hend : EndsIn raw ending) (hraw : '\n' ∉ raw)
    (back : List Char) : lines (raw ++ (ending ++ back)) = raw :: lines back := by
  rcases hend with ⟨rfl, hr⟩ | rfl
  · exact lines_append_feed hraw hr back
  · exact lines_append_return hraw back

/-- A line has an end, or it is the last one and ends with the text. -/
private theorem exists_ending {raw : List Char} {rest : List (List Char)}
    (h : lines text = raw :: rest) :
    (∃ ending back, text = raw ++ (ending ++ back) ∧ lines back = rest ∧ EndsIn raw ending) ∨
      text = raw ∧ rest = [] := by
  by_cases hfeed : '\n' ∈ text
  · obtain ⟨first, back, rfl, hfirst⟩ := List.eq_append_cons_of_mem hfeed
    by_cases hreturn : first.getLast? = some '\r'
    · obtain ⟨line, rfl⟩ := List.getLast?_eq_some_iff.mp hreturn
      have hline : '\n' ∉ line := fun hmem ↦ hfirst (List.mem_append_left _ hmem)
      rw [List.append_assoc] at h
      obtain ⟨rfl, rfl⟩ := List.cons.inj ((lines_append_return hline back).symm.trans h)
      exact .inl ⟨['\r', '\n'], back, List.append_assoc _ _ _, rfl, .inr rfl⟩
    · rw [lines_append_feed hfirst hreturn] at h
      obtain ⟨rfl, rfl⟩ := List.cons.inj h
      exact .inl ⟨['\n'], back, rfl, rfl, .inl ⟨rfl, hreturn⟩⟩
  · have hne : text ≠ [] := by
      rintro rfl
      cases h
    rw [lines_of_not_mem hne hfeed] at h
    obtain ⟨rfl, rfl⟩ := List.cons.inj h
    exact .inr ⟨rfl, rfl⟩

/-- Any line of a text can be made longer in the text. -/
theorem exists_lines_behind {above below : List (List Char)} {raw : List Char}
    (h : lines text = above ++ raw :: below) :
    ∃ front back, text = front ++ raw ++ back ∧
      ∀ more, '\n' ∉ more → more ≠ [] → more.getLast? ≠ some '\r' →
        lines (front ++ (raw ++ more) ++ back) = above ++ (raw ++ more) :: below := by
  have hfeed : ∀ line ∈ above ++ raw :: below, '\n' ∉ line := by
    intro line hline
    rw [← h] at hline
    exact not_mem_of_mem_lines hline
  induction above generalizing text with
  | nil =>
    have hraw : '\n' ∉ raw := hfeed raw List.mem_cons_self
    have hlonger {more : List Char} (hmore : '\n' ∉ more) : '\n' ∉ raw ++ more := by
      simp [hraw, hmore]
    rcases exists_ending h with ⟨ending, back, rfl, hback, hend⟩ | ⟨rfl, rfl⟩
    · refine ⟨[], ending ++ back, rfl, ?_⟩
      intro more hmore hne hreturn
      have hend' : EndsIn (raw ++ more) ending := by
        refine hend.imp_left fun hfeed ↦ ⟨hfeed.1, ?_⟩
        rwa [List.getLast?_append_of_ne_nil _ hne]
      rw [List.nil_append, lines_endsIn hend' (hlonger hmore), hback]
      rfl
    · refine ⟨[], [], by simp, ?_⟩
      intro more hmore hne _
      have hne' : text ++ more ≠ [] := List.append_ne_nil_of_right_ne_nil _ hne
      rw [List.nil_append, List.append_nil, lines_of_not_mem hne' (hlonger hmore)]
      rfl
  | cons first above ih =>
    have hfirst : '\n' ∉ first := hfeed first List.mem_cons_self
    rcases exists_ending h with ⟨ending, back, rfl, hback, hend⟩ | ⟨-, hnil⟩
    · obtain ⟨front, back, rfl, hlonger⟩ :=
        ih hback fun line hline ↦ hfeed line (List.mem_cons_of_mem _ hline)
      refine ⟨first ++ (ending ++ front), back, by simp, ?_⟩
      intro more hmore hne hreturn
      have hsplit : first ++ (ending ++ front) ++ (raw ++ more) ++ back =
          first ++ (ending ++ (front ++ (raw ++ more) ++ back)) := by simp
      rw [hsplit, lines_endsIn hend hfirst, hlonger more hmore hne hreturn]
      rfl
    · simp at hnil

end Text

end ScriptedBolt
