/-!
# Blank characters, words and lines

A character is blank when it has the property White_Space of the Unicode standard, which has
25 members. Texts are lists of characters here: they are trimmed, cut into words and cut into
lines.
-/

namespace ScriptedBolt.Text

/-- The property White_Space of the Unicode standard. -/
def isBlank (c : Char) : Bool :=
  let n := c.toNat
  (9 ≤ n && n ≤ 13) || n == 0x20 || n == 0x85 || n == 0xA0 || n == 0x1680
    || (0x2000 ≤ n && n ≤ 0x200A) || n == 0x2028 || n == 0x2029 || n == 0x202F
    || n == 0x205F || n == 0x3000

/-- A text without the blanks at its start. -/
def trimStart (text : List Char) : List Char := text.dropWhile isBlank

/-- A text without the blanks at its end. -/
def trimEnd (text : List Char) : List Char := (text.reverse.dropWhile isBlank).reverse

/-- A text without the blanks at either end. -/
def trim (text : List Char) : List Char := trimEnd (trimStart text)

/-- The first word of a text, and what follows it from its first character that is not blank. -/
def splitWord (text : List Char) : List Char × List Char :=
  let text := trimStart text
  (text.takeWhile (!isBlank ·), trimStart (text.dropWhile (!isBlank ·)))

/-- A finished line, given backwards: a carriage return right before the line feed is dropped. -/
private def finishLine : List Char → List Char
  | '\r' :: line => line.reverse
  | line => line.reverse

/-- The lines of the text after `line`, which holds the characters of the current line
backwards. -/
private def linesAfter (line : List Char) : List Char → List (List Char)
  | [] => if line.isEmpty then [] else [line.reverse]
  | '\n' :: text => finishLine line :: linesAfter [] text
  | c :: text => linesAfter (c :: line) text

/-- The lines of a text. A line ends at a line feed, with or without a carriage return before
it; what follows the last line feed is a line if it is not empty, and keeps all its
characters. -/
def lines (text : List Char) : List (List Char) := linesAfter [] text

private theorem linesAfter_append {line text : List Char} (h : '\n' ∉ text) (rest : List Char) :
    linesAfter line (text ++ rest) = linesAfter (text.reverse ++ line) rest := by
  induction text generalizing line with
  | nil => rfl
  | cons c text ih =>
    rw [List.mem_cons, not_or] at h
    rw [List.cons_append, linesAfter, ih h.2, List.reverse_cons, List.append_assoc]
    · rfl
    · exact fun hc ↦ h.1 hc.symm

/-- A text without line feeds is one line. -/
theorem lines_of_not_mem {text : List Char} (hne : text ≠ []) (h : '\n' ∉ text) :
    lines text = [text] := by
  have hlines : linesAfter [] (text ++ []) = linesAfter (text.reverse ++ []) [] :=
    linesAfter_append h []
  rw [List.append_nil, List.append_nil, linesAfter, if_neg (by simp [hne]), List.reverse_reverse]
    at hlines
  exact hlines

/-- A line ends at a line feed. -/
theorem lines_append_feed {line : List Char} (h : '\n' ∉ line) (hr : line.getLast? ≠ some '\r')
    (rest : List Char) : lines (line ++ '\n' :: rest) = line :: lines rest := by
  have hfinish : finishLine line.reverse = line := by
    rw [← List.head?_reverse] at hr
    unfold finishLine
    split
    · next heq => simp [heq] at hr
    · exact List.reverse_reverse line
  rw [lines, linesAfter_append h, List.append_nil, linesAfter, hfinish, lines]

/-- A carriage return before the line feed does not belong to the line. -/
theorem lines_append_return {line : List Char} (h : '\n' ∉ line) (rest : List Char) :
    lines (line ++ '\r' :: '\n' :: rest) = line :: lines rest := by
  rw [lines, linesAfter_append h, List.append_nil, linesAfter, linesAfter, finishLine,
    List.reverse_reverse, lines]
  decide

/-- There are no line feeds in lines. -/
theorem not_mem_of_mem_lines {text line : List Char} (h : line ∈ lines text) : '\n' ∉ line := by
  have hfinish (before : List Char) : ∀ c ∈ finishLine before, c ∈ before := by
    intro c hc
    unfold finishLine at hc
    split at hc
    · exact List.mem_cons_of_mem _ (List.mem_reverse.mp hc)
    · exact List.mem_reverse.mp hc
  have hlines (before text : List Char) (hb : '\n' ∉ before) :
      ∀ line ∈ linesAfter before text, '\n' ∉ line := by
    fun_induction linesAfter before text with
    | case1 => simp
    | case2 before hne => simpa using hb
    | case3 before text ih =>
      rw [List.forall_mem_cons]
      exact ⟨fun hmem ↦ hb (hfinish before _ hmem), ih List.not_mem_nil⟩
    | case4 before c text hc ih =>
      apply ih
      rw [List.mem_cons, not_or]
      exact ⟨fun heq ↦ hc heq.symm, hb⟩
  exact hlines [] text List.not_mem_nil line h

private theorem linesAfter_ne_nil {line text : List Char} (h : line ≠ [] ∨ text ≠ []) :
    linesAfter line text ≠ [] := by
  fun_induction linesAfter line text with
  | case1 line hempty => exact absurd (List.isEmpty_iff.mp hempty) (by simpa using h)
  | case2 => simp
  | case3 => simp
  | case4 line c text hc ih => exact ih (.inl (by simp))

/-- A text whose last line is empty ends in a line feed. -/
theorem getLast?_of_lines {text : List Char} (h : (lines text).getLast? = some []) :
    text.getLast? = some '\n' := by
  have hlines (before text : List Char) (h : (linesAfter before text).getLast? = some []) :
      text.getLast? = some '\n' := by
    fun_induction linesAfter before text with
    | case1 => simp at h
    | case2 before hne => exact absurd (List.isEmpty_iff.mpr (by simpa using h)) hne
    | case3 before text ih =>
      cases text with
      | nil => rfl
      | cons c text =>
        have hne : linesAfter [] (c :: text) ≠ [] :=
          linesAfter_ne_nil (.inr (List.cons_ne_nil c text))
        obtain ⟨next, more, hmore⟩ := List.exists_cons_of_ne_nil hne
        rw [hmore, List.getLast?_cons_cons, ← hmore] at h
        rw [List.getLast?_cons_cons]
        exact ih h
    | case4 before c text hc ih =>
      rw [List.getLast?_cons, ih h]
      rfl
  exact hlines [] text h

/-- Characters of a kind end where they ended with more text behind that does not start with one. -/
theorem span_append {kind : Char → Bool} {c : Char} (hc : kind c = false)
    (text more : List Char) :
    (text ++ c :: more).takeWhile kind = text.takeWhile kind ∧
      (text ++ c :: more).dropWhile kind = text.dropWhile kind ++ c :: more := by
  induction text with
  | nil => simp [hc]
  | cons d text ih =>
    by_cases hd : kind d = true
    · simp [hd, ih]
    · simp [hd]

/-- A text that starts with a character has no blanks at its start, unless that is one. -/
theorem trimStart_cons {c : Char} (h : isBlank c = false) (text : List Char) :
    trimStart (c :: text) = c :: text := by
  simp [trimStart, h]

/-- A text that ends in a character has no blanks at its end, unless that is one. -/
theorem trimEnd_append {c : Char} (h : isBlank c = false) (text : List Char) :
    trimEnd (text ++ [c]) = text ++ [c] := by
  simp [trimEnd, h]

/-- The first character of a text stays if it is not blank. -/
theorem trimEnd_cons {c : Char} (h : isBlank c = false) (text : List Char) :
    trimEnd (c :: text) = c :: trimEnd text := by
  rw [trimEnd, trimEnd, List.reverse_cons, List.dropWhile_append]
  cases text.reverse.dropWhile isBlank with
  | nil => simp [h]
  | cons d more => simp

/-- What is left of a text when it is trimmed shows at both ends. -/
theorem ends_of_trim {text : List Char} (hne : trim text ≠ []) :
    (∃ c more, trim text = c :: more ∧ isBlank c = false) ∧
      ∃ more c, trim text = more ++ [c] ∧ isBlank c = false := by
  have hhead {text more : List Char} {c : Char} (h : text.dropWhile isBlank = c :: more) :
      isBlank c = false := by
    have hnot := List.head?_dropWhile_not isBlank text
    rwa [h] at hnot
  constructor
  · cases hstart : trimStart text with
    | nil => simp [trim, hstart, trimEnd] at hne
    | cons c more =>
      have hc := hhead hstart
      exact ⟨c, trimEnd more, by rw [trim, hstart, trimEnd_cons hc], hc⟩
  · have htrim : trim text = ((trimStart text).reverse.dropWhile isBlank).reverse := rfl
    cases hend : (trimStart text).reverse.dropWhile isBlank with
    | nil => simp [htrim, hend] at hne
    | cons c more => exact ⟨more.reverse, c, by rw [htrim, hend, List.reverse_cons], hhead hend⟩

/-- What is left of a text when it is trimmed stands in it. -/
theorem trim_sublist (text : List Char) : (trim text).Sublist text := by
  have hend : (trimEnd (trimStart text)).Sublist (trimStart text) := by
    rw [← List.reverse_sublist, trimEnd, List.reverse_reverse]
    exact List.dropWhile_sublist isBlank
  exact hend.trans (List.dropWhile_sublist isBlank)

/-- Nothing of a text that shows at both ends is trimmed. -/
theorem trim_eq_self {text front back : List Char} {c d : Char} (hstart : text = c :: back)
    (hc : isBlank c = false) (hend : text = front ++ [d]) (hd : isBlank d = false) :
    trim text = text := by
  rw [trim, hstart, trimStart_cons hc, ← hstart, hend, trimEnd_append hd]

/-- To trim a text again changes nothing. -/
theorem trim_trim (text : List Char) : trim (trim text) = trim text := by
  by_cases hne : trim text = []
  · rw [hne]
    rfl
  · obtain ⟨⟨c, back, hstart, hc⟩, front, d, hend, hd⟩ := ends_of_trim hne
    exact trim_eq_self hstart hc hend hd

/-- A blank at the start of a text is trimmed. -/
theorem trim_cons {c : Char} (h : isBlank c = true) (text : List Char) :
    trim (c :: text) = trim text := by
  rw [trim, trimStart, List.dropWhile_cons_of_pos h]
  rfl

/-- A blank at the end of a text is trimmed. -/
theorem trim_append {c : Char} (h : isBlank c = true) (text : List Char) :
    trim (text ++ [c]) = trim text := by
  rw [trim, trim, trimStart, trimStart, List.dropWhile_append]
  cases text.dropWhile isBlank with
  | nil => simp [h]
  | cons d more => simp [trimEnd, h]

/-- Only blanks are trimmed. -/
theorem filter_trimStart (text : List Char) :
    (trimStart text).filter (!isBlank ·) = text.filter (!isBlank ·) := by
  induction text with
  | nil => rfl
  | cons c text ih =>
    unfold trimStart at ih ⊢
    by_cases h : isBlank c <;> simp [h, ih]

/-- Nothing of a text is lost when a word is split off, blanks apart. -/
theorem splitWord_filter (text : List Char) :
    ((splitWord text).1 ++ (splitWord text).2).filter (!isBlank ·)
      = text.filter (!isBlank ·) := by
  rw [List.filter_append]
  simp only [splitWord]
  rw [filter_trimStart, ← List.filter_append, List.takeWhile_append_dropWhile, filter_trimStart]

/-- A word is split off before a blank. -/
theorem splitWord_append {word rest : List Char} (hne : word ≠ [])
    (hword : ∀ c ∈ word, isBlank c = false) (hrest : rest.head?.all isBlank = true) :
    splitWord (word ++ rest) = (word, trimStart rest) := by
  have hstart : trimStart (word ++ rest) = word ++ rest := by
    obtain ⟨c, more, rfl⟩ := List.exists_cons_of_ne_nil hne
    exact trimStart_cons (hword c List.mem_cons_self) (more ++ rest)
  have hall : ∀ c ∈ word, (!isBlank c) = true := by
    intro c hc
    rw [hword c hc]
    rfl
  have hspan : rest.takeWhile (!isBlank ·) = [] ∧ rest.dropWhile (!isBlank ·) = rest := by
    cases rest with
    | nil => exact ⟨rfl, rfl⟩
    | cons c rest =>
      have hc : isBlank c = true := hrest
      exact ⟨List.takeWhile_cons_of_neg (by simp [hc]), List.dropWhile_cons_of_neg (by simp [hc])⟩
  rw [splitWord, hstart, List.takeWhile_append_of_pos hall, List.dropWhile_append_of_pos hall,
    hspan.1, hspan.2, List.append_nil]

end ScriptedBolt.Text
