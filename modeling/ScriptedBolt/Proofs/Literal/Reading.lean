import ScriptedBolt.Proofs.Literal.Grammar
import ScriptedBolt.Proofs.Value.Spelling

/-!
# Reading texts of literals

Each text that the grammar has for a literal is read as what is left of that literal
(`Reader.nested_of_spells`), whatever may follow it. So the values in the text of a row of literals
are those of what is left of them (`values_of_spellsRow`). Strings are read character by character,
and lists and objects item by item and entry by entry.
-/

namespace ScriptedBolt.Literal

variable {c : Char} {text blanks more rest after : List Char}

/-! ### Blanks -/

/-- A character that shows is not skipped. -/
theorem isSpace_of_isGraphic (h : Text.isGraphic c = true) : isSpace c = false := by
  rw [Bool.eq_false_iff]
  intro hs
  simp only [isSpace, Bool.or_eq_true, beq_iff_eq] at hs
  rcases hs with ((rfl | rfl) | rfl) | rfl
  all_goals exact absurd h (by decide)

/-- Blanks are skipped before other characters only. -/
theorem skipSpace_cons (h : isSpace c = false) (more : List Char) :
    skipSpace (c :: more) = c :: more := by
  rw [skipSpace, List.dropWhile_cons_of_neg (by simp [h])]

/-- Blanks before a text are skipped. -/
theorem skipSpace_blanks (h : Blanks blanks) (text : List Char) :
    skipSpace (blanks ++ text) = skipSpace text :=
  List.dropWhile_append_of_pos h

/-- A blank can follow a literal, and so can blanks before what can. -/
theorem canFollow_blanks (h : Blanks blanks) (htext : canFollow text = true) :
    canFollow (blanks ++ text) = true := by
  cases blanks with
  | nil => exact htext
  | cons c blanks => rw [List.cons_append, canFollow, h c List.mem_cons_self, Bool.true_or]

namespace Reader

/-! ### Strings -/

/-- An escape in a string is read as the character that it stands for. -/
theorem string_of_escape (h : escape text = .ok (c, after)) (before : List Char) :
    string before ('\\' :: text) = string (c :: before) after := by
  rw [string]
  split
  · next heq =>
    rw [h] at heq
    cases heq
  · next heq =>
    rw [h] at heq
    obtain ⟨rfl, rfl⟩ := Prod.mk.inj (Except.ok.inj heq)
    rfl

/-- A character of a string is read from each of its spellings. -/
theorem string_of_spellsChar (h : SpellsChar c text) (before rest : List Char) :
    string before (text ++ rest) = string (c :: before) rest := by
  cases h with
  | plain hquote hslash hcontrol =>
    rw [List.singleton_append, string, if_neg (by omega)]
    · exact hquote
    · exact hslash
  | @short mark c hmark =>
    have hescape : escape (mark :: rest) = .ok (c, rest) := by
      simp only [shortEscapes, List.mem_cons, Prod.mk.injEq, List.not_mem_nil, or_false] at hmark
      rcases hmark with ⟨rfl, rfl⟩ | ⟨rfl, rfl⟩ | ⟨rfl, rfl⟩ | ⟨rfl, rfl⟩ | ⟨rfl, rfl⟩ |
        ⟨rfl, rfl⟩ | ⟨rfl, rfl⟩ | ⟨rfl, rfl⟩
      all_goals rfl
    exact string_of_escape hescape before
  | unit hunit hn =>
    cases hunit with
    | intro ha hb hc hd => exact string_of_escape (escape_of_digits ha hb hc hd hn rest) before
  | @pair digits digits' high low hhigh hlt hlow hlt' =>
    generalize hfirst : 0xD800 + high = first at hhigh
    generalize hsecond : 0xDC00 + low = second at hlow
    cases hhigh with
    | intro ha hb hc hd =>
      cases hlow with
      | intro ha' hb' hc' hd' =>
        exact string_of_escape (escape_of_pair ha hb hc hd ha' hb' hc' hd' hfirst.symm hlt
          hsecond.symm hlt' rest) before

/-- The characters of a string are read up to its closing quote. -/
theorem string_of_spellsChars {cs : List Char} (h : SpellsChars cs text)
    (before rest : List Char) :
    string before (text ++ '"' :: rest) = .ok (String.ofList (before.reverse ++ cs), rest) := by
  induction h generalizing before with
  | nil => rw [List.nil_append, string, List.append_nil]
  | @cons c cs text more hchar _ ih =>
    rw [List.append_assoc, string_of_spellsChar hchar, ih, List.reverse_cons, List.append_assoc]
    rfl

/-- A string is read from behind its opening quote. -/
theorem string_of_spellsString {s : String} (h : SpellsString s text) : ∃ quoted,
    text = '"' :: quoted ∧ ∀ rest, string [] (quoted ++ rest) = .ok (s, rest) := by
  obtain ⟨chars, hchars, rfl⟩ := h
  refine ⟨chars ++ ['"'], rfl, fun rest ↦ ?_⟩
  rw [List.append_assoc, List.singleton_append, string_of_spellsChars hchars, List.reverse_nil,
    List.nil_append, String.ofList_toList]

/-! ### Numbers -/

/-- A literal that starts with a digit is a number. -/
theorem literal_of_isDigit (inner : Option (Reader Literal)) (h : c.isDigit = true) :
    literal inner (c :: more) =
      (number false (c :: more)).map fun (n, rest) ↦ (.number n, rest) := by
  have hne (other : Char) (hother : other.isDigit = false) : c ≠ other := by
    rintro rfl
    rw [h] at hother
    exact Bool.noConfusion hother
  have hspace : isSpace c = false := isSpace_of_isGraphic (Text.isGraphic_of_isDigit h)
  have hscalar : scalar (c :: more) =
      (number false (c :: more)).map fun (n, rest) ↦ (.number n, rest) := by
    unfold scalar
    split
    · next heq => cases heq
    · next heq => exact absurd (List.cons.inj heq).1 (hne _ rfl)
    · next heq => exact absurd (List.cons.inj heq).1 (hne _ rfl)
    · next heq => exact absurd (List.cons.inj heq).1 (hne _ rfl)
    · next heq => exact absurd (List.cons.inj heq).1 (hne _ rfl)
    · next heq => exact absurd (List.cons.inj heq).1 (hne _ rfl)
    · next heq =>
      obtain ⟨rfl, rfl⟩ := List.cons.inj heq
      rw [if_pos h]
  rw [literal, skipSpace_cons hspace]
  split
  · next heq => exact absurd (List.cons.inj heq).1 (hne _ rfl)
  · next heq => exact absurd (List.cons.inj heq).1 (hne _ rfl)
  · exact hscalar

/-- An integer is read from its text. -/
theorem literal_of_isWhole (inner : Option (Reader Literal)) {n : Numeral} (h : n.IsWhole)
    (hrest : canFollow rest = true) : literal inner (n.text ++ rest) = .ok (.number n, rest) := by
  obtain ⟨negative, whole, fraction, exponent⟩ := n
  have hinteger := h.isInteger
  rw [Numeral.isInteger, Bool.and_eq_true, Option.isNone_iff_eq_none, Option.isNone_iff_eq_none]
    at hinteger
  obtain ⟨rfl, rfl⟩ := hinteger
  have hread := number_of_digits negative h.ne_nil h.isDigit h.zero hrest
  have htext : (Numeral.text ⟨negative, whole, none, none⟩) ++ rest =
      (if negative then ['-'] else []) ++ (whole ++ rest) := by
    simp only [Numeral.text, List.append_nil, List.append_assoc]
  rw [htext]
  cases negative with
  | true =>
    show (number true (whole ++ rest)).map _ = _
    rw [hread]
    rfl
  | false =>
    obtain ⟨d, ds, hds⟩ := List.exists_cons_of_ne_nil h.ne_nil
    have hd : d.isDigit = true := h.isDigit d (hds ▸ List.mem_cons_self)
    dsimp only at hds
    rw [hds, List.cons_append] at hread
    rw [hds, if_neg Bool.false_ne_true, List.nil_append, List.cons_append,
      literal_of_isDigit inner hd, hread]
    rfl

end Reader

/-! ### Where literals start -/

/-- The text of an integer starts with a digit or a sign. -/
theorem exists_text_eq_cons {n : Numeral} (h : n.IsWhole) :
    ∃ c more, n.text = c :: more ∧ (c = '-' ∨ c.isDigit = true) := by
  obtain ⟨d, ds, hds⟩ := List.exists_cons_of_ne_nil h.ne_nil
  have hd : d.isDigit = true := h.isDigit d (hds ▸ List.mem_cons_self)
  obtain ⟨negative, whole, fraction, exponent⟩ := n
  dsimp only at hds
  subst hds
  cases negative with
  | true => exact ⟨'-', _, rfl, .inl rfl⟩
  | false => exact ⟨d, _, rfl, .inr hd⟩

/-- A literal starts with a character that shows, and not with the end of a list. -/
theorem exists_eq_cons_of_spells {l : Literal} (h : l.Spells text) :
    ∃ c more, text = c :: more ∧ isSpace c = false ∧ c ≠ ']' := by
  cases l with
  | null => exact ⟨'n', _, h, rfl, by decide⟩
  | boolean b =>
    cases b with
    | true => exact ⟨'t', _, h, rfl, by decide⟩
    | false => exact ⟨'f', _, h, rfl, by decide⟩
  | number n =>
    obtain ⟨hn, rfl⟩ := h
    obtain ⟨c, more, htext, hc⟩ := exists_text_eq_cons hn
    refine ⟨c, more, htext, ?_⟩
    rcases hc with rfl | hc
    · exact ⟨rfl, by decide⟩
    · refine ⟨isSpace_of_isGraphic (Text.isGraphic_of_isDigit hc), ?_⟩
      rintro rfl
      cases hc
  | string s =>
    obtain ⟨chars, -, rfl⟩ := h
    exact ⟨'"', _, rfl, rfl, by decide⟩
  | list items =>
    obtain ⟨inside, -, rfl⟩ := h
    exact ⟨'[', _, rfl, rfl, by decide⟩
  | object entries =>
    obtain ⟨inside, -, rfl⟩ := h
    exact ⟨'\x7b', _, rfl, rfl, by decide⟩

/-- An integer has no end of its own. -/
theorem hasOwnEnd_of_isWhole {n : Numeral} (h : n.IsWhole) : hasOwnEnd n.text = false := by
  obtain ⟨c, more, htext, hc⟩ := exists_text_eq_cons h
  rw [htext, hasOwnEnd, List.head?_cons, Option.any_some]
  rcases hc with rfl | hc
  · rfl
  · rw [Bool.eq_false_iff]
    intro hend
    simp only [Bool.or_eq_true, beq_iff_eq] at hend
    rcases hend with (rfl | rfl) | rfl
    all_goals cases hc

/-- What follows an item of a list can follow its literal. -/
theorem canFollow_of_spellsItems {its : List Literal} (h : SpellsItems true its text)
    (rest : List Char) : canFollow (text ++ ']' :: rest) = true := by
  cases its with
  | nil => exact canFollow_blanks h rfl
  | cons item its =>
    obtain ⟨_, spelled, more, ⟨before, after, hbefore, -, rfl⟩, -, -, rfl⟩ := h
    simp only [List.append_assoc, List.cons_append]
    exact canFollow_blanks hbefore rfl

/-- What follows an entry of an object can follow its literal. -/
theorem canFollow_of_spellsEntries {es : List (String × Literal)} (h : SpellsEntries true es text)
    (rest : List Char) : canFollow (text ++ '\x7d' :: rest) = true := by
  cases es with
  | nil => exact canFollow_blanks h rfl
  | cons entry es =>
    obtain ⟨_, quoted, colon, spelled, more, ⟨before, after, hbefore, -, rfl⟩, -, -, -, -, rfl⟩ := h
    simp only [List.append_assoc, List.cons_append]
    exact canFollow_blanks hbefore rfl

/-- The text of items has a character for each of them. -/
theorem length_le_of_spellsItems {its : List Literal} {comma : Bool}
    (h : SpellsItems comma its text) : its.length ≤ text.length := by
  induction its generalizing comma text with
  | nil => exact Nat.zero_le _
  | cons item its ih =>
    obtain ⟨gap, spelled, more, -, hspelled, hmore, rfl⟩ := h
    obtain ⟨c, tail, rfl, -⟩ := exists_eq_cons_of_spells hspelled
    have hle := ih hmore
    simp only [List.length_append, List.length_cons]
    omega

/-- The text of entries has a character for each of them. -/
theorem length_le_of_spellsEntries {es : List (String × Literal)} {comma : Bool}
    (h : SpellsEntries comma es text) : es.length ≤ text.length := by
  induction es generalizing comma text with
  | nil => exact Nat.zero_le _
  | cons entry es ih =>
    obtain ⟨gap, quoted, colon, spelled, more, -, ⟨chars, -, rfl⟩, -, -, hmore, rfl⟩ := h
    have hle := ih hmore
    simp only [List.length_append, List.length_cons]
    omega

namespace Reader

/-! ### Lists and objects -/

variable {item : Reader Literal} {l : Literal} {gap : List Char}

/-- One more item of a list is read, behind a comma unless it is the first. -/
theorem items_next {before : List Literal} (hgap : Gap (!before.isEmpty) gap)
    (hc : isSpace c = false) (hend : c ≠ ']') (hread : item (c :: more) = .ok (l, after))
    (fuel : Nat) : items item before (fuel + 1) (gap ++ c :: more) =
      items item (l :: before) fuel after := by
  have hskip := skipSpace_cons hc more
  cases before with
  | nil =>
    rw [items, skipSpace_blanks hgap, hskip]
    split
    · next heq => cases heq
    · next heq => exact absurd (List.cons.inj heq).1 hend
    · next heq =>
      rw [← heq]
      simp only [List.isEmpty_nil, if_true, hread]
  | cons first before =>
    obtain ⟨blanks, blanks', hblanks, hblanks', rfl⟩ := hgap
    rw [items, List.append_assoc, skipSpace_blanks hblanks, List.cons_append,
      skipSpace_cons (c := ',') rfl]
    split
    · next heq => cases heq
    · next heq => exact absurd (List.cons.inj heq).1 (by decide)
    · next heq =>
      obtain ⟨rfl, rfl⟩ := List.cons.inj heq
      simp only [List.isEmpty_cons, Bool.false_eq_true, if_false, if_true,
        skipSpace_blanks hblanks', hskip]
      split
      · next heq => cases heq
      · next heq => exact absurd (List.cons.inj heq).1 hend
      · simp only [hread]

/-- One more entry of an object is read, behind a comma unless it is the first. -/
theorem entries_next {before : List (String × Literal)} {key : String} {quoted : List Char}
    (hgap : Gap (!before.isEmpty) gap) (hquoted : SpellsString key quoted)
    (hkey : before = [] → key ≠ numeralKey) (hread : afterKey item more = .ok (l, after))
    (fuel : Nat) : entries item before (fuel + 1) (gap ++ (quoted ++ more)) =
      entries item ((key, l) :: before) fuel after := by
  obtain ⟨tail, rfl, hstring⟩ := string_of_spellsString hquoted
  have hnot : (before.isEmpty && key == numeralKey) = false := by
    cases before with
    | nil => exact beq_eq_false_iff_ne.mpr (hkey rfl)
    | cons first before => rfl
  rw [List.cons_append]
  cases before with
  | nil =>
    rw [entries, skipSpace_blanks hgap, skipSpace_cons (c := '"') rfl]
    split
    · next heq => cases heq
    · next heq => exact absurd (List.cons.inj heq).1 (by decide)
    · next heq =>
      obtain ⟨rfl, rfl⟩ := List.cons.inj heq
      simp only [List.isEmpty_nil, if_true, hstring, hread]
      rw [if_neg (by simpa using hnot)]
  | cons first before =>
    obtain ⟨blanks, blanks', hblanks, hblanks', rfl⟩ := hgap
    rw [entries, List.append_assoc, skipSpace_blanks hblanks, List.cons_append,
      skipSpace_cons (c := ',') rfl]
    split
    · next heq => cases heq
    · next heq => exact absurd (List.cons.inj heq).1 (by decide)
    · next heq =>
      obtain ⟨rfl, rfl⟩ := List.cons.inj heq
      rw [if_neg (by simp), if_pos rfl, skipSpace_blanks hblanks', skipSpace_cons (c := '"') rfl]
      split
      · next heq => cases heq
      · next heq =>
        obtain ⟨-, rfl⟩ := List.cons.inj heq
        simp only [List.isEmpty_cons, Bool.false_and, Bool.false_eq_true, if_false, hstring, hread]
      · next heq => exact absurd (List.cons.inj heq).1 (by decide)
      · next hquote _ => exact absurd rfl (hquote _)

/-- Behind `numeralKey` as the first key there is a number. -/
theorem entries_of_reserved {quoted : List Char} (hgap : Gap false gap)
    (hquoted : SpellsString numeralKey quoted) (fuel : Nat) :
    entries item [] (fuel + 1) (gap ++ (quoted ++ more)) = spelledNumber more := by
  obtain ⟨tail, rfl, hstring⟩ := string_of_spellsString hquoted
  rw [List.cons_append, entries, skipSpace_blanks hgap, skipSpace_cons (c := '"') rfl]
  split
  · next heq => cases heq
  · next heq => exact absurd (List.cons.inj heq).1 (by decide)
  · next heq =>
    obtain ⟨rfl, rfl⟩ := List.cons.inj heq
    simp only [List.isEmpty_nil, if_true, hstring, Bool.true_and, beq_self_eq_true]

/-- What is read alike whatever may lie inside of it is so read in any case. -/
theorem nested_of_forall {result : Except Stop (Literal × List Char)}
    (h : ∀ inner, literal inner text = result) (levels : Nat) : nested levels text = result := by
  cases levels with
  | zero => exact h none
  | succ levels => exact h (some (nested levels))

/-- Blanks before a literal do not count. -/
theorem nested_blanks (h : Blanks blanks) (levels : Nat) (text : List Char) :
    nested levels (blanks ++ text) = nested levels text := by
  cases levels with
  | zero => rw [nested, literal, skipSpace_blanks h, literal]
  | succ levels => rw [nested, literal, skipSpace_blanks h, literal]

/-- A literal is read from behind a colon. -/
theorem afterKey_of_colon {colon : List Char} (h : Colon colon) {levels : Nat}
    (hread : nested levels text = .ok (l, rest)) :
    afterKey (nested levels) (colon ++ text) = .ok (l, rest) := by
  obtain ⟨blanks, blanks', hblanks, hblanks', rfl⟩ := h
  rw [afterKey, List.append_assoc, skipSpace_blanks hblanks, List.cons_append,
    skipSpace_cons (c := ':') rfl]
  exact (nested_blanks hblanks' levels text).trans hread

mutual

/-- The text of a literal is read as what is left of the literal, if no more lists and objects lie
inside of each other than the reader allows for. -/
theorem nested_of_spells {levels : Nat} {text rest : List Char} :
    (l : Literal) → l.Spells text → l.nesting ≤ levels → l.Unreserved →
      (hasOwnEnd text = true ∨ canFollow rest = true) →
        nested levels (text ++ rest) = .ok (l.reduced, rest)
  | .null, h, _, _, _ => by
    rw [h]
    exact nested_of_forall (fun _ ↦ rfl) levels
  | .boolean true, h, _, _, _ => by
    rw [h]
    exact nested_of_forall (fun _ ↦ rfl) levels
  | .boolean false, h, _, _, _ => by
    rw [h]
    exact nested_of_forall (fun _ ↦ rfl) levels
  | .number n, h, _, _, hrest => by
    obtain ⟨hn, rfl⟩ := h
    rw [hasOwnEnd_of_isWhole hn] at hrest
    have hfollow := hrest.resolve_left Bool.false_ne_true
    exact nested_of_forall (fun inner ↦ literal_of_isWhole inner hn hfollow) levels
  | .string s, h, _, _, _ => by
    obtain ⟨quoted, rfl, hread⟩ := string_of_spellsString h
    refine nested_of_forall (fun inner ↦ ?_) levels
    show (string [] (quoted ++ rest)).map _ = _
    rw [hread]
    rfl
  | .list its, h, hn, hu, _ => by
    obtain ⟨inside, hinside, rfl⟩ := h
    cases levels with
    | zero => exact absurd hn (Nat.not_succ_le_zero _)
    | succ levels =>
      have hfuel : its.length < (inside ++ ']' :: rest).length + 1 := by
        have hle := length_le_of_spellsItems hinside
        rw [List.length_append]
        omega
      rw [List.cons_append, List.append_assoc]
      exact items_of_spells [] its hinside (Nat.le_of_succ_le_succ hn) hu _ hfuel
  | .object es, h, hn, hu, _ => by
    obtain ⟨inside, hinside, rfl⟩ := h
    cases levels with
    | zero => exact absurd hn (Nat.not_succ_le_zero _)
    | succ levels =>
      have hfuel : es.length < (inside ++ '\x7d' :: rest).length + 1 := by
        have hle := length_le_of_spellsEntries hinside
        rw [List.length_append]
        omega
      rw [List.cons_append, List.append_assoc]
      exact entries_of_spells [] es hinside (Nat.le_of_succ_le_succ hn) hu.2 _ hfuel
        fun _ ↦ hu.1

/-- The text of items is read as what is left of them. -/
theorem items_of_spells {levels : Nat} {text rest : List Char} (before : List Literal) :
    (its : List Literal) → SpellsItems (!before.isEmpty) its text → nestingOfItems its ≤ levels →
      UnreservedItems its → (fuel : Nat) → its.length < fuel →
        items (nested levels) before fuel (text ++ ']' :: rest) =
          .ok (.list (before.reverse ++ reducedItems its), rest)
  | [], h, _, _, fuel + 1, _ => by
    rw [items, skipSpace_blanks h, reducedItems, List.append_nil]
    rfl
  | first :: its, h, hn, hu, fuel + 1, hfuel => by
    obtain ⟨gap, spelled, more, hgap, hspelled, hmore, rfl⟩ := h
    obtain ⟨hfirst, hits⟩ := Nat.max_le.mp hn
    obtain ⟨c, tail, rfl, hc, hend⟩ := exists_eq_cons_of_spells hspelled
    have hread := nested_of_spells first hspelled hfirst hu.1
      (.inr (canFollow_of_spellsItems hmore rest))
    rw [List.cons_append] at hread
    rw [List.append_assoc, List.append_assoc, List.cons_append, items_next hgap hc hend hread,
      items_of_spells (first.reduced :: before) its hmore hits hu.2 fuel
        (Nat.lt_of_succ_lt_succ hfuel), List.reverse_cons, List.append_assoc]
    rfl

/-- The text of entries is read as what is left of their literals, behind their keys. -/
theorem entries_of_spells {levels : Nat} {text rest : List Char}
    (before : List (String × Literal)) :
    (es : List (String × Literal)) → SpellsEntries (!before.isEmpty) es text →
      nestingOfEntries es ≤ levels → UnreservedEntries es → (fuel : Nat) → es.length < fuel →
      (before = [] → es.head?.map Prod.fst ≠ some numeralKey) →
        entries (nested levels) before fuel (text ++ '\x7d' :: rest) =
          .ok (.object (Entries.sort (before.reverse ++ reducedEntries es)), rest)
  | [], h, _, _, fuel + 1, _, _ => by
    rw [entries, skipSpace_blanks h, reducedEntries, List.append_nil]
    rfl
  | (key, first) :: es, h, hn, hu, fuel + 1, hfuel, hkey => by
    obtain ⟨gap, quoted, colon, spelled, more, hgap, hquoted, hcolon, hspelled, hmore, rfl⟩ := h
    obtain ⟨hfirst, hes⟩ := Nat.max_le.mp hn
    have hread := nested_of_spells first hspelled hfirst hu.1
      (.inr (canFollow_of_spellsEntries hmore rest))
    have hnot : before = [] → key ≠ numeralKey := fun hb he ↦ hkey hb (congrArg some he)
    rw [List.append_assoc, List.append_assoc, List.append_assoc, List.append_assoc,
      entries_next hgap hquoted hnot (afterKey_of_colon hcolon hread),
      entries_of_spells ((key, first.reduced) :: before) es hmore hes hu.2 fuel
        (Nat.lt_of_succ_lt_succ hfuel) nofun, List.reverse_cons, List.append_assoc]
    rfl

end

end Reader

/-! ### Rows of literals -/

/-- What a text of a row of literals is worth is what the literals that are left of it are worth. -/
theorem valuesFrom_of_spellsRow {ls : List Literal} (h : SpellsRow ls text)
    (hnesting : ∀ l ∈ ls, l.nesting ≤ maxNesting) (hfree : ∀ l ∈ ls, l.Unreserved) (size : Nat)
    (before : List Value) {fuel : Nat} (hfuel : ls.length < fuel) :
    valuesFrom size before fuel text =
      (valuesOfItems before (ls.map reduced)).mapError .outOfRange := by
  induction ls generalizing text before fuel with
  | nil =>
    obtain ⟨fuel, rfl⟩ := Nat.exists_eq_succ_of_ne_zero (Nat.ne_zero_of_lt hfuel)
    have hskip : skipSpace text = [] := by
      have hblank := skipSpace_blanks h []
      rwa [List.append_nil] at hblank
    rw [valuesFrom, hskip]
    rfl
  | cons l ls ih =>
    obtain ⟨fuel, rfl⟩ := Nat.exists_eq_succ_of_ne_zero (Nat.ne_zero_of_lt hfuel)
    obtain ⟨blanks, spelled, more, hblanks, hspelled, hfollow, hmore, rfl⟩ := h
    obtain ⟨hnest, hnests⟩ := List.forall_mem_cons.mp hnesting
    obtain ⟨hl, hls⟩ := List.forall_mem_cons.mp hfree
    obtain ⟨c, tail, rfl, hc, -⟩ := exists_eq_cons_of_spells hspelled
    have hread := Reader.nested_of_spells l hspelled hnest hl hfollow
    have hend : (hasOwnEnd (c :: tail ++ more) || canFollow more) = true := by
      rw [Bool.or_eq_true]
      exact hfollow
    rw [valuesFrom, skipSpace_blanks hblanks, List.cons_append, skipSpace_cons hc]
    rw [List.cons_append] at hread hend
    simp only [hread, hend, if_true, List.map_cons, valuesOfItems]
    cases l.reduced.toValue with
    | error e => rfl
    | ok v => exact ih hmore hnests hls (v :: before) (Nat.lt_of_succ_lt_succ hfuel)

/-- The text of a row has a character for each literal. -/
theorem length_le_of_spellsRow {ls : List Literal} (h : SpellsRow ls text) :
    ls.length ≤ text.length := by
  induction ls generalizing text with
  | nil => exact Nat.zero_le _
  | cons l ls ih =>
    obtain ⟨blanks, spelled, more, -, hspelled, -, hmore, rfl⟩ := h
    obtain ⟨c, tail, rfl, -⟩ := exists_eq_cons_of_spells hspelled
    have hle := ih hmore
    simp only [List.length_append, List.length_cons]
    omega

/-- The values in a text of a row of literals are those of what is left of the literals. -/
theorem values_of_spellsRow {ls : List Literal} (h : SpellsRow ls text)
    (hnesting : ∀ l ∈ ls, l.nesting ≤ maxNesting) (hfree : ∀ l ∈ ls, l.Unreserved) :
    values text = (valuesOfItems [] (ls.map reduced)).mapError .outOfRange :=
  valuesFrom_of_spellsRow h hnesting hfree _ [] (Nat.lt_succ_of_le (length_le_of_spellsRow h))

end ScriptedBolt.Literal
