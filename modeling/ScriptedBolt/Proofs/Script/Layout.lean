import Mathlib.Data.List.Forall2
import ScriptedBolt.Proofs.Script.Cues
import ScriptedBolt.Proofs.Script.Form

/-!
# The layout of a script

A text can be laid out anew: blank lines and comments are deleted, a continuation line gets the
mark of its role, and a line ends in a line feed with or without a carriage return. Where that is
done is for a `Layout` to choose. Whatever it chooses, the text is then read as the same script, or
refused for the same cause, and only the numbers of lines are others (`parse_relay`).
-/

namespace ScriptedBolt

/-! ### Other numbers -/

/-- An error about another line. -/
def Error.renumber (number : Nat → Nat) : Error → Error
  | script line cause => script (number line) cause
  | e => e

/-- A block with other numbers for its lines. -/
def Block.renumber (number : Nat → Nat) : Block → Block
  | client lines => client (lines.map fun e ↦ { e with line := number e.line })
  | server lines => server (lines.map fun r ↦ { r with line := number r.line })

namespace Script

/-- A script with other numbers for its lines. -/
def renumber (number : Nat → Nat) (s : Script) : Script :=
  { s with blocks := s.blocks.map (Block.renumber number) }

/-- Items with other numbers for their lines. -/
def Items.renumber (number : Nat → Nat) (items : Items) : Items :=
  items.map fun entry ↦ (number entry.1, entry.2)

section Renumber

variable (number : Nat → Nat)

/-- A line joins the block that it would join with another number. -/
theorem addToBlocks_renumber (entry : Nat × Item) (blocks : List Block) :
    addToBlocks (number entry.1, entry.2) (blocks.map (Block.renumber number)) =
      (addToBlocks entry blocks).map (Block.renumber number) := by
  obtain ⟨line, item⟩ := entry
  cases item with
  | directive d => rfl
  | expect m =>
    cases blocks with
    | nil => rfl
    | cons block blocks => cases block <;> rfl
  | reply a =>
    cases blocks with
    | nil => rfl
    | cons block blocks => cases block <;> rfl

/-- The numbers of items only become the numbers of lines. -/
theorem ofItems_renumber (items : Items) :
    ofItems (items.renumber number) = (ofItems items).renumber number := by
  have hblocks : (items.renumber number).foldr addToBlocks [] =
      (items.foldr addToBlocks []).map (Block.renumber number) := by
    induction items with
    | nil => rfl
    | cons entry items ih =>
      rw [Items.renumber, List.map_cons, List.foldr_cons, List.foldr_cons,
        ← addToBlocks_renumber, ← ih]
      rfl
  rw [ofItems, hblocks, Items.renumber, List.filterMap_map]
  apply congrArg (Script.mk _)
  apply congrArg (List.filterMap · items)
  funext ⟨line, item⟩
  cases item <;> rfl

/-- The version that a script asks for is not a matter of numbers. -/
theorem version?_renumber (s : Script) : (s.renumber number).version? = s.version? := rfl

/-- Which name is not known is not a matter of numbers. -/
theorem unknownName?_renumber (version : Option Version) (items : Items) :
    unknownName? version (items.renumber number) =
      (unknownName? version items).map (Error.renumber number) := by
  rw [unknownName?, unknownName?, Items.renumber, List.findSome?_map, List.map_findSome?]
  congr 1
  funext ⟨line, item⟩
  cases hname : item.name? with
  | none => simp [hname]
  | some spoken =>
    obtain ⟨role, name⟩ := spoken
    by_cases hknows : knows version role name = true
    · simp [hname, hknows]
    · simp [hname, hknows, Error.renumber]

/-- Texts whose lines are read alike, up to numbers, are read alike up to numbers. -/
theorem parse_renumber {text text' : String}
    (h : readLines 1 none (Text.lines text'.toList) =
      ((readLines 1 none (Text.lines text.toList)).map (Items.renumber number)).mapError
        (Error.renumber number)) :
    parse text' = ((parse text).map (renumber number)).mapError (Error.renumber number) := by
  unfold parse
  rw [h]
  cases readLines 1 none (Text.lines text.toList) with
  | error e => rfl
  | ok items =>
    simp only [Except.map, Except.mapError]
    rw [ofItems_renumber, version?_renumber, unknownName?_renumber]
    cases unknownName? (ofItems items).version? items with
    | none => rfl
    | some e => rfl

variable {number}

/-- Lines are read alike up to numbers if the first ones are read alike and so are the others, where
the role that is then in force is. -/
theorem readLines_cons_renumber {start line : Nat} {current : Option Role} {raw' raw : List Char}
    {news lines : List (List Char)} (hnumber : start = number line)
    (hread : readLine current raw' = readLine current raw)
    (hlater : ∀ after item, readLine current raw = .ok (after, item) →
      readLines (start + 1) after news =
        ((readLines (line + 1) after lines).map (Items.renumber number)).mapError
          (Error.renumber number)) :
    readLines start current (raw' :: news) =
      ((readLines line current (raw :: lines)).map (Items.renumber number)).mapError
        (Error.renumber number) := by
  rw [readLines, readLines, hread]
  cases hraw : readLine current raw with
  | error cause =>
    rw [hnumber]
    rfl
  | ok result =>
    obtain ⟨after, item⟩ := result
    dsimp only
    rw [hlater after item hraw]
    cases readLines (line + 1) after lines with
    | error e => rfl
    | ok items =>
      cases item with
      | none => rfl
      | some item =>
        rw [hnumber]
        rfl

end Renumber

/-! ### Lines that are read alike -/

/-- Whether a line is what was written, up to a carriage return at its end. -/
def IsWritten (written line : List Char) : Prop := written = line ∨ written = line ++ ['\r']

/-- A carriage return at the end of a line does not change how it is read. -/
theorem readLine_of_isWritten {written line : List Char} (h : IsWritten written line)
    (current : Option Role) : readLine current line = readLine current written := by
  rcases h with rfl | rfl
  · rfl
  · have hform : form (line ++ ['\r']) = form line := by
      rw [form, form, Text.trim_append (by decide)]
    rw [readLine_eq, readLine_eq, hform]
    cases hline : form line with
    | unmarked body =>
      -- Without the carriage return the line is not empty, so it starts with the same character.
      have hne : line ≠ [] := by
        rintro rfl
        cases hline
      obtain ⟨c, more, rfl⟩ := List.exists_cons_of_ne_nil hne
      rfl
    | _ => rfl

/-- A continuation line is read as if the mark of the role in force stood before it. -/
theorem readLine_mark_trim {role : Role} {raw body : List Char} (h : form raw = .unmarked body)
    (hindented : raw.head?.any Text.isBlank = true) (current : Option Role) :
    readLine current (role.mark.toList ++ ' ' :: Text.trim raw) = readLine (some role) raw := by
  obtain rfl := eq_trim_of_unmarked h
  rw [readLine_eq, readLine_eq, form_mark role (ne_nil_of_unmarked h) (Text.trim_trim raw),
    h]
  dsimp only
  rw [if_pos hindented]

/-- A line is cut off at its end, whether or not a carriage return comes before the line feed. -/
theorem lines_ending {written : List Char} (h : '\n' ∉ written) (returns : Bool)
    (rest : List Char) : ∃ line, IsWritten written line ∧
      Text.lines (written ++ (if returns then ['\r', '\n'] else ['\n']) ++ rest) =
        line :: Text.lines rest := by
  rw [List.append_assoc]
  cases returns with
  | true => exact ⟨written, .inl rfl, Text.lines_append_return h rest⟩
  | false =>
    by_cases hr : written.getLast? = some '\r'
    · -- What was written before the line feed now belongs to the end of the line.
      obtain ⟨line, rfl⟩ := List.getLast?_eq_some_iff.mp hr
      refine ⟨line, .inr rfl, ?_⟩
      rw [List.append_assoc]
      exact Text.lines_append_return (fun hmem ↦ h (List.mem_append_left _ hmem)) rest
    · exact ⟨written, .inl rfl, Text.lines_append_feed h hr rest⟩

/-! ### Layouts -/

/-- How a text is laid out anew. Each choice hangs on the number of a line in the text. -/
structure Layout where
  /-- Whether a blank line or a comment stays. -/
  stays : Nat → Bool
  /-- Whether a continuation line gets the mark of the role in force. -/
  marks : Nat → Bool
  /-- Whether a carriage return comes before the line feed at the end of a line. -/
  returns : Nat → Bool

namespace Layout

variable (l : Layout)

/-- Whether a line stays: it is neither blank nor a comment, or it is not deleted. -/
def keeps (p : List Char × Nat) : Bool :=
  match form p.1 with
  | .silent => l.stays p.2
  | _ => true

/-- What is written for a line that stays: what it was, or the mark of the role in force, a blank
and the trimmed line. -/
def written (lines : List (List Char)) (p : List Char × Nat) : List Char :=
  match form p.1, inForce lines p.2 with
  | .unmarked _, some role =>
    if p.1.head?.any Text.isBlank && l.marks p.2 then role.mark.toList ++ ' ' :: Text.trim p.1
    else p.1
  | _, _ => p.1

/-- What ends the line with a number. The last line has no end if it had none. -/
def ending (text : List Char) (line : Nat) : List Char :=
  if line = (Text.lines text).length ∧ text.getLast? ≠ some '\n' then []
  else if l.returns line then ['\r', '\n'] else ['\n']

/-- The text that is laid out anew. -/
def relay (text : List Char) : List Char :=
  ((numbered (Text.lines text)).filter l.keeps).flatMap fun p ↦
    l.written (Text.lines text) p ++ l.ending text p.2

/-- The number that a line gets: that of the lines up to it that stay. -/
def number (lines : List (List Char)) (line : Nat) : Nat :=
  (numbered (lines.take line)).countP l.keeps

/-- Whether the second line stands where the first one is written. -/
def Places (lines : List (List Char)) (p q : List Char × Nat) : Prop :=
  q.2 = l.number lines p.2 ∧ IsWritten (l.written lines p) q.1

variable {l}

/-- Only blank lines and comments are deleted. -/
theorem form_of_not_keeps {p : List Char × Nat} (h : ¬l.keeps p = true) : form p.1 = .silent := by
  unfold keeps at h
  split at h
  · assumption
  · exact absurd rfl h

/-- What is written for a line is read in its place as the line is. -/
theorem readLine_written (lines : List (List Char)) (p : List Char × Nat) :
    readLine (inForce lines p.2) (l.written lines p) = readLine (inForce lines p.2) p.1 := by
  unfold written
  split
  · next body role hform hrole =>
    split
    · next hmarked =>
      rw [Bool.and_eq_true] at hmarked
      rw [readLine_mark_trim hform hmarked.1, hrole]
    · rfl
  · rfl

/-- There are no line feeds in what is written for a line. -/
theorem not_mem_written {lines : List (List Char)} {p : List Char × Nat} (h : '\n' ∉ p.1) :
    '\n' ∉ l.written lines p := by
  unfold written
  split
  · next role _ _ =>
    split
    · rw [List.mem_append, List.mem_cons]
      rintro (hmem | heq | hmem)
      · cases role <;> revert hmem <;> decide
      · exact absurd heq (by decide)
      · exact h ((Text.trim_sublist p.1).subset hmem)
    · exact h
  · exact h

/-- What is written for a line is not empty if the line is not. -/
theorem written_ne_nil {lines : List (List Char)} {p : List Char × Nat} (h : p.1 ≠ []) :
    l.written lines p ≠ [] := by
  unfold written
  split
  · split
    · simp
    · exact h
  · exact h

/-! ### Where lines stand -/

/-- The lines before a line are counted apart from it. -/
theorem number_length (before lines : List (List Char)) :
    l.number (before ++ lines) before.length = (numbered before).countP l.keeps := by
  rw [number, List.take_left]

/-- A line is counted if it stays. -/
theorem countP_concat (before : List (List Char)) (raw : List Char) :
    (numbered (before ++ [raw])).countP l.keeps =
      (numbered before).countP l.keeps + if l.keeps (raw, before.length + 1) then 1 else 0 := by
  rw [numbered, numbered, List.zipIdx_append, List.countP_append, List.zipIdx_singleton,
    List.countP_singleton, Nat.add_comm 1]

/-- The number of a line is that of the lines before it that stay, and one more if it stays. -/
theorem number_succ (before : List (List Char)) (raw : List Char) (lines : List (List Char)) :
    l.number (before ++ raw :: lines) (before.length + 1) =
      (numbered before).countP l.keeps + if l.keeps (raw, before.length + 1) then 1 else 0 := by
  have hlines : before ++ raw :: lines = (before ++ [raw]) ++ lines := by simp
  rw [hlines, ← countP_concat, ← number_length (before ++ [raw]) lines, List.length_append]
  rfl

/-- What is written for a line is cut off at its end from what comes behind it. -/
theorem exists_lines_eq_cons {text : List Char} {before lines : List (List Char)}
    {raw : List Char} (h : Text.lines text = before ++ raw :: lines) (more : List Char)
    (hmore : lines = [] → more = []) :
    ∃ line, IsWritten (l.written (Text.lines text) (raw, before.length + 1)) line ∧
      Text.lines (l.written (Text.lines text) (raw, before.length + 1) ++
        l.ending text (before.length + 1) ++ more) = line :: Text.lines more := by
  have hraw : raw ∈ Text.lines text := by
    rw [h]
    exact List.mem_append_right _ List.mem_cons_self
  have hwhole : '\n' ∉ l.written (Text.lines text) (raw, before.length + 1) :=
    not_mem_written (Text.not_mem_of_mem_lines hraw)
  by_cases hopen : before.length + 1 = (Text.lines text).length ∧ text.getLast? ≠ some '\n'
  · -- Nothing comes behind a line without an end, and it is not empty.
    have hlast : lines = [] := by
      have hlength := hopen.1
      rw [h, List.length_append, List.length_cons] at hlength
      apply List.eq_nil_of_length_eq_zero
      omega
    have hne : raw ≠ [] := by
      rintro rfl
      apply hopen.2
      apply Text.getLast?_of_lines
      rw [h, hlast, List.getLast?_append]
      rfl
    refine ⟨_, .inl rfl, ?_⟩
    rw [ending, if_pos hopen, hmore hlast, List.append_nil, List.append_nil,
      Text.lines_of_not_mem (written_ne_nil hne) hwhole]
    rfl
  · rw [ending, if_neg hopen]
    exact lines_ending hwhole (l.returns (before.length + 1)) more

/-- Lines behind others are found where they were written. -/
private theorem places_behind {text : List Char} (before lines : List (List Char))
    (h : Text.lines text = before ++ lines) :
    List.Forall₂ (l.Places (Text.lines text))
      ((lines.zipIdx (before.length + 1)).filter l.keeps)
      ((Text.lines (((lines.zipIdx (before.length + 1)).filter l.keeps).flatMap fun p ↦
        l.written (Text.lines text) p ++ l.ending text p.2)).zipIdx
          ((numbered before).countP l.keeps + 1)) := by
  induction lines generalizing before with
  | nil => exact .nil
  | cons raw lines ih =>
    have hlater := ih (before ++ [raw]) (by rw [h, List.append_assoc]; rfl)
    have hnumber := number_succ (l := l) before raw lines
    rw [countP_concat, List.length_append, List.length_singleton] at hlater
    rw [← h] at hnumber
    rw [List.zipIdx_cons, List.filter_cons]
    by_cases hkeeps : l.keeps (raw, before.length + 1) = true
    · rw [if_pos hkeeps] at hlater hnumber ⊢
      rw [List.flatMap_cons]
      obtain ⟨line, hline, hlines⟩ := exists_lines_eq_cons (l := l) h
        (((lines.zipIdx (before.length + 1 + 1)).filter l.keeps).flatMap fun p ↦
          l.written (Text.lines text) p ++ l.ending text p.2) (by rintro rfl; rfl)
      rw [hlines]
      exact .cons ⟨hnumber.symm, hline⟩ hlater
    · rw [if_neg hkeeps] at hlater ⊢
      exact hlater

/-- The lines that stay are the lines of the text that is laid out anew, in order. -/
theorem places (text : List Char) :
    List.Forall₂ (l.Places (Text.lines text)) ((numbered (Text.lines text)).filter l.keeps)
      (numbered (Text.lines (l.relay text))) :=
  places_behind [] (Text.lines text) rfl

/-- Lines behind others are read as they are where they stand after a text is laid out anew. -/
private theorem readLines_places (before lines news : List (List Char)) (start : Nat)
    (h : List.Forall₂ (l.Places (before ++ lines))
      ((lines.zipIdx (before.length + 1)).filter l.keeps) (news.zipIdx start)) :
    readLines start (roleAfter before) news =
      ((readLines (before.length + 1) (roleAfter before) lines).map
        (Items.renumber (l.number (before ++ lines)))).mapError
          (Error.renumber (l.number (before ++ lines))) := by
  induction lines generalizing before news start with
  | nil =>
    cases news with
    | nil => rfl
    | cons line news => cases h
  | cons raw lines ih =>
    have hlater := ih (before ++ [raw])
    rw [roleAfter_append_singleton, List.length_append, List.length_singleton, List.append_assoc,
      List.singleton_append] at hlater
    rw [List.zipIdx_cons, List.filter_cons] at h
    have hrole : inForce (before ++ raw :: lines) (before.length + 1) = roleAfter before := by
      rw [inForce, Nat.add_sub_cancel, List.take_left]
    by_cases hkeeps : l.keeps (raw, before.length + 1) = true
    · rw [if_pos hkeeps] at h
      cases news with
      | nil => cases h
      | cons line news =>
        rw [List.zipIdx_cons, List.forall₂_cons] at h
        obtain ⟨⟨hnumber, hwritten⟩, hnews⟩ := h
        have hread : readLine (roleAfter before) line = readLine (roleAfter before) raw := by
          rw [readLine_of_isWritten hwritten, ← hrole]
          exact readLine_written _ (raw, before.length + 1)
        apply readLines_cons_renumber hnumber hread
        intro after item hraw
        obtain rfl := (yields_of_readLine hraw).2
        exact hlater news (start + 1) hnews
    · -- A line that is deleted says nothing and leaves the role in force as it is.
      rw [if_neg hkeeps] at h
      have hform : form raw = .silent := form_of_not_keeps hkeeps
      have hsilent : readLine (roleAfter before) raw = .ok (roleAfter before, none) := by
        rw [readLine_eq, hform]
      have hnews := hlater news start h
      rw [hform, Form.sets?, Option.getD_none] at hnews
      rw [hnews, readLines, hsilent]
      dsimp only
      cases readLines (before.length + 1 + 1) (roleAfter before) lines <;> rfl

end Layout

/-- A text that is laid out anew is read as the same script, or refused for the same cause. Only
the numbers of lines are others: each is the number of the line that stands for it. -/
theorem parse_relay (l : Layout) (text : String) :
    let lines := Text.lines text.toList
    let relaid := String.ofList (l.relay text.toList)
    parse relaid = ((parse text).map (renumber (l.number lines))).mapError
      (Error.renumber (l.number lines)) ∧
    List.Forall₂ (l.Places lines) ((numbered lines).filter l.keeps)
      (numbered (Text.lines relaid.toList)) := by
  intro lines relaid
  have hrelaid : relaid.toList = l.relay text.toList := String.toList_ofList
  have hplaces := l.places text.toList
  rw [← hrelaid] at hplaces
  refine ⟨?_, hplaces⟩
  apply parse_renumber
  exact Layout.readLines_places [] lines _ 1 hplaces

/-- The text without anything that is not read, each line with its mark. -/
example : Layout.relay ⟨fun _ ↦ false, fun _ ↦ true, fun line ↦ line == 1⟩
    "C: RESET\n \r\n# note\r\n\tRUN\r\nS: <NOOP>".toList =
      "C: RESET\r\nC: RUN\nS: <NOOP>".toList := by
  decide +kernel

end Script

end ScriptedBolt
