import ScriptedBolt.Proofs.Script.Bodies

/-!
# Words behind lines

A word behind a line that is read, with a blank before it, is text that the line has to account for:
the line is refused, or it contributes something else. Three kinds of line do not look at what stands
behind them, `AUTO` with a name, `<EXIT>` and `<NOOP>`, and the minor number of a version may stand
apart from the major one. Behind every other line no word goes unread (`parse_behind`).
-/

namespace ScriptedBolt.Script

open Text (IsGap IsWord)

variable {raw body gap word : List Char}

/-! ### Lines with a word behind them -/

/-- Whether a word behind the line that contributes an item is not read, or only completes the
version that the line pins. -/
def Item.Ignores (raw word : List Char) : Item → Prop
  | .directive (.auto _) => True
  | .directive (.version _) =>
    '.' ∉ raw ∧ ∃ minor, word = '.' :: minor ∧ Text.boundedNumeral? 256 minor = some 0
  | .reply .exit | .reply .keepAlive => True
  | _ => False

variable {current after : Option Role} {item : Item}

/-- A line that contributes something has a body, and with a word behind it is a line of the same
form with the word behind its body. -/
private theorem exists_form_behind (h : readLine current raw = .ok (after, some item))
    (hgap : IsGap gap) (hword : IsWord word) :
    (form raw).body ≠ [] ∧ Text.trimStart (form raw).body ≠ [] ∧ ∃ gap', IsGap gap' ∧
      form (raw ++ (gap ++ word)) = (form raw).append (gap' ++ word) := by
  have hne : (form raw).body ≠ [] := by
    obtain ⟨hyields, -⟩ := yields_of_readLine h
    cases hyields with
    | directive hform hread =>
      rw [hform]
      rintro rfl
      cases hread
    | marked hform hne hspoken =>
      rw [hform]
      exact hne
    | unmarked hform _ _ hspoken =>
      rw [hform]
      exact ne_nil_of_unmarked hform
  refine ⟨hne, ?_, form_behind hne hgap hword⟩
  intro hnil
  have htrim := trim_body raw
  rw [Text.trim, hnil] at htrim
  exact hne htrim.symm

/-- A word behind a line does not change what becomes of the role in force. -/
theorem sets?_behind (h : readLine current raw = .ok (after, some item)) (hgap : IsGap gap)
    (hword : IsWord word) : (form (raw ++ (gap ++ word))).sets? = (form raw).sets? := by
  obtain ⟨-, -, gap', -, hform'⟩ := exists_form_behind h hgap hword
  rw [hform']
  cases form raw <;> rfl

/-- What a role does in a body it does with a word behind it only if the word is ignored. -/
private theorem readBody_behind {role : Role} (h : Spoken role body item)
    (hne : Text.trimStart body ≠ []) (hgap : IsGap gap) (hword : IsWord word) :
    readBody role (body ++ (gap ++ word)) = .ok (some role, some item) ↔
      item.Ignores raw word := by
  have hbody : ¬(body ++ (gap ++ word)).isEmpty = true := by simp [hword.1]
  unfold readBody
  rw [if_neg hbody]
  cases h with
  | expect hm =>
    dsimp only
    rw [map_eq_ok_map_iff fun _ heq ↦ by simpa using heq]
    exact iff_of_false (readClient_behind hm hne hgap hword) id
  | @reply _ a ha =>
    dsimp only
    rw [map_eq_ok_map_iff fun _ heq ↦ by simpa using heq, readServer_behind ha hne hgap hword]
    cases a <;> simp [Item.Ignores]

/-- A point in a directive stands in its body. -/
private theorem mem_point_iff (h : form raw = .directive body) : '.' ∈ raw ↔ '.' ∈ body := by
  rw [← Text.mem_trim (by decide)]
  unfold form at h
  split at h
  all_goals simp only [reduceCtorEq, Form.directive.injEq] at h
  next htrim =>
    rw [htrim, ← h, Text.mem_trim (by decide)]
    simp

/-- A line with a word behind it is read in its place as the same item only if the word is
ignored. -/
theorem readLine_behind_iff (h : readLine current raw = .ok (after, some item)) (hgap : IsGap gap)
    (hword : IsWord word) :
    readLine current (raw ++ (gap ++ word)) = .ok (after, some item) ↔ item.Ignores raw word := by
  obtain ⟨-, hstart, gap', hgap', hform'⟩ := exists_form_behind h hgap hword
  obtain ⟨hyields, hafter⟩ := yields_of_readLine h
  rw [readLine_eq, hform', hafter]
  cases hyields with
  | @directive body d hform hread =>
    rw [hform] at hstart ⊢
    show (readDirective (body ++ (gap' ++ word))).map _ = .ok (none, some (Item.directive d)) ↔ _
    rw [map_eq_ok_map_iff (f := fun d ↦ ((none : Option Role), some (Item.directive d)))
      fun _ heq ↦ by simpa using heq, readDirective_behind hread hstart hgap' hword,
      ← mem_point_iff hform]
    cases d <;> simp [Item.Ignores]
  | @marked role body item hform _ hspoken =>
    rw [hform] at hstart ⊢
    exact readBody_behind hspoken hstart hgap' hword
  | @unmarked role body item hform hindented hrole hspoken =>
    have hraw : raw ≠ [] := by
      rintro rfl
      cases hindented
    have hhead : (raw ++ (gap ++ word)).head? = raw.head? := List.head?_append_of_ne_nil _ hraw
    rw [hform] at hstart ⊢
    rw [hhead, hrole]
    dsimp only [Form.append]
    rw [if_pos hindented]
    exact readBody_behind hspoken hstart hgap' hword

/-- A line with a word behind it contributes something if it is read. -/
theorem readLine_behind_ne_none (h : readLine current raw = .ok (after, some item))
    (hgap : IsGap gap) (hword : IsWord word) (after' : Option Role) :
    readLine current (raw ++ (gap ++ word)) ≠ .ok (after', none) := by
  intro hnone
  obtain ⟨hne, -, gap', -, hform'⟩ := exists_form_behind h hgap hword
  obtain ⟨hyields, -⟩ := yields_of_readLine hnone
  cases hform : form raw with
  | silent =>
    rw [hform] at hne
    exact hne rfl
  | _ =>
    rw [hform] at hform'
    cases hyields with
    | silent hsilent =>
      rw [hform'] at hsilent
      cases hsilent
    | bare hbare =>
      rw [hform'] at hbare
      simp [Form.append, hword.1] at hbare

/-! ### Texts with another line -/

variable {text text' : String} {s : Script} {above below : List (List Char)} {other : List Char}

/-- Where lines change the role in force alike, the same roles are in force. -/
theorem inForce_congr {lines lines' : List (List Char)}
    (h : lines'.map (fun raw ↦ (form raw).sets?) = lines.map fun raw ↦ (form raw).sets?)
    (line : Nat) : inForce lines' line = inForce lines line := by
  have hafter (lines : List (List Char)) :
      roleAfter lines = ((lines.map fun raw ↦ (form raw).sets?).reverse.findSome? id).join := by
    rw [← List.map_reverse, List.findSome?_map]
    rfl
  rw [inForce, inForce, hafter, hafter, List.map_take, List.map_take, h]

/-- With another line that changes the role in force alike, every line is read in its place as it
was. -/
theorem readAt_other (hsets : (form other).sets? = (form raw).sets?) :
    readAt (above ++ other :: below) = readAt (above ++ raw :: below) := by
  funext p
  rw [readAt, readAt, inForce_congr]
  rw [List.map_append, List.map_append, List.map_cons, List.map_cons, hsets]

/-- So it contributes what it did. -/
theorem itemAt_other (hsets : (form other).sets? = (form raw).sets?) :
    itemAt (above ++ other :: below) = itemAt (above ++ raw :: below) := by
  funext p
  rw [itemAt, itemAt, readAt_other hsets]

/-- A line stands in the text between what is above it and what is below it. -/
theorem numbered_append (above below : List (List Char)) (raw : List Char) :
    numbered (above ++ raw :: below) = above.zipIdx 1 ++
      (raw, above.length + 1) :: below.zipIdx (above.length + 2) := by
  rw [numbered, List.zipIdx_append, List.zipIdx_cons, Nat.add_comm 1]

/-- The other lines keep their numbers. -/
theorem mem_numbered_other {p : List Char × Nat} (hp : p.2 ≠ above.length + 1) :
    p ∈ numbered (above ++ other :: below) ↔ p ∈ numbered (above ++ raw :: below) := by
  have hne (raw : List Char) : p ≠ (raw, above.length + 1) := fun heq ↦ hp (congrArg Prod.snd heq)
  rw [numbered_append, numbered_append, List.mem_append, List.mem_append, List.mem_cons,
    List.mem_cons, or_iff_right (hne raw), or_iff_right (hne other)]

/-- A text with another line that is read alike in its place is read as the same script. -/
theorem parse_other (h : parse text = .ok s)
    (hlines : Text.lines text.toList = above ++ raw :: below)
    (hlines' : Text.lines text'.toList = above ++ other :: below)
    (hsets : (form other).sets? = (form raw).sets?)
    (hread : readAt (above ++ raw :: below) (other, above.length + 1) =
      readAt (above ++ raw :: below) (raw, above.length + 1)) : parse text' = .ok s := by
  have hitem : itemAt (above ++ raw :: below) (other, above.length + 1) =
      itemAt (above ++ raw :: below) (raw, above.length + 1) := by
    rw [itemAt, itemAt, hread]
  obtain ⟨items, hitems, hs, hknown⟩ := parse_eq_ok_iff.mp h
  refine parse_eq_ok_iff.mpr ⟨items, ?_, hs, hknown⟩
  rw [hlines, readLines_eq_ok_iff, numbered_append, List.forall_mem_append,
    List.forall_mem_cons] at hitems
  rw [hlines', readLines_eq_ok_iff, readAt_other hsets, itemAt_other hsets, numbered_append,
    List.forall_mem_append, List.forall_mem_cons, hread]
  refine ⟨hitems.1, hitems.2.trans ?_⟩
  rw [List.filterMap_append, List.filterMap_append, List.filterMap_cons, List.filterMap_cons, hitem]

/-! ### Texts with a word behind a line -/

/-- A word can be put behind any line of a text. -/
private theorem exists_text_behind (hlines : Text.lines text.toList = above ++ raw :: below)
    (hfeed : '\n' ∉ gap) (hword : IsWord word) :
    ∃ front back, text.toList = front ++ raw ++ back ∧
      Text.lines (front ++ (raw ++ (gap ++ word)) ++ back) =
        above ++ (raw ++ (gap ++ word)) :: below := by
  obtain ⟨front, back, htext, hlonger⟩ := Text.exists_lines_behind hlines
  refine ⟨front, back, htext, hlonger (gap ++ word) ?_ ?_ ?_⟩
  · rw [List.mem_append, not_or]
    exact ⟨hfeed, fun hmem ↦ Bool.noConfusion (hword.2 _ hmem)⟩
  · exact List.append_ne_nil_of_right_ne_nil _ hword.1
  · rw [List.getLast?_append_of_ne_nil _ hword.1]
    intro hlast
    exact Bool.noConfusion (hword.2 _ (List.mem_of_getLast? hlast))

/-- A line that contributes an item is read as it. -/
private theorem exists_readAt {lines : List (List Char)} {p : List Char × Nat} {line : Nat}
    (h : itemAt lines p = some (line, item)) : ∃ after, readAt lines p = .ok (after, some item) := by
  unfold itemAt at h
  split at h
  · next after other hread =>
    obtain ⟨-, rfl⟩ := Prod.mk.inj (Option.some.inj h)
    exact ⟨after, hread⟩
  · cases h

/-- A line in its place that is read there, unless it contributes nothing, contributes an item. -/
private theorem exists_itemAt {lines : List (List Char)} {p : List Char × Nat}
    (hok : (readAt lines p).isOk = true) (hsome : ∀ after, readAt lines p ≠ .ok (after, none)) :
    ∃ after item, readAt lines p = .ok (after, some item) ∧ itemAt lines p = some (p.2, item) := by
  cases hread : readAt lines p with
  | error cause =>
    rw [hread] at hok
    cases hok
  | ok result =>
    obtain ⟨after, item⟩ := result
    cases item with
    | none => exact absurd hread (hsome after)
    | some item => exact ⟨after, item, rfl, by rw [itemAt, hread]⟩

/-- No word behind a line goes unread, but for those behind `AUTO` with a name, `<EXIT>` and `<NOOP>`.
A text with a word behind a line that contributes something, with blanks before it, is refused, or the
line contributes something else, and no other line does. Only behind those three kinds of line, and
where the word completes the version that the line pins with the minor number 0, the text is read as
the same script. -/
theorem parse_behind (h : parse text = .ok s)
    (hlines : Text.lines text.toList = above ++ raw :: below)
    (hitem : itemAt (Text.lines text.toList) (raw, above.length + 1) = some (above.length + 1, item))
    (hgap : IsGap gap) (hword : IsWord word) :
    let lines := Text.lines text.toList
    let line := above.length + 1
    let longer := raw ++ (gap ++ word)
    let lines' := above ++ longer :: below
    ('\n' ∉ gap → ∃ front back, text.toList = front ++ raw ++ back ∧
      Text.lines (front ++ longer ++ back) = lines') ∧
    ∀ text' : String, Text.lines text'.toList = lines' →
      (∀ p, p.2 ≠ line →
        (p ∈ numbered lines' ↔ p ∈ numbered lines) ∧ itemAt lines' p = itemAt lines p) ∧
      (item.Ignores raw word → parse text' = .ok s) ∧
      (¬item.Ignores raw word → (∃ e, parse text' = .error e) ∨
        ∃ item', item' ≠ item ∧ itemAt lines' (longer, line) = some (line, item')) := by
  intro lines line longer lines'
  refine ⟨fun hfeed ↦ exists_text_behind hlines hfeed hword, ?_⟩
  intro text' hlines'
  rw [hlines] at hitem
  obtain ⟨after, hread⟩ := exists_readAt hitem
  have hsets : (form longer).sets? = (form raw).sets? := sets?_behind hread hgap hword
  have hignores := readLine_behind_iff hread hgap hword
  refine ⟨?_, ?_, ?_⟩
  · intro p hp
    have hsame : lines = above ++ raw :: below := hlines
    rw [hsame]
    exact ⟨mem_numbered_other hp, congrFun (itemAt_other hsets) p⟩
  · intro hignored
    exact parse_other h hlines hlines' hsets ((hignores.mpr hignored).trans hread.symm)
  · intro hunread
    cases hparse : parse text' with
    | error e => exact .inl ⟨e, rfl⟩
    | ok s' =>
      right
      obtain ⟨items, hitems, -, -⟩ := parse_eq_ok_iff.mp hparse
      rw [hlines'] at hitems
      obtain ⟨hall, -⟩ := readLines_eq_ok_iff.mp hitems
      have hmem : (longer, line) ∈ numbered lines' := by
        rw [numbered_append]
        simp [line]
      have hok := hall (longer, line) hmem
      rw [readAt_other hsets] at hok
      obtain ⟨after', item', hlonger, hitem'⟩ :=
        exists_itemAt hok (readLine_behind_ne_none hread hgap hword)
      refine ⟨item', ?_, ?_⟩
      · rintro rfl
        -- The same item would come with the same role in force, and the word would be ignored.
        have hafter := (yields_of_readLine hlonger).2
        rw [hsets, ← (yields_of_readLine hread).2] at hafter
        exact hunread (hignores.mp (hafter ▸ hlonger))
      · rw [itemAt_other hsets, hitem']

/-- Behind a message a word makes a difference, and behind a keep-alive none. -/
theorem parse_behind_dialogue :
    ((∃ e, parse "C: RESET 1\nS: <NOOP>" = .error e) ∨ ∃ item, item ≠ .expect ⟨"RESET", []⟩ ∧
      itemAt ["C: RESET 1".toList, "S: <NOOP>".toList] ("C: RESET 1".toList, 1) =
        some (1, item)) ∧
      parse "C: RESET\nS: <NOOP> now" = .ok dialogue := by
  have hfirst : Text.lines "C: RESET\nS: <NOOP>".toList =
      [] ++ "C: RESET".toList :: ["S: <NOOP>".toList] := by rfl
  have hsecond : Text.lines "C: RESET\nS: <NOOP>".toList =
      ["C: RESET".toList] ++ "S: <NOOP>".toList :: [] := by rfl
  have hgap : IsGap [' '] := by decide
  have hone : IsWord ['1'] := by decide
  have hnow : IsWord "now".toList := by decide
  have hreset : itemAt (Text.lines "C: RESET\nS: <NOOP>".toList) ("C: RESET".toList, 1) =
      some (1, .expect ⟨"RESET", []⟩) := by rfl
  have hnoop : itemAt (Text.lines "C: RESET\nS: <NOOP>".toList) ("S: <NOOP>".toList, 2) =
      some (2, .reply .keepAlive) := by rfl
  obtain ⟨-, hmessage⟩ := parse_behind parse_dialogue hfirst hreset hgap hone
  obtain ⟨-, hkeepAlive⟩ := parse_behind parse_dialogue hsecond hnoop hgap hnow
  exact ⟨(hmessage "C: RESET 1\nS: <NOOP>" (by rfl)).2.2 id,
    (hkeepAlive "C: RESET\nS: <NOOP> now" (by rfl)).2.1 trivial⟩

/-- A word behind a name that is enough, an exit or a keep-alive is dropped. -/
theorem parse_drops_word :
    (parse "!: AUTO RESET" = .ok ⟨[], [.auto "RESET"]⟩ ∧
      parse "!: AUTO RESET now" = .ok ⟨[], [.auto "RESET"]⟩) ∧
    (parse "S: <EXIT>" = .ok ⟨[.server [⟨1, .exit⟩]], []⟩ ∧
      parse "S: <EXIT> now" = .ok ⟨[.server [⟨1, .exit⟩]], []⟩) ∧
    parse "S: <NOOP>" = .ok ⟨[.server [⟨1, .keepAlive⟩]], []⟩ ∧
      parse "S: <NOOP> now" = .ok ⟨[.server [⟨1, .keepAlive⟩]], []⟩ :=
  ⟨⟨by rfl, by rfl⟩, ⟨by rfl, by rfl⟩, by rfl, by rfl⟩

end ScriptedBolt.Script
