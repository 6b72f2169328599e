import ScriptedBolt.Proofs.Script.Names

/-!
# Which error is reported

A text can be refused in two ways. A line may be refused for itself while the text is read, where
only the lines before it count: the first such line is the error, and nothing behind it can change
that (`Refused`). When all lines are read, their names are looked up, and then the whole text counts,
because the version may be pinned anywhere in it. The first line whose name is not available there is
the error (`Unavailable`). There is no other error, and no two lines can both be it.
-/

namespace ScriptedBolt.Script

/-- Whether a line is the first among others that is refused for itself, and the cause. -/
structure Refused (lines : List (List Char)) (p : List Char × Nat) (cause : ScriptCause) :
    Prop where
  mem : p ∈ numbered lines
  refused : readAt lines p = .error cause
  first : ∀ q ∈ numbered lines, q.2 < p.2 → (readAt lines q).isOk = true

/-- Whether a line is the first among others whose name is not available, where no line is refused
for itself, and the cause. -/
structure Unavailable (lines : List (List Char)) (p : List Char × Nat) (cause : ScriptCause) :
    Prop where
  mem : p ∈ numbered lines
  read : ∀ q ∈ numbered lines, (readAt lines q).isOk = true
  unavailable : ∃ role name, nameAt? lines p = some (role, name) ∧
    ¬Available (pinned? lines) role name ∧ cause = .unknownName role name (pinned? lines)
  first : ∀ q ∈ numbered lines, q.2 < p.2 → ∀ role name, nameAt? lines q = some (role, name) →
    Available (pinned? lines) role name

variable {lines : List (List Char)} {p q : List Char × Nat} {cause cause' : ScriptCause}

/-! ### Numbers of lines -/

/-- A line stands where its number says. -/
theorem mem_numbered : p ∈ numbered lines ↔ 1 ≤ p.2 ∧ lines[p.2 - 1]? = some p.1 :=
  List.mem_zipIdx_iff_le_and_getElem?_sub

/-- A number belongs to one line. -/
theorem eq_of_mem_numbered (hp : p ∈ numbered lines) (hq : q ∈ numbered lines) (h : p.2 = q.2) :
    p = q := by
  have hline := (mem_numbered.mp hp).2
  rw [h, (mem_numbered.mp hq).2] at hline
  exact Prod.ext (Option.some.inj hline).symm h

/-- What stands before a line in the row of all lines has a smaller number, and nothing else has. -/
theorem mem_of_numbered_eq {before behind : List (List Char × Nat)}
    (h : numbered lines = before ++ p :: behind) :
    q ∈ before ↔ q ∈ numbered lines ∧ q.2 < p.2 := by
  have hascend := pairwise_numbered lines
  rw [h, List.pairwise_append, List.pairwise_cons] at hascend
  obtain ⟨-, ⟨hbehind, -⟩, hbefore⟩ := hascend
  rw [h]
  constructor
  · intro hq
    exact ⟨List.mem_append_left _ hq, hbefore q hq p List.mem_cons_self⟩
  · rintro ⟨hq, hlt⟩
    rcases List.mem_append.mp hq with hq | hq
    · exact hq
    · rcases List.mem_cons.mp hq with rfl | hq
      · exact absurd hlt (Nat.lt_irrefl _)
      · exact absurd hlt (Nat.lt_asymm (hbehind q hq))

/-! ### Lines that are refused -/

/-- A line that is read is not refused. -/
private theorem not_isOk_of_error (h : readAt lines p = .error cause) :
    ¬(readAt lines p).isOk = true := by
  rw [h]
  exact Bool.false_ne_true

/-- Only one line is the first that is refused. -/
theorem Refused.unique (h : Refused lines p cause) (h' : Refused lines q cause') :
    p = q ∧ cause = cause' := by
  have hline : p = q := by
    apply eq_of_mem_numbered h.mem h'.mem
    rcases Nat.lt_trichotomy p.2 q.2 with hlt | heq | hlt
    · exact absurd (h'.first p h.mem hlt) (not_isOk_of_error h.refused)
    · exact heq
    · exact absurd (h.first q h'.mem hlt) (not_isOk_of_error h'.refused)
  subst hline
  exact ⟨rfl, Except.error.inj (h.refused.symm.trans h'.refused)⟩

/-- Only one line is the first whose name is not available. -/
theorem Unavailable.unique (h : Unavailable lines p cause) (h' : Unavailable lines q cause') :
    p = q ∧ cause = cause' := by
  obtain ⟨role, name, hname, hnot, rfl⟩ := h.unavailable
  obtain ⟨role', name', hname', hnot', rfl⟩ := h'.unavailable
  have hline : p = q := by
    apply eq_of_mem_numbered h.mem h'.mem
    rcases Nat.lt_trichotomy p.2 q.2 with hlt | heq | hlt
    · exact absurd (h'.first p h.mem hlt role name hname) hnot
    · exact heq
    · exact absurd (h.first q h'.mem hlt role' name' hname') hnot'
  subst hline
  obtain ⟨rfl, rfl⟩ := Prod.mk.inj (Option.some.inj (hname.symm.trans hname'))
  exact ⟨rfl, rfl⟩

/-- A line that is refused is neither blank nor a comment. -/
theorem Refused.form_ne_silent (h : Refused lines p cause) : form p.1 ≠ .silent := by
  intro hform
  have hrefused := h.refused
  rw [readAt, readLine_eq, hform] at hrefused
  cases hrefused

/-- A line whose name is not available is neither blank nor a comment. -/
theorem Unavailable.form_ne_silent (h : Unavailable lines p cause) : form p.1 ≠ .silent := by
  intro hform
  obtain ⟨role, name, hname, -⟩ := h.unavailable
  rw [nameAt?, hform] at hname
  cases hname

/-- A line is refused whatever follows it. -/
theorem Refused.of_take_eq {lines' : List (List Char)} (h : Refused lines p cause)
    (htake : lines'.take p.2 = lines.take p.2) : Refused lines' p cause := by
  have hmem (q : List Char × Nat) (hle : q.2 ≤ p.2) :
      q ∈ numbered lines' ↔ q ∈ numbered lines := by
    rw [mem_numbered, mem_numbered]
    apply and_congr_right
    intro hpos
    have hlt : q.2 - 1 < p.2 := by omega
    rw [← List.getElem?_take_of_lt hlt, htake, List.getElem?_take_of_lt hlt]
  have hread (q : List Char × Nat) (hle : q.2 ≤ p.2) : readAt lines' q = readAt lines q := by
    have hrole : lines'.take (q.2 - 1) = lines.take (q.2 - 1) := by
      have hcut := congrArg (List.take (q.2 - 1)) htake
      rwa [List.take_take, List.take_take, Nat.min_eq_left (by omega)] at hcut
    rw [readAt, readAt, inForce, inForce, hrole]
  refine ⟨(hmem p le_rfl).mpr h.mem, (hread p le_rfl).trans h.refused, ?_⟩
  intro q hq hlt
  rw [hread q hlt.le]
  exact h.first q ((hmem q hlt.le).mp hq) hlt

/-! ### The two ways to be refused -/

/-- The error of reading lines behind others is that of the first line that is refused. -/
private theorem refused_of_readLines_behind (before lines : List (List Char)) {e : Error}
    (h : readLines (before.length + 1) (roleAfter before) lines = .error e) :
    ∃ p ∈ lines.zipIdx (before.length + 1), ∃ cause, e = .script p.2 cause ∧
      readAt (before ++ lines) p = .error cause ∧
        ∀ q ∈ lines.zipIdx (before.length + 1), q.2 < p.2 →
          (readAt (before ++ lines) q).isOk = true := by
  induction lines generalizing before with
  | nil => cases h
  | cons raw lines ih =>
    have hplace : readAt (before ++ raw :: lines) (raw, before.length + 1) =
        readLine (roleAfter before) raw := by
      rw [readAt, inForce, Nat.add_sub_cancel, List.take_left]
    rw [readLines] at h
    rw [List.zipIdx_cons]
    cases hread : readLine (roleAfter before) raw with
    | error cause =>
      rw [hread] at h
      obtain rfl := Except.error.inj h
      refine ⟨_, List.mem_cons_self, cause, rfl, hplace.trans hread, ?_⟩
      intro q hq hlt
      rcases List.mem_cons.mp hq with rfl | hq
      · exact absurd hlt (Nat.lt_irrefl _)
      · have hle := (List.mem_zipIdx_iff_le_and_getElem?_sub.mp hq).1
        omega
    | ok result =>
      obtain ⟨after, item⟩ := result
      have hlater := ih (before ++ [raw])
      rw [roleAfter_append_singleton, ← (yields_of_readLine hread).2, List.length_append,
        List.length_singleton, List.append_assoc, List.singleton_append] at hlater
      rw [hread] at h
      dsimp only at h
      cases hrest : readLines (before.length + 1 + 1) after lines with
      | ok others => simp [hrest] at h
      | error e' =>
        rw [hrest] at h
        obtain rfl := Except.error.inj h
        obtain ⟨p, hp, cause, hcause, hrefused, hfirst⟩ := hlater hrest
        refine ⟨p, List.mem_cons_of_mem _ hp, cause, hcause, hrefused, ?_⟩
        intro q hq hlt
        rcases List.mem_cons.mp hq with rfl | hq
        · rw [hplace, hread]
          rfl
        · exact hfirst q hq hlt

/-- The error for a name is that of the first line whose name is not available. -/
private theorem unavailable_of_unknownName? {e : Error}
    (hall : ∀ p ∈ numbered lines, (readAt lines p).isOk = true)
    (h : unknownName? (pinned? lines) ((numbered lines).filterMap (itemAt lines)) = some e) :
    ∃ p cause, e = .script p.2 cause ∧ Unavailable lines p cause := by
  -- The items are those of the lines, so the first one that is looked up in vain has its line.
  rw [unknownName?, ← List.head?_filterMap, List.filterMap_filterMap, List.head?_filterMap,
    List.findSome?_eq_some_iff] at h
  obtain ⟨before, p, behind, hlines, hp, hbefore⟩ := h
  have hmem : p ∈ numbered lines := by
    rw [hlines]
    exact List.mem_append_right _ List.mem_cons_self
  obtain ⟨⟨line, item⟩, hitem, hp⟩ := Option.bind_eq_some_iff.mp hp
  obtain ⟨item', hitem', -⟩ := yields_of_isOk (hall p hmem)
  obtain ⟨_, -, hline⟩ := Option.map_eq_some_iff.mp (hitem'.symm.trans hitem)
  obtain ⟨rfl, -⟩ := Prod.mk.inj hline
  have hname := nameAt?_of_isOk (hall p hmem)
  rw [hitem, Option.bind_some] at hname
  dsimp only at hname hp
  cases hitemName : item.name? with
  | none => simp [hitemName] at hp
  | some named =>
    obtain ⟨role, name⟩ := named
    simp only [hitemName] at hp
    split at hp
    · cases hp
    · next hunknown =>
      obtain rfl := Option.some.inj hp
      refine ⟨p, _, rfl, hmem, hall, ⟨role, name, hname.trans hitemName, ?_, rfl⟩, ?_⟩
      · exact mt knows_iff.mpr hunknown
      · intro q hq hlt role' name' hname'
        have hnone := hbefore q ((mem_of_numbered_eq hlines).mpr ⟨hq, hlt⟩)
        rw [nameAt?_of_isOk (hall q hq)] at hname'
        obtain ⟨entry, hentry, hname'⟩ := Option.bind_eq_some_iff.mp hname'
        rw [hentry, Option.bind_some] at hnone
        simp only [hname'] at hnone
        split at hnone
        · next hknown => exact knows_iff.mp hknown
        · cases hnone

/-- A text that is no script has a line that is refused for itself, or one whose name is not
available. -/
theorem refused_or_unavailable {text : String} {e : Error} (h : parse text = .error e) :
    let lines := Text.lines text.toList
    ∃ p cause, e = .script p.2 cause ∧ (Refused lines p cause ∨ Unavailable lines p cause) := by
  intro lines
  unfold parse at h
  cases hlines : readLines 1 none lines with
  | error e' =>
    rw [hlines] at h
    obtain rfl := Except.error.inj h
    obtain ⟨p, hp, cause, hcause, hrefused, hfirst⟩ := refused_of_readLines_behind [] lines hlines
    exact ⟨p, cause, hcause, .inl ⟨hp, hrefused, hfirst⟩⟩
  | ok items =>
    obtain ⟨hall, rfl⟩ := readLines_eq_ok_iff.mp hlines
    rw [hlines] at h
    simp only [version?_eq_pinned? hall] at h
    split at h
    · next e' hunknown =>
      obtain rfl := Except.error.inj h
      obtain ⟨p, cause, hcause, hunavailable⟩ := unavailable_of_unknownName? hall hunknown
      exact ⟨p, cause, hcause, .inr hunavailable⟩
    · cases h

/-- A text with a line of either kind is no script, and the line is the error. -/
theorem parse_of_refused_or_unavailable {text : String}
    (h : Refused (Text.lines text.toList) p cause ∨ Unavailable (Text.lines text.toList) p cause) :
    parse text = .error (.script p.2 cause) := by
  cases hparse : parse text with
  | ok s =>
    obtain ⟨hall, havailable⟩ := exists_parse_iff.mp ⟨s, hparse⟩
    rcases h with h | h
    · exact absurd (hall p h.mem) (not_isOk_of_error h.refused)
    · obtain ⟨role, name, hname, hnot, -⟩ := h.unavailable
      exact absurd (havailable p h.mem role name hname) hnot
  | error e =>
    obtain ⟨q, cause', rfl, h'⟩ := refused_or_unavailable hparse
    rcases h with h | h
    · rcases h' with h' | h'
      · obtain ⟨rfl, rfl⟩ := h.unique h'
        rfl
      · exact absurd (h'.read p h.mem) (not_isOk_of_error h.refused)
    · rcases h' with h' | h'
      · exact absurd (h.read q h'.mem) (not_isOk_of_error h'.refused)
      · obtain ⟨rfl, rfl⟩ := h.unique h'
        rfl

/-- There is a first line that is refused if any line is. -/
theorem exists_refused_iff {text : String} :
    let lines := Text.lines text.toList
    (∃ p cause, Refused lines p cause) ↔ ∃ p ∈ numbered lines, (readAt lines p).isOk = false := by
  intro lines
  constructor
  · rintro ⟨p, cause, h⟩
    exact ⟨p, h.mem, Bool.eq_false_iff.mpr (not_isOk_of_error h.refused)⟩
  · rintro ⟨p, hp, hnot⟩
    cases hparse : parse text with
    | ok s =>
      have hread := (exists_parse_iff.mp ⟨s, hparse⟩).1 p hp
      exact Bool.noConfusion (hread.symm.trans hnot)
    | error e =>
      obtain ⟨q, cause, -, h | h⟩ := refused_or_unavailable hparse
      · exact ⟨q, cause, h⟩
      · exact Bool.noConfusion ((h.read p hp).symm.trans hnot)

/-- A text is refused with the error of one of its lines that are neither blank nor comments. If any
line is refused for itself, that is the first such line, whatever follows it, and if none is, it is
the first line whose name is not available. -/
theorem parse_error_iff (text : String) :
    let lines := Text.lines text.toList
    (∀ e, parse text = .error e ↔
      ∃ p cause, e = .script p.2 cause ∧ (Refused lines p cause ∨ Unavailable lines p cause)) ∧
    ((∃ p cause, Refused lines p cause) ↔ ∃ p ∈ numbered lines, (readAt lines p).isOk = false) ∧
    ∀ p cause, Refused lines p cause ∨ Unavailable lines p cause → p ∈ numbered lines ∧
      form p.1 ≠ .silent ∧
      (Refused lines p cause → ∀ text' : String,
        (Text.lines text'.toList).take p.2 = lines.take p.2 →
          parse text' = .error (.script p.2 cause)) := by
  intro lines
  refine ⟨fun e ↦ ⟨refused_or_unavailable, ?_⟩, exists_refused_iff, fun p cause h ↦ ⟨?_, ?_, ?_⟩⟩
  · rintro ⟨p, cause, rfl, h⟩
    exact parse_of_refused_or_unavailable h
  · exact h.elim Refused.mem Unavailable.mem
  · exact h.elim Refused.form_ne_silent Unavailable.form_ne_silent
  · intro hrefused text' htake
    exact parse_of_refused_or_unavailable (.inl (hrefused.of_take_eq htake))

/-- A text whose third line is refused, behind a line with a name that no version has. -/
def lostText : String := "C: LOST\n\nS: <WAIT>\nC: RESET"

/-- Its third line is the error, also where another line follows. -/
theorem parse_error_iff_lost :
    Refused (Text.lines lostText.toList) ("S: <WAIT>".toList, 3)
        (.unknownCommand "<WAIT>".toList) ∧
      parse lostText = .error (.script 3 (.unknownCommand "<WAIT>".toList)) ∧
      parse "C: LOST\n\nS: <WAIT>\n!: BOLT 9" =
        .error (.script 3 (.unknownCommand "<WAIT>".toList)) := by
  have hlines : Text.lines lostText.toList =
      ["C: LOST".toList, [], "S: <WAIT>".toList, "C: RESET".toList] := by rfl
  have hlines' : Text.lines "C: LOST\n\nS: <WAIT>\n!: BOLT 9".toList =
      ["C: LOST".toList, [], "S: <WAIT>".toList, "!: BOLT 9".toList] := by rfl
  have hrefused : Refused (Text.lines lostText.toList) ("S: <WAIT>".toList, 3)
      (.unknownCommand "<WAIT>".toList) := by
    rw [hlines]
    exact ⟨by decide, by rfl, by decide⟩
  obtain ⟨herror, -, hcause⟩ := parse_error_iff lostText
  obtain ⟨-, -, hbefore⟩ := hcause _ _ (.inl hrefused)
  refine ⟨hrefused, (herror _).mpr ⟨_, _, rfl, .inl hrefused⟩, ?_⟩
  apply hbefore hrefused
  rw [hlines, hlines']
  rfl

end ScriptedBolt.Script
