import ScriptedBolt.Script.Parse

/-!
# The form of lines

What a line is meant to be, its form, can be told without the lines before it. Only two forms
change the role in force: a mark puts its role in force, and a directive ends the one before. So
the role in force at a line is that of the last mark before it, unless a directive comes after that
(`inForce`). A text is then read line by line, each for itself (`readLines_eq_ok_iff`), and nothing
is left of the order in which the reader came to them but the numbers of the lines.
-/

namespace ScriptedBolt.Script

/-- What a line is meant to be. -/
inductive Form where
  /-- A blank line or a comment. -/
  | silent
  | directive (body : List Char)
  /-- A line that starts with the mark of a role. -/
  | marked (role : Role) (body : List Char)
  | unmarked (body : List Char)

/-- The form of a line. -/
def form (raw : List Char) : Form :=
  match Text.trim raw with
  | [] | '#' :: _ | '/' :: '/' :: _ => .silent
  | '!' :: ':' :: rest => .directive (Text.trim rest)
  | 'C' :: ':' :: rest => .marked .client (Text.trim rest)
  | 'S' :: ':' :: rest => .marked .server (Text.trim rest)
  | line => .unmarked line

/-- What becomes of the role in force with a line, if it changes. -/
def Form.sets? : Form → Option (Option Role)
  | directive _ => some none
  | marked role _ => some (some role)
  | silent | unmarked _ => none

/-- A line is read by its form. -/
theorem readLine_eq (current : Option Role) (raw : List Char) : readLine current raw =
    match form raw with
    | .silent => .ok (current, none)
    | .directive body => (readDirective body).map fun d ↦ (none, some (.directive d))
    | .marked role body => readBody role body
    | .unmarked body =>
      if raw.head?.any Text.isBlank then
        match current with
        | some role => readBody role body
        | none => .error .outsideBlock
      else .error (.unknownLine body) := by
  unfold readLine form
  dsimp only
  generalize Text.trim raw = line
  split
  · rfl
  · rfl
  · rfl
  · rfl
  · rfl
  · rfl
  · cases current with
    | none => simp only
    | some role => simp only

/-! ### What a line contributes -/

/-- What a role does in a line. -/
inductive Spoken : Role → List Char → Item → Prop
  | expect {body : List Char} {m : Message} (h : readClient body = .ok m) :
    Spoken .client body (.expect m)
  | reply {body : List Char} {a : Action} (h : readServer body = .ok a) :
    Spoken .server body (.reply a)

/-- What a line can contribute where a role is in force, if it is read. -/
inductive Yields (current : Option Role) (raw : List Char) : Option Item → Prop
  | silent (hform : form raw = .silent) : Yields current raw none
  | directive {body : List Char} {d : Directive} (hform : form raw = .directive body)
    (h : readDirective body = .ok d) : Yields current raw (some (.directive d))
  /-- A mark alone only puts its role in force. -/
  | bare {role : Role} (hform : form raw = .marked role []) : Yields current raw none
  | marked {role : Role} {body : List Char} {item : Item} (hform : form raw = .marked role body)
    (hne : body ≠ []) (h : Spoken role body item) : Yields current raw (some item)
  | unmarked {role : Role} {body : List Char} {item : Item} (hform : form raw = .unmarked body)
    (hindented : raw.head?.any Text.isBlank = true) (hrole : current = some role)
    (h : Spoken role body item) : Yields current raw (some item)

/-- What is read and then changed is given if it is read. -/
theorem map_eq_ok_iff {ε α β : Type} {read : Except ε α} {f : α → β} {b : β} :
    read.map f = .ok b ↔ ∃ a, read = .ok a ∧ f a = b := by
  cases read with
  | error e => simp [Except.map]
  | ok a => simp [Except.map]

/-- What is changed into what only one thing is changed into was read as that. -/
theorem map_eq_ok_map_iff {ε α β : Type} {read : Except ε α} {f : α → β} {a : α}
    (hf : ∀ ⦃b⦄, f b = f a → b = a) : read.map f = .ok (f a) ↔ read = .ok a := by
  rw [map_eq_ok_iff]
  constructor
  · rintro ⟨b, hb, heq⟩
    rw [hb, hf heq]
  · intro h
    exact ⟨a, h, rfl⟩

/-- A line without a mark is not blank. -/
theorem ne_nil_of_unmarked {raw body : List Char} (h : form raw = .unmarked body) : body ≠ [] := by
  unfold form at h
  split at h
  all_goals simp only [reduceCtorEq, Form.unmarked.injEq] at h
  next hnil _ _ _ _ _ =>
    rw [← h]
    exact hnil

/-- An unmarked line says what is left of it when it is trimmed. -/
theorem eq_trim_of_unmarked {raw body : List Char} (h : form raw = .unmarked body) :
    body = Text.trim raw := by
  unfold form at h
  split at h
  all_goals simp only [reduceCtorEq, Form.unmarked.injEq] at h
  exact h.symm

/-- A body behind the mark of a role and a blank is a line of that role. -/
theorem form_mark (role : Role) {body : List Char} (hne : body ≠ [])
    (htrim : Text.trim body = body) :
    form (role.mark.toList ++ ' ' :: body) = .marked role body := by
  have hbehind : Text.trim (' ' :: body) = body := by
    rw [Text.trim_cons (by decide), htrim]
  have hwhole : Text.trim (role.mark.toList ++ ' ' :: body) = role.mark.toList ++ ' ' :: body := by
    obtain ⟨-, front, d, hend, hd⟩ := Text.ends_of_trim (htrim.symm ▸ hne)
    have hlast : role.mark.toList ++ ' ' :: body = (role.mark.toList ++ ' ' :: front) ++ [d] := by
      rw [← htrim, hend, List.append_assoc, List.cons_append]
    cases role with
    | client => exact Text.trim_eq_self (c := 'C') rfl (by decide) hlast hd
    | server => exact Text.trim_eq_self (c := 'S') rfl (by decide) hlast hd
  rw [form, hwhole]
  cases role with
  | client =>
    show Form.marked .client (Text.trim (' ' :: body)) = _
    rw [hbehind]
  | server =>
    show Form.marked .server (Text.trim (' ' :: body)) = _
    rw [hbehind]

/-- A body that is not empty contributes what its role does in it. -/
private theorem spoken_of_readBody {role : Role} {body : List Char} {after : Option Role}
    {item : Option Item} (hne : body ≠ []) (h : readBody role body = .ok (after, item)) :
    after = some role ∧ ∃ spoken, item = some spoken ∧ Spoken role body spoken := by
  unfold readBody at h
  rw [if_neg (mt List.isEmpty_iff.mp hne)] at h
  cases role with
  | client =>
    obtain ⟨m, hread, h⟩ := map_eq_ok_iff.mp h
    obtain ⟨rfl, rfl⟩ := Prod.mk.inj h
    exact ⟨rfl, _, rfl, .expect hread⟩
  | server =>
    obtain ⟨a, hread, h⟩ := map_eq_ok_iff.mp h
    obtain ⟨rfl, rfl⟩ := Prod.mk.inj h
    exact ⟨rfl, _, rfl, .reply hread⟩

/-- A line that is read contributes what its form allows, and changes the role in force as its
form says. -/
theorem yields_of_readLine {current after : Option Role} {raw : List Char} {item : Option Item}
    (h : readLine current raw = .ok (after, item)) :
    Yields current raw item ∧ after = (form raw).sets?.getD current := by
  rw [readLine_eq] at h
  cases hform : form raw with
  | silent =>
    rw [hform] at h
    obtain ⟨rfl, rfl⟩ := Prod.mk.inj (Except.ok.inj h)
    exact ⟨.silent hform, rfl⟩
  | directive body =>
    rw [hform] at h
    obtain ⟨d, hread, h⟩ := map_eq_ok_iff.mp h
    obtain ⟨rfl, rfl⟩ := Prod.mk.inj h
    exact ⟨.directive hform hread, rfl⟩
  | marked role body =>
    rw [hform] at h
    by_cases hnil : body = []
    · subst hnil
      obtain ⟨rfl, rfl⟩ := Prod.mk.inj (Except.ok.inj h)
      exact ⟨.bare hform, rfl⟩
    · obtain ⟨rfl, spoken, rfl, hspoken⟩ := spoken_of_readBody hnil h
      exact ⟨.marked hform hnil hspoken, rfl⟩
  | unmarked body =>
    rw [hform] at h
    dsimp only at h
    split at h
    · next hindented =>
      cases current with
      | none => simp at h
      | some role =>
        obtain ⟨rfl, spoken, rfl, hspoken⟩ := spoken_of_readBody (ne_nil_of_unmarked hform) h
        exact ⟨.unmarked hform hindented rfl hspoken, rfl⟩
    · simp at h

/-! ### The role in force -/

/-- The role in force behind lines. -/
def roleAfter (lines : List (List Char)) : Option Role :=
  (lines.reverse.findSome? fun raw ↦ (form raw).sets?).join

/-- The role in force at the line with a number, which counts from 1. -/
def inForce (lines : List (List Char)) (line : Nat) : Option Role :=
  roleAfter (lines.take (line - 1))

/-- The role in force is that of the last mark, if no directive comes after it. -/
theorem roleAfter_eq_some_iff {lines : List (List Char)} {role : Role} :
    roleAfter lines = some role ↔ ∃ before mark body behind, lines = before ++ mark :: behind ∧
      form mark = .marked role body ∧ ∀ raw ∈ behind, (form raw).sets? = none := by
  have sets_iff {raw : List Char} :
      (form raw).sets? = some (some role) ↔ ∃ body, form raw = .marked role body := by
    cases form raw <;> simp [Form.sets?]
  unfold roleAfter
  rw [Option.join_eq_some_iff, List.findSome?_eq_some_iff]
  constructor
  · rintro ⟨behind, mark, before, hlines, hmark, hbehind⟩
    obtain ⟨body, hbody⟩ := sets_iff.mp hmark
    refine ⟨before.reverse, mark, body, behind.reverse, ?_, hbody, ?_⟩
    · rw [← List.reverse_reverse lines, hlines]
      simp
    · simpa using hbehind
  · rintro ⟨before, mark, body, behind, rfl, hbody, hbehind⟩
    refine ⟨behind.reverse, mark, before.reverse, ?_, sets_iff.mpr ⟨body, hbody⟩, ?_⟩
    · simp
    · simpa using hbehind

/-- The last line decides about the role in force, if it changes it. -/
theorem roleAfter_append_singleton (lines : List (List Char)) (raw : List Char) :
    roleAfter (lines ++ [raw]) = (form raw).sets?.getD (roleAfter lines) := by
  unfold roleAfter
  rw [List.reverse_append, List.reverse_singleton, List.singleton_append, List.findSome?_cons]
  cases (form raw).sets? <;> rfl

/-! ### Lines one by one -/

/-- Lines with their numbers. -/
def numbered (lines : List (List Char)) : List (List Char × Nat) := lines.zipIdx 1

/-- What becomes of reading a line at its place. -/
def readAt (lines : List (List Char)) (p : List Char × Nat) :
    Except ScriptCause (Option Role × Option Item) :=
  readLine (inForce lines p.2) p.1

/-- What a line contributes at its place. -/
def itemAt (lines : List (List Char)) (p : List Char × Nat) : Option (Nat × Item) :=
  match readAt lines p with
  | .ok (_, some item) => some (p.2, item)
  | _ => none

/-- A line that is read at its place contributes what its form allows there. -/
theorem yields_of_isOk {lines : List (List Char)} {p : List Char × Nat}
    (h : (readAt lines p).isOk = true) :
    ∃ item, itemAt lines p = item.map (p.2, ·) ∧ Yields (inForce lines p.2) p.1 item := by
  cases hread : readAt lines p with
  | error e => simp [hread, Except.isOk, Except.toBool] at h
  | ok result =>
    obtain ⟨after, item⟩ := result
    refine ⟨item, ?_, (yields_of_readLine hread).1⟩
    rw [itemAt, hread]
    cases item <;> rfl

/-- Lines behind others are read if each of them is read at its place. -/
private theorem readLines_behind (before lines : List (List Char)) (items : Items) :
    readLines (before.length + 1) (roleAfter before) lines = .ok items ↔
      (∀ p ∈ lines.zipIdx (before.length + 1), (readAt (before ++ lines) p).isOk = true) ∧
        items = (lines.zipIdx (before.length + 1)).filterMap (itemAt (before ++ lines)) := by
  -- The reader only keeps the role in force, so the lines behind it stay in the statement.
  induction lines generalizing before items with
  | nil =>
    constructor
    · intro h
      exact ⟨by simp, (Except.ok.inj h).symm⟩
    · rintro ⟨-, rfl⟩
      rfl
  | cons raw lines ih =>
    have hplace : readAt (before ++ raw :: lines) (raw, before.length + 1) =
        readLine (roleAfter before) raw := by
      rw [readAt, inForce, Nat.add_sub_cancel, List.take_left]
    have hlater := ih (before ++ [raw])
    rw [List.length_append, List.length_singleton, List.append_assoc, List.singleton_append]
      at hlater
    rw [readLines, List.zipIdx_cons, List.forall_mem_cons, List.filterMap_cons, itemAt, hplace]
    cases hread : readLine (roleAfter before) raw with
    | error cause => simp [Except.isOk, Except.toBool]
    | ok result =>
      obtain ⟨after, item⟩ := result
      rw [roleAfter_append_singleton, ← (yields_of_readLine hread).2] at hlater
      cases hrest : readLines (before.length + 1 + 1) after lines with
      | error e =>
        simp only [hrest]
        apply iff_of_false (by simp)
        rintro ⟨⟨-, hall⟩, -⟩
        have hread := (hlater _).mpr ⟨hall, rfl⟩
        simp [hrest] at hread
      | ok others =>
        obtain ⟨hall, rfl⟩ := (hlater others).mp hrest
        simp only [hrest, Except.ok.injEq]
        rw [and_iff_right ⟨rfl, hall⟩]
        cases item with
        | none => exact eq_comm
        | some item => exact eq_comm

/-- Lines are read if and only if each of them is at its place. They contribute what they do
there, in order. -/
theorem readLines_eq_ok_iff {lines : List (List Char)} {items : Items} :
    readLines 1 none lines = .ok items ↔
      (∀ p ∈ numbered lines, (readAt lines p).isOk = true) ∧
        items = (numbered lines).filterMap (itemAt lines) :=
  readLines_behind [] lines items

/-- Each item is what one of the lines contributes. -/
theorem yields_of_mem {lines : List (List Char)} {items : Items}
    (h : readLines 1 none lines = .ok items) {entry : Nat × Item} (hmem : entry ∈ items) :
    ∃ p ∈ numbered lines, Yields (inForce lines p.2) p.1 (some entry.2) := by
  obtain ⟨hall, rfl⟩ := readLines_eq_ok_iff.mp h
  obtain ⟨p, hp, hentry⟩ := List.mem_filterMap.mp hmem
  obtain ⟨item, hitem, hyields⟩ := yields_of_isOk (hall p hp)
  rw [hitem] at hentry
  obtain ⟨item, rfl, rfl⟩ := Option.map_eq_some_iff.mp hentry
  exact ⟨p, hp, hyields⟩

end ScriptedBolt.Script
