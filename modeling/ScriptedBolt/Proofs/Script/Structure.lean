import Mathlib.Data.List.Chain
import Mathlib.Data.List.Forall2
import ScriptedBolt.Proofs.Script.Form
import ScriptedBolt.Proofs.Script.Messages

/-!
# The structure of a script

Nothing of a text is lost, doubled or moved when it is read as a script. Its lines with content
are the entries of the blocks, one by one and in order, each with its number and its role, and its
directives are those of the script. Blocks are as large as can be: none is empty, and two that
follow each other are of different roles.
-/

namespace ScriptedBolt

namespace Cue

/-- The number of its line. -/
def line : Cue → Nat
  | hear expected => expected.line
  | perform reply => reply.line

/-- The role whose line it is. -/
def role : Cue → Role
  | hear _ => .client
  | perform _ => .server

/-- Whether it is what a role does in a body. -/
def Reads (body : List Char) : Cue → Prop
  | hear expected => Script.readClient body = .ok expected.message
  | perform reply => Script.readServer body = .ok reply.action

end Cue

namespace Script

/-- The content of a line of some form; a mark alone has none. -/
def Form.content? : Form → Option (List Char)
  | marked _ body => if body.isEmpty then none else some body
  | unmarked body => some body
  | silent | directive _ => none

/-- The body of a directive. -/
def Form.directive? : Form → Option (List Char)
  | directive body => some body
  | silent | marked _ _ | unmarked _ => none

/-- The lines with content, with their numbers. -/
def contents (lines : List (List Char)) : List (List Char × Nat) :=
  (numbered lines).filter fun p ↦ (form p.1).content?.isSome

/-- The directives among lines, with their numbers. -/
def directiveLines (lines : List (List Char)) : List (List Char × Nat) :=
  (numbered lines).filter fun p ↦ (form p.1).directive?.isSome

/-- Whose line it is among others: that of its own mark or, if it is indented and has none, that
of the last mark before it with no directive in between. -/
inductive Speaks (lines : List (List Char)) (p : List Char × Nat) (role : Role) : Prop
  | own {body : List Char} (h : form p.1 = .marked role body)
  | continued {body other mark : List Char} {before between : List (List Char)}
    (h : form p.1 = .unmarked body) (hindented : p.1.head?.any Text.isBlank = true)
    (hbefore : lines.take (p.2 - 1) = before ++ mark :: between)
    (hmark : form mark = .marked role other)
    (hbetween : ∀ raw ∈ between, (form raw).sets? = none)

/-- Whether a cue is the entry for a line among others. -/
structure Entered (lines : List (List Char)) (p : List Char × Nat) (cue : Cue) : Prop where
  line : cue.line = p.2
  role : Speaks lines p cue.role
  reads : ∃ body, (form p.1).content? = some body ∧ cue.Reads body

/-- Whether a directive is what a line says. -/
def Directs (p : List Char × Nat) (d : Directive) : Prop :=
  ∃ body, (form p.1).directive? = some body ∧ readDirective body = .ok d

variable {lines : List (List Char)} {p : List Char × Nat}

/-! ### Blocks -/

/-- Whether blocks that follow each other are of different roles. -/
def Alternating (blocks : List Block) : Prop := blocks.IsChain fun a b ↦ a.role ≠ b.role

private theorem alternating_cons {a b : Block} {blocks : List Block}
    (h : Alternating (a :: blocks)) (hrole : a.role = b.role) : Alternating (b :: blocks) := by
  apply List.IsChain.cons_of_imp _ h
  intro c hne
  rwa [← hrole]

private theorem alternating_addToBlocks (item : Nat × Item) {blocks : List Block}
    (h : Alternating blocks) : Alternating (addToBlocks item blocks) := by
  obtain ⟨line, item⟩ := item
  cases item with
  | directive d => exact h
  | expect m =>
    cases blocks with
    | nil => exact .singleton _
    | cons block blocks =>
      cases block with
      | client lines => exact alternating_cons h rfl
      | server lines => exact .cons_cons (by simp [Block.role]) h
  | reply a =>
    cases blocks with
    | nil => exact .singleton _
    | cons block blocks =>
      cases block with
      | client lines => exact .cons_cons (by simp [Block.role]) h
      | server lines => exact alternating_cons h rfl

/-- The blocks of items alternate. -/
theorem alternating_ofItems (items : Items) : Alternating (ofItems items).blocks := by
  show Alternating (items.foldr addToBlocks [])
  induction items with
  | nil => exact .nil
  | cons item items ih => exact alternating_addToBlocks item ih

/-! ### Entries and directives -/

/-- The directive that an item is, if it is one. -/
def directive? : Nat × Item → Option Directive
  | (_, .directive d) => some d
  | _ => none

/-- The directives of a script are those among its items, in order. -/
theorem directives_ofItems (items : Items) : (ofItems items).directives =
    items.filterMap directive? := by
  show items.filterMap _ = items.filterMap _
  congr 1

/-- What is kept of a list corresponds to what it is mapped to if that holds of each member. -/
private theorem forall₂_filter_filterMap {α β : Type} {R : α → β → Prop} {keep : α → Bool}
    {f : α → Option β} {l : List α}
    (h : ∀ a ∈ l, (keep a = true ∧ ∃ b, f a = some b ∧ R a b) ∨ (keep a = false ∧ f a = none)) :
    List.Forall₂ R (l.filter keep) (l.filterMap f) := by
  induction l with
  | nil => exact .nil
  | cons a l ih =>
    obtain ⟨ha, hl⟩ := List.forall_mem_cons.mp h
    rcases ha with ⟨hkeep, b, hb, hab⟩ | ⟨hkeep, hb⟩
    · rw [List.filter_cons_of_pos hkeep, List.filterMap_cons_some hb]
      exact .cons hab (ih hl)
    · rw [List.filter_cons_of_neg (by simp [hkeep]), List.filterMap_cons_none hb]
      exact ih hl

/-- What a role does in a line becomes an entry for it. -/
private theorem entered_of_spoken {role : Role} {body : List Char} {item : Item}
    (hspeaks : Speaks lines p role) (hcontent : (form p.1).content? = some body)
    (h : Spoken role body item) : ∃ cue, cue? (p.2, item) = some cue ∧ Entered lines p cue := by
  cases h with
  | expect h => exact ⟨_, rfl, rfl, hspeaks, body, hcontent, h⟩
  | reply h => exact ⟨_, rfl, rfl, hspeaks, body, hcontent, h⟩

/-- A line that is read has a cue that is its entry if it has content, and else none. -/
private theorem entered_of_isOk (h : (readAt lines p).isOk = true) :
    ((form p.1).content?.isSome = true ∧
        ∃ cue, (itemAt lines p).bind cue? = some cue ∧ Entered lines p cue) ∨
      ((form p.1).content?.isSome = false ∧ (itemAt lines p).bind cue? = none) := by
  obtain ⟨item, hitem, hyields⟩ := yields_of_isOk h
  rw [hitem]
  cases hyields with
  | silent hform => exact .inr ⟨by rw [hform]; rfl, rfl⟩
  | directive hform => exact .inr ⟨by rw [hform]; rfl, rfl⟩
  | bare hform => exact .inr ⟨by rw [hform]; rfl, rfl⟩
  | @marked role body _ hform hne hspoken =>
    have hcontent : (form p.1).content? = some body := by
      rw [hform]
      exact if_neg (mt List.isEmpty_iff.mp hne)
    exact .inl ⟨by rw [hcontent]; rfl, entered_of_spoken (.own hform) hcontent hspoken⟩
  | @unmarked role body _ hform hindented hrole hspoken =>
    have hcontent : (form p.1).content? = some body := by rw [hform, Form.content?]
    obtain ⟨before, mark, other, between, hbefore, hmark, hbetween⟩ :=
      roleAfter_eq_some_iff.mp hrole
    have hspeaks : Speaks lines p role := .continued hform hindented hbefore hmark hbetween
    exact .inl ⟨by rw [hcontent]; rfl, entered_of_spoken hspeaks hcontent hspoken⟩

/-- A line that is read has a directive if it is one, and else none. -/
private theorem directs_of_isOk (h : (readAt lines p).isOk = true) :
    ((form p.1).directive?.isSome = true ∧
        ∃ d, (itemAt lines p).bind directive? = some d ∧ Directs p d) ∨
      ((form p.1).directive?.isSome = false ∧ (itemAt lines p).bind directive? = none) := by
  obtain ⟨item, hitem, hyields⟩ := yields_of_isOk h
  rw [hitem]
  cases hyields with
  | silent hform => exact .inr ⟨by rw [hform]; rfl, rfl⟩
  | @directive body d hform hread =>
    have hbody : (form p.1).directive? = some body := by rw [hform, Form.directive?]
    exact .inl ⟨by rw [hbody]; rfl, d, rfl, body, hbody, hread⟩
  | bare hform => exact .inr ⟨by rw [hform]; rfl, rfl⟩
  | marked hform hne hspoken => exact .inr ⟨by rw [hform]; rfl, by cases hspoken <;> rfl⟩
  | unmarked hform hindented hrole hspoken =>
    exact .inr ⟨by rw [hform]; rfl, by cases hspoken <;> rfl⟩

/-! ### Scripts -/

variable {text : String} {s : Script}

/-- The entries of a script that is read are those of the lines with content. -/
theorem entered_of_parse (h : parse text = .ok s) :
    List.Forall₂ (Entered (Text.lines text.toList)) (contents (Text.lines text.toList)) s.cues := by
  obtain ⟨items, hitems, rfl, -⟩ := parse_eq_ok_iff.mp h
  obtain ⟨hall, rfl⟩ := readLines_eq_ok_iff.mp hitems
  rw [cues_ofItems, List.filterMap_filterMap]
  exact forall₂_filter_filterMap fun p hp ↦ entered_of_isOk (hall p hp)

/-- The directives of a script that is read are those in its lines. -/
theorem directs_of_parse (h : parse text = .ok s) :
    List.Forall₂ Directs (directiveLines (Text.lines text.toList)) s.directives := by
  obtain ⟨items, hitems, rfl, -⟩ := parse_eq_ok_iff.mp h
  obtain ⟨hall, rfl⟩ := readLines_eq_ok_iff.mp hitems
  rw [directives_ofItems, List.filterMap_filterMap]
  exact forall₂_filter_filterMap fun p hp ↦ directs_of_isOk (hall p hp)

/-- The numbers of lines ascend. -/
theorem pairwise_numbered (lines : List (List Char)) :
    (numbered lines).Pairwise fun p q ↦ p.2 < q.2 := by
  have hnumbers : ((numbered lines).map Prod.snd).Pairwise (· < ·) := by
    rw [numbered, List.zipIdx_map_snd]
    exact List.pairwise_lt_range'
  exact List.pairwise_map.mp hnumbers

/-- Entries for lines with content have ascending numbers. -/
theorem pairwise_line_of_entered {cues : List Cue}
    (h : List.Forall₂ (Entered lines) (contents lines) cues) :
    (cues.map Cue.line).Pairwise (· < ·) := by
  have hnumbers : cues.map Cue.line = (contents lines).map Prod.snd := by
    generalize contents lines = contents at h
    induction h with
    | nil => rfl
    | cons hentered _ ih => rw [List.map_cons, List.map_cons, hentered.line, ih]
  rw [hnumbers]
  exact List.pairwise_map.mpr ((pairwise_numbered lines).sublist List.filter_sublist)

/-- A script that is read has the structure of its text: its blocks are not empty and alternate,
its entries are the lines with content and its directives the lines that are directives, in order,
with ascending numbers. -/
theorem parse_structure (h : parse text = .ok s) :
    let lines := Text.lines text.toList
    s.Full ∧ Alternating s.blocks ∧ List.Forall₂ (Entered lines) (contents lines) s.cues ∧
      (s.cues.map Cue.line).Pairwise (· < ·) ∧
      List.Forall₂ Directs (directiveLines lines) s.directives := by
  have halternating : Alternating s.blocks := by
    obtain ⟨items, -, rfl, -⟩ := parse_eq_ok_iff.mp h
    exact alternating_ofItems items
  have hentered := entered_of_parse h
  exact ⟨full_of_parse h, halternating, hentered, pairwise_line_of_entered hentered,
    directs_of_parse h⟩

/-- A text with lines of every form. -/
def annotatedText : String := "!: BOLT 1\nC:\n  RESET\n# pause\nS: SUCCESS\n\t<EXIT>"

/-- Its script. -/
def annotated : Script where
  blocks := [.client [⟨3, ⟨"RESET", []⟩⟩], .server [⟨5, .send ⟨"SUCCESS", []⟩⟩, ⟨6, .exit⟩]]
  directives := [.version ⟨1, 0⟩]

/-- It is read as that script. -/
theorem parse_annotated : parse annotatedText = .ok annotated := by
  have hlines : Text.lines annotatedText.toList =
      ["!: BOLT 1".toList, "C:".toList, "  RESET".toList, "# pause".toList, "S: SUCCESS".toList,
        "\t<EXIT>".toList] := by rfl
  have hdirective : readLine none "!: BOLT 1".toList =
      .ok (none, some (.directive (.version ⟨1, 0⟩))) := by rfl
  have hmark : readLine none "C:".toList = .ok (some .client, none) := by rfl
  have hreset : readLine (some .client) "  RESET".toList =
      .ok (some .client, some (.expect ⟨"RESET", []⟩)) := by rfl
  have hcomment : readLine (some .client) "# pause".toList = .ok (some .client, none) := by rfl
  have hsuccess : readLine (some .client) "S: SUCCESS".toList =
      .ok (some .server, some (.reply (.send ⟨"SUCCESS", []⟩))) := by rfl
  have hexit : readLine (some .server) "\t<EXIT>".toList =
      .ok (some .server, some (.reply .exit)) := by rfl
  simp only [parse, hlines, readLines, hdirective, hmark, hreset, hcomment, hsuccess, hexit]
  rfl

private theorem contents_annotated : contents (Text.lines annotatedText.toList) =
    [("  RESET".toList, 3), ("S: SUCCESS".toList, 5), ("\t<EXIT>".toList, 6)] := by cbv

private theorem directiveLines_annotated : directiveLines (Text.lines annotatedText.toList) =
    [("!: BOLT 1".toList, 1)] := by cbv

/-- Its entries are three of its six lines, and its directive is the first one. -/
theorem parse_structure_annotated :
    parse annotatedText = .ok annotated ∧
      List.Forall₂ (Entered (Text.lines annotatedText.toList))
        [("  RESET".toList, 3), ("S: SUCCESS".toList, 5), ("\t<EXIT>".toList, 6)] annotated.cues ∧
      List.Forall₂ Directs [("!: BOLT 1".toList, 1)] annotated.directives := by
  obtain ⟨-, -, hentered, -, hdirects⟩ := parse_structure parse_annotated
  rw [contents_annotated] at hentered
  rw [directiveLines_annotated] at hdirects
  exact ⟨parse_annotated, hentered, hdirects⟩

end Script

end ScriptedBolt
