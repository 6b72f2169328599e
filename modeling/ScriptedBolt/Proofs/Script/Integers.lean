import ScriptedBolt.Proofs.Literal.Integers
import ScriptedBolt.Proofs.Script.Refusal
import ScriptedBolt.Proofs.Script.Spelling

/-!
# Integers in scripts

A line with a message is read if and only if all integers in it fit in 64 bits, and they are the
fields of the message then, exactly as they are written. If one does not fit, the first one is the
error of the line (`parse_integers`). Of several entries of an object with one key only the last
counts.

An object whose first key is `Literal.numeralKey` is left out there. It is not read as an object,
but as the number that its string spells (`reads_object_as_integer`).
-/

namespace ScriptedBolt.Script

/-- The item of a line in which a role sends a message. -/
def Item.sent : Role → Message → Item
  | .client, m => .expect m
  | .server, m => .reply (.send m)

/-- Whether a line among others is one in which a role sends a message with a name, and what stands
behind the name. -/
structure MessageLine (lines : List (List Char)) (p : List Char × Nat) (role : Role) (name : String)
    (rest : List Char) : Prop where
  mem : p ∈ numbered lines
  speaks : Speaks lines p role
  isName : IsName name
  content : ∃ body, (form p.1).content? = some body ∧ Text.splitWord body = (name.toList, rest)

namespace MessageLine

variable {lines : List (List Char)} {p : List Char × Nat} {role : Role} {name : String}
  {rest : List Char} {fields : List Value} {e : LiteralError}

/-- A role reads a message from a body that starts with its name. -/
private theorem readBody_eq {body : List Char} (hname : IsName name) (hne : body ≠ [])
    (hword : Text.splitWord body = (name.toList, rest)) : readBody role body =
      (readMessage name.toList rest).map fun m ↦ (some role, some (.sent role m)) := by
  unfold readBody
  rw [if_neg (mt List.isEmpty_iff.mp hne)]
  cases role with
  | client =>
    dsimp only
    rw [hname.readClient_eq hword]
    rfl
  | server =>
    dsimp only
    rw [hname.readServer_eq hword]
    cases readMessage name.toList rest with
    | ok m => rfl
    | error cause => rfl

/-- The line is read as the message that is spelled in it. -/
theorem readAt_eq (h : MessageLine lines p role name rest) : readAt lines p =
    (readMessage name.toList rest).map fun m ↦ (some role, some (.sent role m)) := by
  obtain ⟨body, hcontent, hword⟩ := h.content
  rw [readAt, readLine_eq]
  cases h.speaks with
  | own hform =>
    rw [hform, Form.content?] at hcontent
    split at hcontent
    · cases hcontent
    · next hne =>
      obtain rfl := Option.some.inj hcontent
      rw [hform]
      exact readBody_eq h.isName (mt List.isEmpty_iff.mpr hne) hword
  | continued hform hindented hbefore hmark hbetween =>
    rw [hform, Form.content?] at hcontent
    obtain rfl := Option.some.inj hcontent
    have hrole : inForce lines p.2 = some role :=
      roleAfter_eq_some_iff.mpr ⟨_, _, _, _, hbefore, hmark, hbetween⟩
    rw [hform]
    dsimp only
    rw [if_pos hindented, hrole]
    exact readBody_eq h.isName (ne_nil_of_unmarked hform) hword

/-- The line is read with the values of the literals in it. -/
theorem readAt_of_values (h : MessageLine lines p role name rest)
    (hvalues : Literal.values rest = .ok fields) :
    readAt lines p = .ok (some role, some (.sent role ⟨name, fields⟩)) := by
  rw [h.readAt_eq, readMessage, h.isName.2, hvalues, String.ofList_toList]
  rfl

/-- The line is refused for the literals in it. -/
theorem readAt_of_literalError (h : MessageLine lines p role name rest)
    (hvalues : Literal.values rest = .error e) : readAt lines p = .error (.literal e) := by
  rw [h.readAt_eq, readMessage, h.isName.2, hvalues]
  rfl

variable {text : String} {s : Script}

/-- A line that is read, with a name that is available, is not the error of its text. -/
theorem parse_ne (h : MessageLine (Text.lines text.toList) p role name rest)
    (hvalues : Literal.values rest = .ok fields)
    (havailable : Available (pinned? (Text.lines text.toList)) role name) (cause : ScriptCause) :
    parse text ≠ .error (.script p.2 cause) := by
  have hread := h.readAt_of_values hvalues
  intro herror
  obtain ⟨q, cause', heq, hq⟩ := refused_or_unavailable herror
  obtain ⟨hline, -⟩ := Error.script.inj heq
  rcases hq with hq | hq
  · obtain rfl := eq_of_mem_numbered h.mem hq.mem hline
    cases hread.symm.trans hq.refused
  · obtain rfl := eq_of_mem_numbered h.mem hq.mem hline
    obtain ⟨role', name', hname, hnot, -⟩ := hq.unavailable
    rw [nameAt?_of_isOk (by rw [hread]; rfl), itemAt, hread] at hname
    obtain ⟨rfl, rfl⟩ : role = role' ∧ name = name' := by
      cases role with
      | client => exact Prod.mk.inj (Option.some.inj hname)
      | server => exact Prod.mk.inj (Option.some.inj hname)
    exact hnot havailable

/-- A line that is read is a cue of the script. -/
theorem exists_cue (h : MessageLine (Text.lines text.toList) p role name rest)
    (hvalues : Literal.values rest = .ok fields) (hparse : parse text = .ok s) :
    ∃ cue ∈ s.cues, cue.line = p.2 ∧ cue.message? = some (role, ⟨name, fields⟩) := by
  obtain ⟨items, hitems, rfl, -⟩ := parse_eq_ok_iff.mp hparse
  obtain ⟨-, rfl⟩ := readLines_eq_ok_iff.mp hitems
  have hitem : itemAt (Text.lines text.toList) p = some (p.2, .sent role ⟨name, fields⟩) := by
    rw [itemAt, h.readAt_of_values hvalues]
  obtain ⟨cue, hcue, hline, hmessage⟩ : ∃ cue, cue? (p.2, .sent role ⟨name, fields⟩) = some cue ∧
      cue.line = p.2 ∧ cue.message? = some (role, ⟨name, fields⟩) := by
    cases role with
    | client => exact ⟨_, rfl, rfl, rfl⟩
    | server => exact ⟨_, rfl, rfl, rfl⟩
  refine ⟨cue, ?_, hline, hmessage⟩
  rw [cues_ofItems]
  exact List.mem_filterMap.mpr ⟨_, List.mem_filterMap.mpr ⟨p, h.mem, hitem⟩, hcue⟩

end MessageLine

variable {text : String} {p : List Char × Nat} {role : Role} {name : String} {rest : List Char}
  {ls : List Literal}

/-- A line in which a message has integers only, alone or in lists and objects, is read if and only
if each that is left of them fits in 64 bits. The fields of the message are then exactly what is
written, and with a name that is available the line is not the error of its text. Otherwise the
first integer that does not fit is the error of the line, and of the text if all lines before are
read. -/
theorem parse_integers (hline : MessageLine (Text.lines text.toList) p role name rest)
    (hrow : Literal.SpellsRow ls rest) (hnesting : ∀ l ∈ ls, l.nesting ≤ Literal.maxNesting)
    (hfree : ∀ l ∈ ls, l.Unreserved) :
    let lines := Text.lines text.toList
    let left := ls.map Literal.reduced
    let numbers := Literal.numeralsOfItems left
    ((readAt lines p).isOk = true ↔ ∀ n ∈ numbers, n.Fits) ∧
    ((∀ n ∈ numbers, n.Fits) → ∃ fields, Literal.ExactItems left fields ∧
      readAt lines p = .ok (some role, some (.sent role ⟨name, fields⟩)) ∧
      (Available (pinned? lines) role name → ∀ cause, parse text ≠ .error (.script p.2 cause)) ∧
      ∀ s, parse text = .ok s →
        ∃ cue ∈ s.cues, cue.line = p.2 ∧ cue.message? = some (role, ⟨name, fields⟩)) ∧
    ∀ n, Literal.misfit? numbers = some n →
      readAt lines p = .error (.literal (.outOfRange (.integer n))) ∧
      ((∀ q ∈ numbered lines, q.2 < p.2 → (readAt lines q).isOk = true) →
        parse text = .error (.script p.2 (.literal (.outOfRange (.integer n))))) := by
  intro lines left numbers
  have hfits (h : ∀ n ∈ numbers, n.Fits) := Literal.values_of_fits hrow hnesting hfree
    (Literal.misfit?_eq_none_iff.mpr h)
  have hmisfit {n : Numeral} (hn : Literal.misfit? numbers = some n) :=
    hline.readAt_of_literalError (Literal.values_of_misfit hrow hnesting hfree hn)
  refine ⟨⟨?_, ?_⟩, ?_, ?_⟩
  · intro hread
    rw [← Literal.misfit?_eq_none_iff, Option.eq_none_iff_forall_ne_some]
    intro n hn
    rw [hmisfit hn] at hread
    cases hread
  · intro h
    obtain ⟨fields, hvalues, -⟩ := hfits h
    rw [hline.readAt_of_values hvalues]
    rfl
  · intro h
    obtain ⟨fields, hvalues, hexact⟩ := hfits h
    exact ⟨fields, hexact, hline.readAt_of_values hvalues, hline.parse_ne hvalues,
      fun s ↦ hline.exists_cue hvalues⟩
  · intro n hn
    refine ⟨hmisfit hn, fun hbefore ↦ parse_of_refused_or_unavailable (.inl ?_)⟩
    exact ⟨hline.mem, hmisfit hn, hbefore⟩

/-! ### Two lines -/

/-- A zero with a sign. -/
private def signedZero : List Literal := [.number ⟨true, ['0'], none, none⟩]

/-- An object with three integers, of which the first is dropped, because the last has its key, and
the one between them is out of range. -/
private def outlying : List Literal :=
  [.object [("b", .number (Value.numeralOf 9223372036854775808)),
    ("a", .list [.number (Value.numeralOf (-9223372036854775809))]),
    ("b", .number (Value.numeralOf 7))]]

/-- What spells it. -/
private def outlyingRest : List Char :=
  "\x7b\"b\":9223372036854775808,\"a\":[-9223372036854775809],\"b\":7\x7d".toList

/-- A text with a line for each. -/
def outlyingText : String :=
  "C: RESET -0\nS: RECORD \x7b\"b\":9223372036854775808,\"a\":[-9223372036854775809],\"b\":7\x7d"

private theorem lines_outlying : Text.lines outlyingText.toList =
    ["C: RESET -0".toList, "S: RECORD ".toList ++ outlyingRest] := by rfl

private theorem spellsRow_signedZero : Literal.SpellsRow signedZero "-0".toList :=
  have hdigit : ∀ d ∈ ['0'], d.isDigit = true := fun _ hd ↦ List.mem_singleton.mp hd ▸ rfl
  ⟨[], "-0".toList, [], nofun, ⟨⟨rfl, by simp, hdigit, by simp⟩, rfl⟩, .inr rfl, nofun, rfl⟩

private theorem spellsRow_outlying : Literal.SpellsRow outlying outlyingRest := by
  have hcomma : Literal.Gap true [','] := Literal.gap_separator true
  have hfirst : Literal.Gap false [] := Literal.gap_separator false
  have hcolon : Literal.Colon [':'] := Literal.colon_singleton
  have hkey (key : String) := Literal.spellsString_spellString key
  have hnumber (i : Int) : (Literal.number (Value.numeralOf i)).Spells (Value.spellInteger i) :=
    ⟨Value.isWhole_numeralOf i, (Value.text_numeralOf i).symm⟩
  have hlist (i : Int) : (Literal.list [.number (Value.numeralOf i)]).Spells
      ('[' :: (Value.spellInteger i ++ [']'])) :=
    ⟨Value.spellInteger i, ⟨[], Value.spellInteger i, [], hfirst, hnumber i, nofun, by simp⟩, rfl⟩
  have hlast : Literal.SpellsEntries true [("b", .number (Value.numeralOf 7))] ",\"b\":7".toList :=
    ⟨_, _, _, _, [], hcomma, hkey "b", hcolon, hnumber 7, nofun, rfl⟩
  have hmore : Literal.SpellsEntries true
      [("a", .list [.number (Value.numeralOf (-9223372036854775809))]),
        ("b", .number (Value.numeralOf 7))] ",\"a\":[-9223372036854775809],\"b\":7".toList :=
    ⟨_, _, _, _, _, hcomma, hkey "a", hcolon, hlist _, hlast, rfl⟩
  exact ⟨[], outlyingRest, [], nofun,
    ⟨_, ⟨_, _, _, _, _, hfirst, hkey "b", hcolon, hnumber _, hmore, rfl⟩, rfl⟩, .inl rfl, nofun,
    rfl⟩

private theorem reduced_outlying : outlying.map Literal.reduced =
    [.object [("a", .list [.number (Value.numeralOf (-9223372036854775809))]),
      ("b", .number (Value.numeralOf 7))]] := by
  simp only [outlying, List.map_cons, List.map_nil, Literal.reduced, Literal.reducedEntries,
    Literal.reducedItems]
  rw [Entries.sort_cons_of_mem (by simp), Entries.sort_of_ascending (by decide)]

private theorem messageLine_signedZero : MessageLine (Text.lines outlyingText.toList)
    ("C: RESET -0".toList, 1) .client "RESET" "-0".toList where
  mem := by
    rw [lines_outlying]
    exact List.mem_cons_self
  speaks := .own (show form _ = .marked .client "RESET -0".toList from rfl)
  isName := by decide
  content := ⟨"RESET -0".toList, rfl, rfl⟩

private theorem messageLine_outlying : MessageLine (Text.lines outlyingText.toList)
    ("S: RECORD ".toList ++ outlyingRest, 2) .server "RECORD" outlyingRest where
  mem := by
    rw [lines_outlying]
    exact List.mem_cons_of_mem _ List.mem_cons_self
  speaks := .own (show form _ = .marked .server ("RECORD ".toList ++ outlyingRest) from rfl)
  isName := by decide
  content := ⟨"RECORD ".toList ++ outlyingRest, rfl, rfl⟩

/-- The zero is read as zero. What is out of range in the object is the error, and what is dropped
is not. -/
theorem parse_integers_outlying :
    readAt (Text.lines outlyingText.toList) ("C: RESET -0".toList, 1) =
        .ok (some .client, some (.expect ⟨"RESET", [.integer 0]⟩)) ∧
      parse outlyingText = .error
        (.script 2 (.literal (.outOfRange (.integer (Value.numeralOf (-9223372036854775809)))))) := by
  obtain ⟨-, hzero, -⟩ := parse_integers messageLine_signedZero spellsRow_signedZero
    (by decide) (by simp [signedZero, Literal.Unreserved])
  obtain ⟨-, -, hout⟩ := parse_integers messageLine_outlying spellsRow_outlying
    (by decide) (by simp [outlying, Literal.Unreserved, Literal.UnreservedItems,
      Literal.UnreservedEntries, Literal.numeralKey])
  have hmisfit : Literal.misfit? (Literal.numeralsOfItems (outlying.map Literal.reduced)) =
      some (Value.numeralOf (-9223372036854775809)) := by
    rw [reduced_outlying]
    rfl
  have hread : readAt (Text.lines outlyingText.toList) ("C: RESET -0".toList, 1) =
      .ok (some .client, some (.expect ⟨"RESET", [.integer 0]⟩)) := by
    obtain ⟨fields, hexact, hread, -⟩ := hzero (by decide)
    obtain ⟨v, rfl, hv⟩ := Literal.exactItems_singleton_iff.mp hexact
    obtain ⟨i, rfl, hi⟩ := Literal.exact_number_iff.mp hv
    rwa [Int64.toInt_inj.mp (hi.trans (show 0 = (0 : Int64).toInt from rfl))] at hread
  refine ⟨hread, (hout _ hmisfit).2 ?_⟩
  intro q hq hlt
  rw [lines_outlying] at hq
  rcases List.mem_cons.mp hq with rfl | hq
  · rw [hread]
    rfl
  · rw [List.mem_singleton.mp hq] at hlt
    exact absurd hlt (Nat.lt_irrefl 2)

/-! ### An object that is read as a number -/

/-- An object without numbers. -/
def disguised : List Literal := [.object [(Literal.numeralKey, .string "12")]]

/-- What spells it. -/
def disguisedRest : List Char := "\x7b\"$serde_json::private::Number\":\"12\"\x7d".toList

/-- A text in whose only line it stands. -/
def disguisedText : String := "C: RESET \x7b\"$serde_json::private::Number\":\"12\"\x7d"

private theorem messageLine_disguised : MessageLine (Text.lines disguisedText.toList)
    (disguisedText.toList, 1) .client "RESET" disguisedRest where
  mem := by
    have hlines : Text.lines disguisedText.toList = [disguisedText.toList] := by rfl
    rw [hlines]
    exact List.mem_cons_self
  speaks := .own (show form _ = .marked .client ("RESET ".toList ++ disguisedRest) from rfl)
  isName := by decide
  content := ⟨"RESET ".toList ++ disguisedRest, rfl, rfl⟩

private theorem spellsRow_disguised : Literal.SpellsRow disguised disguisedRest := by
  have hentry : Literal.SpellsEntries false [(Literal.numeralKey, .string "12")]
      "\"$serde_json::private::Number\":\"12\"".toList :=
    ⟨_, _, _, _, [], Literal.gap_separator false, Literal.spellsString_spellString _,
      Literal.colon_singleton, Literal.spellsString_spellString "12", nofun, rfl⟩
  exact ⟨[], disguisedRest, [], nofun, ⟨_, hentry, rfl⟩, .inl rfl, nofun, rfl⟩

private theorem values_disguised : Literal.values disguisedRest = .ok [.integer 12] := by
  obtain ⟨inside, hinside⟩ : ∃ inside, disguisedRest = '\x7b' :: inside := ⟨_, rfl⟩
  have hread (levels : Nat) : Literal.Reader.nested (levels + 1) disguisedRest =
      .ok (.number ⟨false, ['1', '2'], none, none⟩, []) := by
    have hreserved (item : Literal.Reader Literal) (fuel : Nat) : Literal.Reader.entries item []
        (fuel + 1) ([] ++ (Value.spellString Literal.numeralKey ++ ":\"12\"\x7d".toList)) =
          Literal.Reader.spelledNumber ":\"12\"\x7d".toList :=
      Literal.Reader.entries_of_reserved (Literal.gap_separator false)
        (Literal.spellsString_spellString _) fuel
    refine (hreserved (Literal.Reader.nested levels) _).trans ?_
    with_unfolding_all rfl
  have hvalue : (Literal.number ⟨false, ['1', '2'], none, none⟩).toValue = .ok (.integer 12) := by
    rw [Literal.toValue, Numeral.toValue, if_pos (by decide), if_pos (by decide)]
    rfl
  rw [hinside] at hread ⊢
  rw [Literal.values, Literal.valuesFrom, Literal.skipSpace_cons rfl]
  simp only [Literal.maxNesting, hread, hvalue]
  rfl

/-- An object without numbers can be read as an integer. -/
theorem reads_object_as_integer :
    MessageLine (Text.lines disguisedText.toList) (disguisedText.toList, 1) .client "RESET"
        disguisedRest ∧
      Literal.SpellsRow disguised disguisedRest ∧
      (∀ l ∈ disguised, l.nesting ≤ Literal.maxNesting) ∧
      Literal.numeralsOfItems (disguised.map Literal.reduced) = [] ∧
      readAt (Text.lines disguisedText.toList) (disguisedText.toList, 1) =
        .ok (some .client, some (.expect ⟨"RESET", [.integer 12]⟩)) ∧
      ¬Literal.ExactItems (disguised.map Literal.reduced) [.integer 12] := by
  have hreduced : disguised.map Literal.reduced = disguised := by
    simp only [disguised, List.map_cons, List.map_nil, Literal.reduced, Literal.reducedEntries]
    rw [Entries.sort_of_ascending (by decide)]
  rw [hreduced]
  exact ⟨messageLine_disguised, spellsRow_disguised, by decide, rfl,
    messageLine_disguised.readAt_of_values values_disguised, fun h ↦ h.1⟩

end ScriptedBolt.Script
