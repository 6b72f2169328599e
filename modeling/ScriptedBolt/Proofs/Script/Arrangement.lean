import ScriptedBolt.Proofs.Conversation.Renumbering
import ScriptedBolt.Proofs.Script.Names

/-!
# Where directives stand

Directives count for the whole script, so they may stand anywhere in its text. When they are moved to
the top, the lines of each role that they stood between still follow each other, and a line without a
mark still continues the same role: where it was read, no directive stood between the mark and it.
Among the directives only the last one that pins a version and the last one that answers the handshake
matter, so with these two in their places they may be arranged at will (`parse_arranged`).
-/

namespace ScriptedBolt

/-- The answer to the handshake that a directive gives, if it does. -/
def Directive.reply? : Directive → Option Bytes
  | handshake reply => some reply
  | _ => none

namespace Text

/-- Lines as a text, each with a line feed at its end. -/
def unlines (lines : List (List Char)) : List Char := lines.flatMap (· ++ ['\n'])

end Text

namespace Script

/-- Whether a line is a directive. -/
def isDirective (raw : List Char) : Bool := (form raw).directive?.isSome

/-- The directive that is read in a line, if it is one. -/
def says? (raw : List Char) : Option Directive :=
  (form raw).directive?.bind fun body ↦ (readDirective body).toOption

/-- The directives among lines. -/
def headings (lines : List (List Char)) : List (List Char) := lines.filter isDirective

/-- The lines that are no directives. -/
def others (lines : List (List Char)) : List (List Char) := lines.filter (!isDirective ·)

/-- The answer to the handshake that lines give; the last directive counts. -/
def answered? (lines : List (List Char)) : Option Bytes :=
  (lines.filterMap fun raw ↦ (says? raw).bind Directive.reply?).getLast?

/-- Whether lines are the directives among others, arranged so that they pin the same version and give
the same answer to the handshake. -/
structure Arranges (lines ds : List (List Char)) : Prop where
  perm : ds.Perm (headings lines)
  pinned_eq : pinned? ds = pinned? lines
  answered_eq : answered? ds = answered? lines

/-- The number of a line that is no directive when all directives stand on top. -/
def numberBelow (lines : List (List Char)) (line : Nat) : Nat :=
  (headings lines).length + (others (lines.take line)).length

variable {text : String} {lines : List (List Char)} {p : List Char × Nat} {raw : List Char}
  {s : Script}

/-! ### What directives say -/

/-- A directive is read alike wherever it stands. -/
theorem readLine_of_says? {d : Directive} (h : says? raw = some d) (current : Option Role) :
    readLine current raw = .ok (none, some (.directive d)) := by
  obtain ⟨body, hbody, hd⟩ := Option.bind_eq_some_iff.mp h
  have hform : form raw = .directive body := by
    cases hform : form raw with
    | directive other =>
      rw [hform] at hbody
      exact congrArg _ (Option.some.inj hbody)
    | _ =>
      rw [hform] at hbody
      cases hbody
  have hread : readDirective body = .ok d := by
    cases hread : readDirective body with
    | ok other =>
      rw [hread] at hd
      exact congrArg _ (Option.some.inj hd)
    | error cause =>
      rw [hread] at hd
      cases hd
  rw [readLine_eq, hform]
  exact map_eq_ok_iff.mpr ⟨d, hread, rfl⟩

/-- Only directives say something. -/
theorem isDirective_of_says? {d : Directive} (h : says? raw = some d) : isDirective raw = true := by
  obtain ⟨body, hbody, -⟩ := Option.bind_eq_some_iff.mp h
  rw [isDirective, hbody]
  rfl

/-- A line that is read says the directive that it contributes, and something exactly if it is a
directive. -/
private theorem says?_of_isOk (h : (readAt lines p).isOk = true) :
    (itemAt lines p).bind directive? = says? p.1 ∧
      (says? p.1).isSome = isDirective p.1 := by
  obtain ⟨item, hitem, hyields⟩ := yields_of_isOk h
  rw [hitem, says?, isDirective]
  cases hyields with
  | silent hform => rw [hform]; exact ⟨rfl, rfl⟩
  | directive hform hread =>
    rw [hform]
    simp only [Form.directive?, Option.bind_some, hread]
    exact ⟨rfl, rfl⟩
  | bare hform => rw [hform]; exact ⟨rfl, rfl⟩
  | marked hform _ hspoken =>
    rw [hform]
    cases hspoken <;> exact ⟨rfl, rfl⟩
  | unmarked hform _ _ hspoken =>
    rw [hform]
    cases hspoken <;> exact ⟨rfl, rfl⟩

/-- The version that lines pin is the last one that they say. -/
theorem pinned?_eq (lines : List (List Char)) :
    pinned? lines = (lines.filterMap fun raw ↦ (says? raw).bind Directive.version?).getLast? := by
  have hline (raw : List Char) :
      (form raw).directive?.bind versionIn? = (says? raw).bind Directive.version? := by
    rw [says?, Option.bind_assoc]
    congr 1
    funext body
    rw [versionIn?]
    cases readDirective body with
    | error cause => rfl
    | ok d => cases d <;> rfl
  rw [pinned?]
  congr 1
  exact List.filterMap_congr fun raw _ ↦ hline raw

/-- A script answers the handshake as the last directive says that does. -/
theorem reply?_eq (s : Script) :
    s.reply? = (s.directives.filterMap Directive.reply?).getLast? := by
  rw [← List.head?_reverse, ← List.filterMap_reverse, List.head?_filterMap]
  rfl

/-- The script whose directives are those that lines say asks for the version that they pin and
answers the handshake as they say. -/
theorem settled_of_says? (h : s.directives = lines.filterMap says?) :
    s.version? = pinned? lines ∧ s.reply? = answered? lines := by
  rw [version?_eq, reply?_eq, h, List.filterMap_filterMap, List.filterMap_filterMap, pinned?_eq]
  exact ⟨rfl, rfl⟩

/-! ### Directives on top -/

/-- The items of directives in lines that follow each other. -/
def headingItems (line : Nat) (ds : List Directive) : Items :=
  (ds.zipIdx line).map fun p ↦ (p.2, .directive p.1)

/-- They are the items of these directives. -/
theorem filterMap_headingItems (line : Nat) (ds : List Directive) :
    (headingItems line ds).filterMap directive? = ds := by
  rw [headingItems, List.filterMap_map]
  show (ds.zipIdx line).filterMap (some ∘ Prod.fst) = ds
  rw [List.filterMap_eq_map, List.zipIdx_map_fst]

/-- Directives on top are read one by one, and what follows them where no role is in force. -/
theorem readLines_headings {tops rest : List (List Char)} {ds : List Directive} {items : Items}
    {line : Nat} (htops : tops.map says? = ds.map some)
    (hrest : readLines (line + tops.length) none rest = .ok items) :
    readLines line none (tops ++ rest) = .ok (headingItems line ds ++ items) := by
  induction tops generalizing ds line with
  | nil =>
    cases ds with
    | nil => exact hrest
    | cons d ds => cases htops
  | cons raw tops ih =>
    cases ds with
    | nil => cases htops
    | cons d ds =>
      obtain ⟨hraw, htops⟩ := List.cons.inj htops
      have hlater : readLines (line + 1) none (tops ++ rest) =
          .ok (headingItems (line + 1) ds ++ items) := by
        apply ih htops
        rwa [Nat.add_assoc, Nat.add_comm 1]
      rw [List.cons_append, readLines, readLine_of_says? hraw]
      simp only [hlater]
      rfl

/-! ### Lines without the directives between them -/

/-- A line that is read where a role is in force or none is read where that role is in force. -/
theorem readLine_of_role {current current' after : Option Role} {item : Option Item}
    (hrole : current = none ∨ current' = current) (hnot : isDirective raw = false)
    (h : readLine current raw = .ok (after, item)) :
    ∃ after', readLine current' raw = .ok (after', item) ∧ (after = none ∨ after' = after) := by
  rw [readLine_eq] at h ⊢
  cases hform : form raw with
  | silent =>
    rw [hform] at h
    obtain ⟨rfl, rfl⟩ := Prod.mk.inj (Except.ok.inj h)
    exact ⟨current', rfl, hrole⟩
  | directive body =>
    rw [isDirective, hform] at hnot
    cases hnot
  | marked role body =>
    rw [hform] at h
    exact ⟨after, h, .inr rfl⟩
  | unmarked body =>
    rw [hform] at h
    dsimp only at h ⊢
    rcases hrole with rfl | rfl
    · split at h <;> cases h
    · exact ⟨after, h, .inr rfl⟩

/-- A directive contributes what it says, and no role is in force behind it. -/
private theorem directive_of_readLine {current after : Option Role} {item : Option Item}
    (h : readLine current raw = .ok (after, item)) (hdirective : isDirective raw = true) :
    after = none ∧ ∃ d, item = some (.directive d) := by
  obtain ⟨hyields, rfl⟩ := yields_of_readLine h
  rw [isDirective] at hdirective
  cases hyields with
  | directive hform _ => exact ⟨by rw [hform]; rfl, _, rfl⟩
  | silent hform => rw [hform] at hdirective; cases hdirective
  | bare hform => rw [hform] at hdirective; cases hdirective
  | marked hform => rw [hform] at hdirective; cases hdirective
  | unmarked hform => rw [hform] at hdirective; cases hdirective

/-- No other line contributes a directive. -/
private theorem directive?_of_readLine {current after : Option Role} {item : Item}
    (h : readLine current raw = .ok (after, some item)) (hnot : isDirective raw = false)
    (line : Nat) : (directive? (line, item)).isNone = true := by
  obtain ⟨hyields, -⟩ := yields_of_readLine h
  rw [isDirective] at hnot
  cases hyields with
  | directive hform _ => rw [hform] at hnot; cases hnot
  | marked _ _ hspoken => cases hspoken <;> rfl
  | unmarked _ _ _ hspoken => cases hspoken <;> rfl

/-- A line that is no directive stands among the others behind those before it. -/
private theorem others_concat (hnot : isDirective raw = false) (before : List (List Char)) :
    others (before ++ [raw]) = others before ++ [raw] := by
  rw [others, List.filter_append, List.filter_singleton, hnot]
  rfl

/-- Its number with all directives on top is the next one behind those before it. -/
private theorem numberBelow_length (hnot : isDirective raw = false)
    (before lines : List (List Char)) :
    numberBelow (before ++ raw :: lines) (before.length + 1) =
      (headings (before ++ raw :: lines)).length + (others before).length + 1 := by
  have htake : (before ++ raw :: lines).take (before.length + 1) = before ++ [raw] := by
    rw [List.take_length_add_append]
    rfl
  rw [numberBelow, htake, others_concat hnot, List.length_append, ← Nat.add_assoc]
  rfl

/-- What lines behind others contribute but for directives they contribute without the directives
between them, with the numbers that they have below all directives. -/
private theorem readLines_others (before lines : List (List Char)) {current current' : Option Role}
    {items : Items} (hrole : current = none ∨ current' = current)
    (h : readLines (before.length + 1) current lines = .ok items) :
    readLines ((headings (before ++ lines)).length + (others before).length + 1) current'
        (others lines) =
      .ok (Items.renumber (numberBelow (before ++ lines))
        (items.filter fun entry ↦ (directive? entry).isNone)) := by
  induction lines generalizing before current current' items with
  | nil =>
    obtain rfl := Except.ok.inj h
    rfl
  | cons raw lines ih =>
    have hlater := @ih (before ++ [raw])
    rw [List.length_append, List.length_singleton, List.append_assoc, List.singleton_append]
      at hlater
    rw [readLines] at h
    cases hread : readLine current raw with
    | error cause => simp [hread] at h
    | ok result =>
      obtain ⟨after, item⟩ := result
      simp only [hread] at h
      cases hrest : readLines (before.length + 1 + 1) after lines with
      | error e => simp [hrest] at h
      | ok more =>
        simp only [hrest, Except.ok.injEq] at h
        cases hdirective : isDirective raw with
        | true =>
          -- The directive is left out, and the role that it ended stays in force.
          obtain ⟨rfl, d, rfl⟩ := directive_of_readLine hread hdirective
          have hbefore : others (before ++ [raw]) = others before := by
            rw [others, List.filter_append, List.filter_singleton, hdirective]
            exact List.append_nil _
          have hskip : others (raw :: lines) = others lines :=
            List.filter_cons_of_neg (by simp [hdirective])
          rw [hbefore] at hlater
          dsimp only at h
          rw [← h, hskip, List.filter_cons_of_neg (by simp [directive?])]
          exact hlater (.inl rfl) hrest
        | false =>
          obtain ⟨after', hread', hafter⟩ := readLine_of_role hrole hdirective hread
          have hmore := hlater hafter hrest
          rw [others_concat hdirective, List.length_append, List.length_singleton,
            ← Nat.add_assoc] at hmore
          have hkeep : others (raw :: lines) = raw :: others lines :=
            List.filter_cons_of_pos (by simp [hdirective])
          rw [hkeep, readLines, hread']
          simp only [hmore, ← h]
          cases item with
          | none => rfl
          | some item =>
            have hentry := directive?_of_readLine hread hdirective (before.length + 1)
            dsimp only
            rw [List.filter_cons, if_pos hentry, ← numberBelow_length hdirective]
            rfl

/-! ### Texts with the directives on top -/

/-- Lines are read alike with carriage returns at their ends. -/
theorem readLines_of_isWritten {written news : List (List Char)}
    (h : List.Forall₂ IsWritten written news) (line : Nat) (current : Option Role) :
    readLines line current news = readLines line current written := by
  induction h generalizing line current with
  | nil => rfl
  | cons hraw _ ih =>
    rw [readLines, readLines, readLine_of_isWritten hraw]
    simp only [ih]

/-- Lines are the lines of their text, up to carriage returns at their ends. -/
theorem isWritten_unlines {lines : List (List Char)} (h : ∀ raw ∈ lines, '\n' ∉ raw) :
    List.Forall₂ IsWritten lines (Text.lines (Text.unlines lines)) := by
  induction lines with
  | nil => exact .nil
  | cons raw lines ih =>
    rw [List.forall_mem_cons] at h
    obtain ⟨line, hline, hlines⟩ := lines_ending h.1 false (Text.unlines lines)
    have htext : Text.unlines (raw :: lines) = raw ++ ['\n'] ++ Text.unlines lines := rfl
    rw [htext]
    simp only [Bool.false_eq_true, if_false] at hlines
    rw [hlines]
    exact .cons hline (ih h.2)

/-- Directives join no block. -/
theorem blocks_filter_directives (items : Items) :
    (ofItems (items.filter fun entry ↦ (directive? entry).isNone)).blocks =
      (ofItems items).blocks := by
  show List.foldr addToBlocks [] _ = List.foldr addToBlocks [] items
  rw [List.foldr_filter]
  congr 1
  funext ⟨line, item⟩ blocks
  cases item <;> rfl

/-- Directives on top join no block either. -/
theorem blocks_headingItems (line : Nat) (ds : List Directive) (items : Items) :
    (ofItems (headingItems line ds ++ items)).blocks = (ofItems items).blocks := by
  induction ds generalizing line with
  | nil => rfl
  | cons d ds ih => exact ih (line + 1)

/-- The directives of a script that is read are those that its lines say. -/
theorem directives_of_parse (h : parse text = .ok s) :
    s.directives = (Text.lines text.toList).filterMap says? := by
  obtain ⟨items, hitems, rfl, -⟩ := parse_eq_ok_iff.mp h
  obtain ⟨hall, rfl⟩ := readLines_eq_ok_iff.mp hitems
  rw [directives_ofItems, List.filterMap_filterMap,
    List.filterMap_congr fun p hp ↦ (says?_of_isOk (hall p hp)).1]
  show List.filterMap (says? ∘ Prod.fst) _ = _
  rw [← List.filterMap_map, numbered, List.zipIdx_map_fst]

/-- Each directive in a text that is read says something. -/
theorem isSome_says?_of_parse (h : parse text = .ok s)
    (hraw : raw ∈ headings (Text.lines text.toList)) : (says? raw).isSome = true := by
  obtain ⟨items, hitems, -, -⟩ := parse_eq_ok_iff.mp h
  obtain ⟨hall, -⟩ := readLines_eq_ok_iff.mp hitems
  obtain ⟨hmem, hdirective⟩ := List.mem_filter.mp hraw
  rw [← List.zipIdx_map_fst 1 (Text.lines text.toList)] at hmem
  obtain ⟨p, hp, rfl⟩ := List.mem_map.mp hmem
  rw [(says?_of_isOk (hall p hp)).2]
  exact hdirective

/-- What is said in lines that all say something. -/
private theorem map_says? {ds : List (List Char)} (h : ∀ raw ∈ ds, (says? raw).isSome = true) :
    ds.map says? = (ds.filterMap says?).map some := by
  rw [List.map_filterMap, ← List.filterMap_eq_map]
  apply List.filterMap_congr
  intro raw hraw
  obtain ⟨d, hd⟩ := Option.isSome_iff_exists.mp (h raw hraw)
  rw [Function.comp_apply, hd]
  rfl

/-- Only directives say what is said in lines. -/
theorem filterMap_headings (lines : List (List Char)) :
    (headings lines).filterMap says? = lines.filterMap says? := by
  rw [headings, List.filterMap_filter]
  apply List.filterMap_congr
  intro raw _
  cases hraw : says? raw with
  | none => simp
  | some d => rw [if_pos (isDirective_of_says? hraw)]

/-- The directives of lines may stay in their order. -/
theorem arranges_headings (lines : List (List Char)) : Arranges lines (headings lines) := by
  refine ⟨.rfl, ?_, ?_⟩
  · rw [pinned?_eq, pinned?_eq, ← List.filterMap_filterMap, ← List.filterMap_filterMap,
      filterMap_headings]
  · rw [answered?, answered?, ← List.filterMap_filterMap, ← List.filterMap_filterMap,
      filterMap_headings]

/-- A directive of a script stands among the items. -/
private theorem exists_of_mem_directives {items : Items} {d : Directive}
    (h : d ∈ items.filterMap directive?) : ∃ entry ∈ items, entry.2 = .directive d := by
  obtain ⟨⟨line, item⟩, hmem, hitem⟩ := List.mem_filterMap.mp h
  refine ⟨(line, item), hmem, ?_⟩
  cases item with
  | directive d' => exact congrArg Item.directive (Option.some.inj hitem)
  | expect m => cases hitem
  | reply a => cases hitem

/-- There is none among the items that are left without them. -/
private theorem filterMap_rest (number : Nat → Nat) (items : Items) :
    (Items.renumber number (items.filter fun entry ↦ (directive? entry).isNone)).filterMap
      directive? = [] := by
  rw [List.filterMap_eq_nil_iff]
  intro entry hentry
  obtain ⟨⟨line, item⟩, hold, rfl⟩ := List.mem_map.mp hentry
  have hnone := (List.mem_filter.mp hold).2
  cases item with
  | directive d => cases hnone
  | expect m => rfl
  | reply a => rfl

/-- If the names of items are known, so are those of the same items elsewhere. -/
private theorem unknownName?_of_subset {version : Option Version} {items news : Items}
    (h : unknownName? version items = none)
    (hsame : ∀ entry ∈ news, ∃ old ∈ items, old.2 = entry.2) :
    unknownName? version news = none := by
  rw [unknownName?_eq_none_iff] at h ⊢
  intro entry hentry role name hname
  obtain ⟨old, hold, hitem⟩ := hsame entry hentry
  exact h old hold role name (by rw [hitem, hname])

/-- A text with the directives of another on top, arranged so that the same ones count, is read as
the script of the same blocks with the directives in the new order. -/
private theorem exists_parse_arranged {text' : String} {ds : List (List Char)}
    (h : parse text = .ok s) (hds : Arranges (Text.lines text.toList) ds)
    (hlines : List.Forall₂ IsWritten (ds ++ others (Text.lines text.toList))
      (Text.lines text'.toList)) :
    ∃ s', parse text' = .ok s' ∧ s'.directives = ds.filterMap says? ∧
      s'.blocks = (s.renumber (numberBelow (Text.lines text.toList))).blocks := by
  have hsaid := directives_of_parse h
  have hsays : ∀ raw ∈ ds, (says? raw).isSome = true :=
    fun raw hraw ↦ isSome_says?_of_parse h (hds.perm.subset hraw)
  have hpinned := version?_of_parse h
  obtain ⟨items, hitems, rfl, hknown⟩ := parse_eq_ok_iff.mp h
  rw [directives_ofItems] at hsaid
  generalize Text.lines text.toList = lines at hds hlines hsaid hpinned hitems
  have hbelow : readLines ((headings lines).length + 1) none (others lines) =
      .ok (Items.renumber (numberBelow lines)
        (items.filter fun entry ↦ (directive? entry).isNone)) :=
    readLines_others [] lines (.inl rfl) hitems
  generalize hrest : Items.renumber (numberBelow lines)
    (items.filter fun entry ↦ (directive? entry).isNone) = rest at hbelow
  have hread : readLines 1 none (Text.lines text'.toList) =
      .ok (headingItems 1 (ds.filterMap says?) ++ rest) := by
    rw [readLines_of_isWritten hlines]
    apply readLines_headings (map_says? hsays)
    rw [hds.perm.length_eq, Nat.add_comm]
    exact hbelow
  have hdirectives : (ofItems (headingItems 1 (ds.filterMap says?) ++ rest)).directives =
      ds.filterMap says? := by
    rw [directives_ofItems, List.filterMap_append, filterMap_headingItems, ← hrest,
      filterMap_rest, List.append_nil]
  have hblocks : (ofItems (headingItems 1 (ds.filterMap says?) ++ rest)).blocks =
      ((ofItems items).renumber (numberBelow lines)).blocks := by
    rw [blocks_headingItems, ← hrest, ofItems_renumber, renumber, renumber,
      blocks_filter_directives]
  refine ⟨_, parse_eq_ok_iff.mpr ⟨_, hread, rfl, ?_⟩, hdirectives, hblocks⟩
  -- The names are those of the other text, and so is the version in which they have to be known.
  rw [(settled_of_says? hdirectives).1, hds.pinned_eq, ← hpinned]
  apply unknownName?_of_subset hknown
  intro entry hentry
  rcases List.mem_append.mp hentry with htop | hlow
  · obtain ⟨⟨d, line⟩, hd, rfl⟩ := List.mem_map.mp htop
    apply exists_of_mem_directives
    rw [hsaid, ← filterMap_headings]
    exact (hds.perm.filterMap says?).subset (List.fst_mem_of_mem_zipIdx hd)
  · rw [← hrest] at hlow
    obtain ⟨old, hold, rfl⟩ := List.mem_map.mp hlow
    exact ⟨old, (List.mem_filter.mp hold).1, rfl⟩

/-- Scripts of the same blocks, up to numbers, with the same directives in some order are followed
alike, up to numbers. -/
theorem after_of_perm {s' : Script} {number : Nat → Nat}
    (hblocks : s'.blocks = (s.renumber number).blocks) (hperm : s'.directives.Perm s.directives) :
    (∀ name, s'.isAuto name = s.isAuto name) ∧
      ∀ events, (Conversation.start s').after (events.map (Conversation.Event.renumber number)) =
        (((Conversation.start s).after events).renumber number).under s' := by
  have hauto (name : String) : s'.isAuto name = s.isAuto name := by
    rw [Bool.eq_iff_iff, isAuto_iff, isAuto_iff, hperm.mem_iff]
  refine ⟨hauto, ?_⟩
  intro events
  have hmatches (expected : Expect) (m : Message) :
      s'.matchesLine expected m = (s.renumber number).matchesLine expected m := by
    rw [matchesLine, hauto]
    rfl
  rw [Conversation.after_under hblocks hmatches, Conversation.start_renumber,
    Conversation.after_renumber]

/-- Directives may stand anywhere. A text with its directives moved to the top, in their order or in
another in which the same ones count, is again read as a script, with the same directives in the new
order and, up to numbers, the same blocks. It asks for the same version, gives the same answer to the
handshake, makes the same names enough and is followed in the same way. Those that count are the last
one that pins a version and the last one that answers the handshake. -/
theorem parse_arranged (h : parse text = .ok s) :
    let lines := Text.lines text.toList
    let number := numberBelow lines
    (s.version? = pinned? lines ∧ s.reply? = answered? lines) ∧
      Arranges lines (headings lines) ∧
      ∀ ds, Arranges lines ds →
        List.Forall₂ IsWritten (ds ++ others lines)
          (Text.lines (Text.unlines (ds ++ others lines))) ∧
        ∀ text' : String, List.Forall₂ IsWritten (ds ++ others lines) (Text.lines text'.toList) →
          ∃ s', parse text' = .ok s' ∧ s'.blocks = (s.renumber number).blocks ∧
            s'.directives.Perm s.directives ∧
            (ds = headings lines → s'.directives = s.directives) ∧
            s'.version? = s.version? ∧ s'.reply? = s.reply? ∧
            (∀ name, s'.isAuto name = s.isAuto name) ∧
            ∀ events,
              (Conversation.start s').after (events.map (Conversation.Event.renumber number)) =
                (((Conversation.start s).after events).renumber number).under s' := by
  intro lines number
  have hsaid := directives_of_parse h
  obtain ⟨hversion, hreply⟩ := settled_of_says? hsaid
  refine ⟨⟨hversion, hreply⟩, arranges_headings lines, ?_⟩
  intro ds hds
  constructor
  · apply isWritten_unlines
    intro raw hraw
    have hmem : raw ∈ lines := by
      rcases List.mem_append.mp hraw with htop | hlow
      · exact (List.mem_filter.mp (hds.perm.subset htop)).1
      · exact (List.mem_filter.mp hlow).1
    exact Text.not_mem_of_mem_lines hmem
  · intro text' hlines
    obtain ⟨s', hparse, hdirectives, hblocks⟩ := exists_parse_arranged h hds hlines
    obtain ⟨hversion', hreply'⟩ := settled_of_says? hdirectives
    have hperm : s'.directives.Perm s.directives := by
      rw [hdirectives, hsaid, ← filterMap_headings lines]
      exact hds.perm.filterMap says?
    obtain ⟨hauto, hafter⟩ := after_of_perm hblocks hperm
    refine ⟨s', hparse, hblocks, hperm, ?_, ?_, ?_, hauto, hafter⟩
    · rintro rfl
      rw [hdirectives, hsaid, filterMap_headings]
    · rw [hversion', hversion, hds.pinned_eq]
    · rw [hreply', hreply, hds.answered_eq]

/-- A text with directives between its lines. -/
def scatteredText : String := "C: RESET\n!: BOLT 2\nC: RESET\n!: AUTO RESET\nS: <EXIT>\n!: BOLT 1"

/-- Its script. -/
def scattered : Script where
  blocks := [.client [⟨1, ⟨"RESET", []⟩⟩, ⟨3, ⟨"RESET", []⟩⟩], .server [⟨5, .exit⟩]]
  directives := [.version ⟨2, 0⟩, .auto "RESET", .version ⟨1, 0⟩]

/-- The text with its directives on top, the one that makes a name enough first. -/
def gatheredText : String := "!: AUTO RESET\n!: BOLT 2\n!: BOLT 1\nC: RESET\nC: RESET\nS: <EXIT>"

/-- Below the directives its lines are the fourth to the sixth, and version 1 still counts. -/
theorem parse_arranged_scattered :
    parse scatteredText = .ok scattered ∧
      Arranges (Text.lines scatteredText.toList)
        ["!: AUTO RESET".toList, "!: BOLT 2".toList, "!: BOLT 1".toList] ∧
      ∃ s', parse gatheredText = .ok s' ∧
        s'.blocks = [.client [⟨4, ⟨"RESET", []⟩⟩, ⟨5, ⟨"RESET", []⟩⟩], .server [⟨6, .exit⟩]] ∧
        s'.version? = some ⟨1, 0⟩ ∧ s'.isAuto "RESET" = true := by
  have hlines : Text.lines scatteredText.toList =
      ["C: RESET".toList, "!: BOLT 2".toList, "C: RESET".toList, "!: AUTO RESET".toList,
        "S: <EXIT>".toList, "!: BOLT 1".toList] := by rfl
  have hclient (current : Option Role) : readLine current "C: RESET".toList =
      .ok (some .client, some (.expect ⟨"RESET", []⟩)) := by rfl
  have hexit (current : Option Role) : readLine current "S: <EXIT>".toList =
      .ok (some .server, some (.reply .exit)) := by rfl
  have hauto : says? "!: AUTO RESET".toList = some (.auto "RESET") := by rfl
  have htwo : says? "!: BOLT 2".toList = some (.version ⟨2, 0⟩) := by rfl
  have hone : says? "!: BOLT 1".toList = some (.version ⟨1, 0⟩) := by rfl
  have hparse : parse scatteredText = .ok scattered := by
    simp only [parse, hlines, readLines, hclient, hexit, readLine_of_says? hauto,
      readLine_of_says? htwo, readLine_of_says? hone]
    rfl
  have harranges : Arranges (Text.lines scatteredText.toList)
      ["!: AUTO RESET".toList, "!: BOLT 2".toList, "!: BOLT 1".toList] := by
    rw [hlines]
    exact ⟨by decide +kernel, by rfl, by rfl⟩
  have hgathered : Text.lines gatheredText.toList =
      ["!: AUTO RESET".toList, "!: BOLT 2".toList, "!: BOLT 1".toList] ++
        others (Text.lines scatteredText.toList) := by
    rw [hlines]
    rfl
  obtain ⟨-, -, hmoved⟩ := parse_arranged hparse
  obtain ⟨s', hparse', hblocks, -, -, hversion, -, hisAuto, -⟩ :=
    (hmoved _ harranges).2 gatheredText (by
      rw [hgathered]
      exact List.forall₂_same.mpr fun _ _ ↦ .inl rfl)
  refine ⟨hparse, harranges, s', hparse', ?_, ?_, ?_⟩
  · rw [hblocks, hlines]
    rfl
  · rw [hversion]
    rfl
  · rw [hisAuto]
    rfl

end Script

end ScriptedBolt
