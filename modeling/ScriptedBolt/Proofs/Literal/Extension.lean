import ScriptedBolt.Proofs.Literal.Readback

/-!
# Literals with more text behind them

A literal is read alike whatever stands behind it, if only a blank comes first (`steady_nested`): a
literal with an end of its own is finished there, and a blank ends every other. So a text of literals
with more behind it is refused, or it has more values (`length_lt_of_values_append`).
-/

namespace ScriptedBolt

namespace Literal

variable {c d : Char} {text rest tail : List Char}

/-- A blank cannot continue a number. -/
private theorem not_isDigit_of_isBlank (h : Text.isBlank c = true) :
    c.isDigit = false ∧ c ∉ ['.', 'e', 'E'] := by
  constructor
  · rw [Bool.eq_false_iff]
    intro hdigit
    rw [Text.isBlank_of_isGraphic (Text.isGraphic_of_isDigit hdigit)] at h
    cases h
  · intro hmem
    have hall : ['.', 'e', 'E'].all Text.isGraphic = true := by decide
    rw [Text.isBlank_of_isGraphic (List.all_eq_true.mp hall c hmem)] at h
    cases h

/-- Blanks before a character are skipped alike with more text behind it. -/
theorem skipSpace_append (h : skipSpace text = d :: tail) (more : List Char) :
    skipSpace (text ++ more) = d :: (tail ++ more) := by
  rw [skipSpace] at h
  rw [skipSpace, List.dropWhile_append, h]
  rfl

namespace Reader

/-- Whether a reader takes the same from a text with more behind it, when that starts with a
blank. -/
def Steady {α : Type} (read : Reader α) : Prop :=
  ∀ ⦃text a rest⦄, read text = .ok (a, rest) → ∀ ⦃c⦄, Text.isBlank c = true →
    ∀ more, read (text ++ c :: more) = .ok (a, rest ++ c :: more)

/-- A word is read alike whatever stands behind it. -/
theorem steady_word (l : Literal) (expected : List Char) : Steady (word l expected) := by
  induction expected with
  | nil =>
    intro text a rest h c _ more
    obtain ⟨rfl, rfl⟩ := Prod.mk.inj (Except.ok.inj h)
    rfl
  | cons e expected ih =>
    intro text a rest h c hc more
    cases text with
    | nil => cases h
    | cons d text =>
      rw [word] at h
      split at h
      · next heq =>
        rw [List.cons_append, word, if_pos heq]
        exact ih h hc more
      · cases h

/-- So is a string. -/
theorem string_append {before : List Char} {s : String} (h : string before text = .ok (s, rest))
    (more : List Char) : string before (text ++ more) = .ok (s, rest ++ more) := by
  fun_induction string before text with
  | case1 => cases h
  | case2 before rest' =>
    obtain ⟨rfl, rfl⟩ := Prod.mk.inj (Except.ok.inj h)
    rw [List.cons_append, string]
  | case3 => cases h
  | case4 before text d after hescape _ ih =>
    rw [List.cons_append, string_of_escape (escape_append hescape more)]
    exact ih h
  | case5 => cases h
  | case6 before d text hquote hslash hcontrol ih =>
    rw [List.cons_append, string, if_neg hcontrol]
    · exact ih h
    · exact hquote
    · exact hslash

/-- A blank ends a number. -/
theorem steady_number (negative : Bool) : Steady (number negative) := by
  intro text n rest h c hc more
  obtain ⟨hdigit, hmark⟩ := not_isDigit_of_isBlank hc
  exact number_append h hdigit hmark more

/-- What is made of what is read is as steady. -/
private theorem map_append {α : Type} {read : Except Stop (α × List Char)}
    {read' : Except Stop (α × List Char)} {f : α → Literal} {l : Literal} {more : List Char}
    (hread : ∀ a rest, read = .ok (a, rest) → read' = .ok (a, rest ++ more))
    (h : (read.map fun (a, rest) ↦ (f a, rest)) = .ok (l, rest)) :
    (read'.map fun (a, rest) ↦ (f a, rest)) = .ok (l, rest ++ more) := by
  cases hr : read with
  | error stop =>
    rw [hr] at h
    cases h
  | ok result =>
    obtain ⟨a, rest'⟩ := result
    rw [hr] at h
    obtain ⟨rfl, rfl⟩ := Prod.mk.inj (Except.ok.inj h)
    rw [hread a rest' hr]
    rfl

/-- A literal that is neither a list nor an object is read alike. -/
theorem steady_scalar : Steady scalar := by
  intro text l rest h c hc more
  unfold scalar at h
  split at h
  · cases h
  · exact steady_word _ _ h hc more
  · exact steady_word _ _ h hc more
  · exact steady_word _ _ h hc more
  · exact map_append (fun n rest' hn ↦ steady_number true hn hc more) h
  · exact map_append (fun s rest' hs ↦ string_append hs (c :: more)) h
  · next d text hnull htrue hfalse hminus hquote =>
    split at h
    · next hd =>
      rw [List.cons_append, scalar, if_pos hd]
      · exact map_append (fun n rest' hn ↦ steady_number false hn hc more) h
      · exact hnull
      · exact htrue
      · exact hfalse
      · exact hminus
      · exact hquote
    · cases h

/-- So is a string that spells a number. -/
theorem steady_spelling : Steady spelling := by
  intro text n rest h c hc more
  unfold spelling at h
  split at h
  · cases h
  · cases h
  · next hlist hobject =>
    cases hskip : skipSpace text with
    | nil =>
      rw [hskip] at h
      cases h
    | cons d tail =>
      rw [hskip] at h hlist hobject
      split at h
      · cases h
      · next s rest' hscalar =>
        split at h
        · next n' hwhole =>
          obtain ⟨rfl, rfl⟩ := Prod.mk.inj (Except.ok.inj h)
          have hscalar' := steady_scalar hscalar hc more
          rw [List.cons_append] at hscalar'
          rw [spelling, skipSpace_append hskip]
          split
          · next heq => exact (hlist _ (congrArg (· :: tail) (List.cons.inj heq).1)).elim
          · next heq => exact (hobject _ (congrArg (· :: tail) (List.cons.inj heq).1)).elim
          · simp only [hscalar', hwhole]
        · cases h
      · cases h

/-- What follows a key is read alike if the value is. -/
theorem steady_afterKey {α : Type} {value : Reader α} (hvalue : Steady value) :
    Steady (afterKey value) := by
  intro text a rest h c hc more
  unfold afterKey at h
  split at h
  · cases h
  · next tail hskip =>
    rw [afterKey, skipSpace_append hskip]
    exact hvalue h hc more
  · cases h

/-- So is a number that follows its key. -/
theorem steady_spelledNumber : Steady spelledNumber := by
  intro text l rest h c hc more
  unfold spelledNumber at h
  split at h
  · cases h
  · next n rest' hn =>
    split at h
    · cases h
    · next tail hskip =>
      obtain ⟨rfl, rfl⟩ := Prod.mk.inj (Except.ok.inj h)
      simp only [spelledNumber, steady_afterKey steady_spelling hn hc more,
        skipSpace_append hskip]
    · cases h
    · cases h

variable {item : Reader Literal} {l : Literal}

/-- One more item of a list is read alike if it is on its own and those behind it are. -/
private theorem item_append (hitem : Steady item) (hc : Text.isBlank c = true)
    {before : List Literal} {fuel fuel' : Nat} {more : List Char}
    (hnext : ∀ ⦃v text⦄, items item (v :: before) fuel text = .ok (l, rest) →
      items item (v :: before) fuel' (text ++ c :: more) = .ok (l, rest ++ c :: more))
    (h : (match item text with
      | .error stop => (.error stop : Except Stop (Literal × List Char))
      | .ok (v, rest) => items item (v :: before) fuel rest) = .ok (l, rest)) :
    (match item (text ++ c :: more) with
      | .error stop => (.error stop : Except Stop (Literal × List Char))
      | .ok (v, rest) => items item (v :: before) fuel' rest) = .ok (l, rest ++ c :: more) := by
  split at h
  · cases h
  · next hv =>
    rw [hitem hv hc more]
    exact hnext h

/-- The items of a list are read alike if each of them is, also with more fuel. -/
theorem items_append (hitem : Steady item) {before : List Literal} {fuel fuel' : Nat}
    (h : items item before fuel text = .ok (l, rest)) (hfuel : fuel ≤ fuel')
    (hc : Text.isBlank c = true) (more : List Char) :
    items item before fuel' (text ++ c :: more) = .ok (l, rest ++ c :: more) := by
  induction fuel generalizing before text fuel' with
  | zero => cases h
  | succ fuel ih =>
    obtain ⟨fuel', rfl⟩ : ∃ n, fuel' = n + 1 := ⟨fuel' - 1, by omega⟩
    have hnext ⦃v text⦄ (h : items item (v :: before) fuel text = .ok (l, rest)) :
        items item (v :: before) fuel' (text ++ c :: more) = .ok (l, rest ++ c :: more) :=
      ih h (Nat.le_of_succ_le_succ hfuel)
    unfold items at h
    dsimp only at h
    split at h
    · cases h
    · next tail hskip =>
      obtain ⟨rfl, rfl⟩ := Prod.mk.inj (Except.ok.inj h)
      simp only [items, skipSpace_append hskip]
    · next d tail hend hskip =>
      rw [items, skipSpace_append hskip]
      split
      · next heq => cases heq
      · next heq => exact (hend (List.cons.inj heq).1).elim
      · next heq =>
        obtain ⟨rfl, rfl⟩ := List.cons.inj heq
        split at h
        · next hfirst =>
          rw [if_pos hfirst]
          exact item_append hitem hc hnext h
        · next hfirst =>
          rw [if_neg hfirst]
          split at h
          · next hcomma =>
            rw [if_pos hcomma]
            split at h
            · cases h
            · cases h
            · next hnil hclose =>
              obtain ⟨e, later, hlater'⟩ := List.exists_cons_of_ne_nil hnil
              rw [skipSpace_append hlater']
              rw [hlater'] at h hclose
              split
              · next heq => cases heq
              · next heq => exact (hclose _ (congrArg (· :: later) (List.cons.inj heq).1)).elim
              · exact item_append hitem hc hnext h
          · cases h

/-- One more entry of an object is read alike if its literal is and the entries behind it are. -/
private theorem entry_append (hitem : Steady item) (hc : Text.isBlank c = true)
    {before : List (String × Literal)} {fuel fuel' : Nat} {more : List Char}
    (hnext : ∀ ⦃entry text⦄, entries item (entry :: before) fuel text = .ok (l, rest) →
      entries item (entry :: before) fuel' (text ++ c :: more) = .ok (l, rest ++ c :: more))
    (h : (match string [] text with
      | .error stop => (.error stop : Except Stop (Literal × List Char))
      | .ok (key, rest) =>
        if before.isEmpty && key == numeralKey then spelledNumber rest
        else
          match afterKey item rest with
          | .error stop => .error stop
          | .ok (v, rest) => entries item ((key, v) :: before) fuel rest) = .ok (l, rest)) :
    (match string [] (text ++ c :: more) with
      | .error stop => (.error stop : Except Stop (Literal × List Char))
      | .ok (key, rest) =>
        if before.isEmpty && key == numeralKey then spelledNumber rest
        else
          match afterKey item rest with
          | .error stop => .error stop
          | .ok (v, rest) => entries item ((key, v) :: before) fuel' rest) =
      .ok (l, rest ++ c :: more) := by
  split at h
  · cases h
  · next hstring =>
    simp only [string_append hstring (c :: more)]
    split at h
    · next hkey =>
      rw [if_pos hkey]
      exact steady_spelledNumber h hc more
    · next hkey =>
      rw [if_neg hkey]
      split at h
      · cases h
      · next hv =>
        rw [steady_afterKey hitem hv hc more]
        exact hnext h

/-- The entries of an object are read alike if each literal in them is, also with more fuel. -/
theorem entries_append (hitem : Steady item) {before : List (String × Literal)} {fuel fuel' : Nat}
    (h : entries item before fuel text = .ok (l, rest)) (hfuel : fuel ≤ fuel')
    (hc : Text.isBlank c = true) (more : List Char) :
    entries item before fuel' (text ++ c :: more) = .ok (l, rest ++ c :: more) := by
  induction fuel generalizing before text fuel' with
  | zero => cases h
  | succ fuel ih =>
    obtain ⟨fuel', rfl⟩ : ∃ n, fuel' = n + 1 := ⟨fuel' - 1, by omega⟩
    have hnext ⦃entry text⦄ (h : entries item (entry :: before) fuel text = .ok (l, rest)) :
        entries item (entry :: before) fuel' (text ++ c :: more) = .ok (l, rest ++ c :: more) :=
      ih h (Nat.le_of_succ_le_succ hfuel)
    unfold entries at h
    dsimp only at h
    split at h
    · cases h
    · next tail hskip =>
      obtain ⟨rfl, rfl⟩ := Prod.mk.inj (Except.ok.inj h)
      simp only [entries, skipSpace_append hskip]
    · next d tail hend hskip =>
      rw [entries, skipSpace_append hskip]
      split
      · next heq => cases heq
      · next heq => exact (hend (List.cons.inj heq).1).elim
      · next heq =>
        obtain ⟨rfl, rfl⟩ := List.cons.inj heq
        split at h
        · next hfirst =>
          rw [if_pos hfirst]
          split at h
          · next hquote =>
            rw [if_pos hquote]
            exact entry_append hitem hc hnext h
          · cases h
        · next hfirst =>
          rw [if_neg hfirst]
          split at h
          · next hcomma =>
            rw [if_pos hcomma]
            split at h
            · cases h
            · next later hquote =>
              rw [skipSpace_append hquote]
              exact entry_append hitem hc hnext h
            · cases h
            · cases h
          · cases h

/-- A literal is read alike if those inside of it are. -/
theorem steady_literal {inner : Option (Reader Literal)} (h : ∀ item ∈ inner, Steady item) :
    Steady (literal inner) := by
  intro text l rest hread c hc more
  unfold literal at hread
  split at hread
  · next tail hskip =>
    cases inner with
    | none => cases hread
    | some item =>
      simp only [literal, skipSpace_append hskip]
      exact items_append (h item rfl) hread (by simp) hc more
  · next tail hskip =>
    cases inner with
    | none => cases hread
    | some item =>
      simp only [literal, skipSpace_append hskip]
      exact entries_append (h item rfl) hread (by simp) hc more
  · next hlist hobject =>
    cases hskip : skipSpace text with
    | nil =>
      rw [hskip] at hread
      cases hread
    | cons d tail =>
      rw [hskip] at hread hlist hobject
      rw [literal, skipSpace_append hskip]
      split
      · next heq => exact (hlist _ (congrArg (· :: tail) (List.cons.inj heq).1)).elim
      · next heq => exact (hobject _ (congrArg (· :: tail) (List.cons.inj heq).1)).elim
      · exact steady_scalar hread hc more

/-- A literal is read alike however many lists and objects may lie in each other. -/
theorem steady_nested (levels : Nat) : Steady (nested levels) := by
  induction levels with
  | zero => exact steady_literal (by simp)
  | succ levels ih => exact steady_literal (by simpa using ih)

end Reader

/-! ### Values -/

variable {size size' fuel fuel' : Nat} {before vs vs' : List Value}

/-- A text of literals is blank, or a literal with a value comes first. -/
private theorem valuesFrom_succ_inv (h : valuesFrom size before (fuel + 1) text = .ok vs) :
    skipSpace text = [] ∧ vs = before.reverse ∨ skipSpace text ≠ [] ∧ ∃ l v rest,
      Reader.nested maxNesting (skipSpace text) = .ok (l, rest) ∧ l.toValue = .ok v ∧
        valuesFrom size (v :: before) fuel rest = .ok vs := by
  rw [valuesFrom] at h
  split at h
  · next hskip => exact .inl ⟨hskip, (Except.ok.inj h).symm⟩
  · next hskip =>
    split at h
    · cases h
    · next hread =>
      split at h
      · split at h
        · next hv => exact .inr ⟨hskip, _, _, _, hread, hv, h⟩
        · cases h
      · cases h

/-- The values before a text are kept. -/
private theorem length_le_of_valuesFrom (h : valuesFrom size before fuel text = .ok vs) :
    before.length ≤ vs.length := by
  induction fuel generalizing before text with
  | zero =>
    obtain rfl := Except.ok.inj h
    exact Nat.le_of_eq List.length_reverse.symm
  | succ fuel ih =>
    rcases valuesFrom_succ_inv h with ⟨-, rfl⟩ | ⟨-, l, v, rest, -, -, h⟩
    · exact Nat.le_of_eq List.length_reverse.symm
    · exact Nat.le_of_succ_le (ih h)

/-- A text that is not blank adds to them. -/
private theorem length_lt_of_valuesFrom (h : valuesFrom size before (fuel + 1) text = .ok vs)
    (hne : skipSpace text ≠ []) : before.length < vs.length := by
  rcases valuesFrom_succ_inv h with ⟨hnil, -⟩ | ⟨-, l, v, rest, -, -, h⟩
  · exact absurd hnil hne
  · exact length_le_of_valuesFrom h

/-- With more text behind it a text has more values, if it is not refused. -/
private theorem length_lt_of_valuesFrom_append (h : valuesFrom size before fuel text = .ok vs)
    (hc : Text.isBlank c = true) {more : List Char} (hmore : skipSpace (c :: more) ≠ [])
    (h' : valuesFrom size' before fuel' (text ++ c :: more) = .ok vs') (hfuel : fuel < fuel') :
    vs.length < vs'.length := by
  have hshows (text : List Char) : skipSpace (text ++ c :: more) ≠ [] := by
    cases hskip : skipSpace text with
    | nil =>
      rw [skipSpace] at hskip ⊢
      rwa [List.dropWhile_append, hskip]
    | cons d tail =>
      rw [skipSpace_append hskip]
      exact List.cons_ne_nil _ _
  induction fuel generalizing before text fuel' with
  | zero =>
    obtain ⟨fuel', rfl⟩ := Nat.exists_eq_add_of_lt hfuel
    obtain rfl := Except.ok.inj h
    rw [List.length_reverse]
    exact length_lt_of_valuesFrom h' (hshows text)
  | succ fuel ih =>
    obtain ⟨fuel', rfl⟩ : ∃ n, fuel' = n + 1 := ⟨fuel' - 1, by omega⟩
    rcases valuesFrom_succ_inv h with ⟨-, rfl⟩ | ⟨hne, l, v, rest, hread, hv, h⟩
    · rw [List.length_reverse]
      exact length_lt_of_valuesFrom h' (hshows text)
    · rcases valuesFrom_succ_inv h' with ⟨hnil, -⟩ | ⟨-, l', v', rest', hread', hv', h'⟩
      · exact absurd hnil (hshows text)
      · -- The same literal comes first, and what stands behind it has more behind it.
        obtain ⟨d, tail, hskip⟩ := List.exists_cons_of_ne_nil hne
        rw [skipSpace_append hskip, ← List.cons_append, ← hskip,
          Reader.steady_nested _ hread hc more] at hread'
        obtain ⟨rfl, rfl⟩ := Prod.mk.inj (Except.ok.inj hread')
        rw [hv] at hv'
        obtain rfl := Except.ok.inj hv'
        exact ih h h' (Nat.lt_of_succ_lt_succ hfuel)

/-- A text that is not blank has values, if it is not refused. -/
theorem ne_nil_of_values (h : values text = .ok vs) (hne : skipSpace text ≠ []) : vs ≠ [] :=
  List.ne_nil_of_length_pos (length_lt_of_valuesFrom h hne)

/-- With more text behind it, after a blank, a text of literals is refused or has more values. -/
theorem length_lt_of_values_append (h : values text = .ok vs) (hc : Text.isBlank c = true)
    {more : List Char} (hmore : skipSpace (c :: more) ≠ [])
    (h' : values (text ++ c :: more) = .ok vs') : vs.length < vs'.length := by
  apply length_lt_of_valuesFrom_append h hc hmore h'
  rw [List.length_append, List.length_cons]
  omega

end Literal

end ScriptedBolt
