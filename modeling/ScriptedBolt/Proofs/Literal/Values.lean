import ScriptedBolt.Literal.Reader
import ScriptedBolt.Proofs.Value.Plain

/-!
# The values of literals

A reader keeps the entries of an object by ascending keys, so every object in a literal that is
read is in order. A number becomes a value only within its range, and there is no literal for a
structure. So the values of the literals in a text are plain.
-/

namespace ScriptedBolt

namespace Literal

mutual

/-- Whether every object at any depth of the literal has strictly ascending keys. -/
def Ordered : Literal → Prop
  | list items => OrderedItems items
  | object entries => (entries.map Prod.fst).Pairwise (· < ·) ∧ OrderedEntries entries
  | _ => True

/-- Whether all items are ordered. -/
def OrderedItems : List Literal → Prop
  | [] => True
  | item :: items => item.Ordered ∧ OrderedItems items

/-- Whether the literals of all entries are ordered. -/
def OrderedEntries : List (String × Literal) → Prop
  | [] => True
  | (_, item) :: entries => item.Ordered ∧ OrderedEntries entries

end

/-- Items are ordered if each of them is. -/
theorem orderedItems_of_forall {items : List Literal} (h : ∀ item ∈ items, item.Ordered) :
    OrderedItems items := by
  induction items with
  | nil => trivial
  | cons item items ih =>
    exact ⟨h item List.mem_cons_self, ih fun other ho ↦ h other (List.mem_cons_of_mem _ ho)⟩

/-- Entries are ordered if each of their literals is. -/
theorem orderedEntries_of_forall {entries : List (String × Literal)}
    (h : ∀ entry ∈ entries, entry.2.Ordered) : OrderedEntries entries := by
  induction entries with
  | nil => trivial
  | cons entry entries ih =>
    exact ⟨h entry List.mem_cons_self, ih fun other ho ↦ h other (List.mem_cons_of_mem _ ho)⟩

/-! ### What a reader gives -/

namespace Reader

/-- Whether a reader gives ordered literals only. -/
def Orderly (read : Reader Literal) : Prop :=
  ∀ text l rest, read text = .ok (l, rest) → l.Ordered

/-- A word is read as the literal it stands for. -/
theorem orderly_word {l : Literal} (hl : l.Ordered) (expected : List Char) :
    Orderly (word l expected) := by
  induction expected with
  | nil =>
    intro text l' rest h
    rw [word] at h
    simp only [Except.ok.injEq, Prod.mk.injEq] at h
    exact h.1 ▸ hl
  | cons c expected ih =>
    intro text l' rest h
    cases text with
    | nil => simp [word] at h
    | cons d text =>
      rw [word] at h
      split at h
      · exact ih text l' rest h
      · simp at h

/-- What a reader reads is read as a literal made of it. -/
private theorem ordered_of_map {α : Type} {read : Except Stop (α × List Char)} {f : α → Literal}
    (hf : ∀ a, (f a).Ordered) {l : Literal} {rest : List Char}
    (h : (read.map fun (a, rest) ↦ (f a, rest)) = .ok (l, rest)) : l.Ordered := by
  cases read with
  | error stop => simp [Except.map] at h
  | ok result =>
    simp only [Except.map, Except.ok.injEq, Prod.mk.injEq] at h
    exact h.1 ▸ hf result.1

/-- A literal without literals in it is ordered. -/
theorem orderly_scalar : Orderly scalar := by
  intro text l rest h
  unfold scalar at h
  split at h
  · simp at h
  · exact orderly_word (l := .null) trivial _ _ _ _ h
  · exact orderly_word (l := .boolean true) trivial _ _ _ _ h
  · exact orderly_word (l := .boolean false) trivial _ _ _ _ h
  · exact ordered_of_map (f := .number) (fun _ ↦ trivial) h
  · exact ordered_of_map (f := .string) (fun _ ↦ trivial) h
  · split at h
    · exact ordered_of_map (f := .number) (fun _ ↦ trivial) h
    · simp at h

/-- A number that a string spells is ordered. -/
theorem orderly_spelledNumber : Orderly spelledNumber := by
  intro text l rest h
  unfold spelledNumber at h
  split at h
  · simp at h
  · split at h
    · simp at h
    · simp only [Except.ok.injEq, Prod.mk.injEq] at h
      exact h.1 ▸ trivial
    · simp at h
    · simp at h

variable {item : Reader Literal}

/-- A list is at its end, or goes on after one more item. -/
theorem items_succ_inv {fuel : Nat} {before : List Literal} {text rest : List Char} {l : Literal}
    (h : items item before (fuel + 1) text = .ok (l, rest)) :
    l = .list before.reverse ∨ ∃ other v after, item other = .ok (v, after) ∧
      items item (v :: before) fuel after = .ok (l, rest) := by
  unfold items at h
  dsimp only at h
  split at h
  · simp at h
  · simp only [Except.ok.injEq, Prod.mk.injEq] at h
    exact .inl h.1.symm
  · split at h
    · split at h
      · simp at h
      · next hv => exact .inr ⟨_, _, _, hv, h⟩
    · split at h
      · split at h
        · simp at h
        · simp at h
        · split at h
          · simp at h
          · next hv => exact .inr ⟨_, _, _, hv, h⟩
      · simp at h

/-- Items are read after ordered ones as an ordered list. -/
theorem orderly_items (hitem : Orderly item) (fuel : Nat) {before : List Literal}
    (hbefore : ∀ l ∈ before, l.Ordered) : Orderly (items item before fuel) := by
  induction fuel generalizing before with
  | zero =>
    intro text l rest h
    simp [items] at h
  | succ fuel ih =>
    intro text l rest h
    rcases items_succ_inv h with rfl | ⟨other, v, after, hv, h⟩
    · apply orderedItems_of_forall
      intro l hl
      exact hbefore l (List.mem_reverse.mp hl)
    · refine ih ?_ _ _ _ h
      intro l hl
      rcases List.mem_cons.mp hl with rfl | hl
      · exact hitem _ _ _ hv
      · exact hbefore l hl

/-- What follows a key is the literal after the colon. -/
theorem ordered_of_afterKey (hitem : Orderly item) {text rest : List Char} {l : Literal}
    (h : afterKey item text = .ok (l, rest)) : l.Ordered := by
  unfold afterKey at h
  split at h
  · simp at h
  · exact hitem _ _ _ h
  · simp at h

/-- An object is at its end, turns out to spell a number, or goes on after one more entry. -/
theorem entries_succ_inv {fuel : Nat} {before : List (String × Literal)} {text rest : List Char}
    {l : Literal} (h : entries item before (fuel + 1) text = .ok (l, rest)) :
    l = .object (Entries.sort before.reverse) ∨
      (∃ other, spelledNumber other = .ok (l, rest)) ∨
      ∃ key other v after, afterKey item other = .ok (v, after) ∧
        entries item ((key, v) :: before) fuel after = .ok (l, rest) := by
  unfold entries at h
  dsimp only at h
  split at h
  · simp at h
  · simp only [Except.ok.injEq, Prod.mk.injEq] at h
    exact .inl h.1.symm
  · split at h
    · split at h
      · split at h
        · simp at h
        · split at h
          · exact .inr (.inl ⟨_, h⟩)
          · split at h
            · simp at h
            · next hv => exact .inr (.inr ⟨_, _, _, _, hv, h⟩)
      · simp at h
    · split at h
      · split at h
        · simp at h
        · split at h
          · simp at h
          · split at h
            · exact .inr (.inl ⟨_, h⟩)
            · split at h
              · simp at h
              · next hv => exact .inr (.inr ⟨_, _, _, _, hv, h⟩)
        · simp at h
        · simp at h
      · simp at h

/-- Entries are read after those with ordered literals as an ordered object. -/
theorem orderly_entries (hitem : Orderly item) (fuel : Nat) {before : List (String × Literal)}
    (hbefore : ∀ entry ∈ before, entry.2.Ordered) : Orderly (entries item before fuel) := by
  induction fuel generalizing before with
  | zero =>
    intro text l rest h
    simp [entries] at h
  | succ fuel ih =>
    intro text l rest h
    rcases entries_succ_inv h with rfl | ⟨other, h⟩ | ⟨key, other, v, after, hv, h⟩
    · refine ⟨Entries.ascending_sort _, orderedEntries_of_forall ?_⟩
      intro entry hentry
      exact hbefore entry (List.mem_reverse.mp (Entries.mem_of_mem_sort hentry))
    · exact orderly_spelledNumber _ _ _ h
    · refine ih ?_ _ _ _ h
      intro entry hentry
      rcases List.mem_cons.mp hentry with rfl | hentry
      · exact ordered_of_afterKey hitem hv
      · exact hbefore entry hentry

/-- A literal with ordered literals in it is ordered. -/
theorem orderly_literal {inner : Option (Reader Literal)} (h : ∀ item ∈ inner, Orderly item) :
    Orderly (literal inner) := by
  intro text l rest hread
  unfold literal at hread
  split at hread
  · split at hread
    · simp at hread
    · next item => exact orderly_items (h item rfl) _ (by simp) _ _ _ hread
  · split at hread
    · simp at hread
    · next item => exact orderly_entries (h item rfl) _ (by simp) _ _ _ hread
  · exact orderly_scalar _ _ _ hread

/-- A literal that is read is ordered, however many lists and objects may lie in each other. -/
theorem orderly_nested (levels : Nat) : Orderly (nested levels) := by
  induction levels with
  | zero => exact orderly_literal (by simp)
  | succ levels ih => exact orderly_literal (by simpa using ih)

end Reader

/-! ### What a literal is worth -/

/-- A number within its range is plain. -/
theorem plain_of_numeral {n : Numeral} {v : Value} (h : n.toValue = .ok v) : v.Plain := by
  unfold Numeral.toValue at h
  split at h
  · dsimp only at h
    split at h
    · exact Except.ok.inj h ▸ trivial
    · simp at h
  · split at h
    · next hfinite => exact Except.ok.inj h ▸ hfinite
    · simp at h

mutual

/-- The value of an ordered literal is plain. -/
theorem plain_of_toValue {v : Value} : (l : Literal) → l.Ordered → l.toValue = .ok v → v.Plain
  | null, _, h => Except.ok.inj h ▸ trivial
  | boolean _, _, h => Except.ok.inj h ▸ trivial
  | number _, _, h => plain_of_numeral h
  | string _, _, h => Except.ok.inj h ▸ trivial
  | list items, ho, h => by
    rw [toValue] at h
    cases hvalues : valuesOfItems [] items with
    | error e => simp [hvalues, Except.map] at h
    | ok vs =>
      rw [hvalues] at h
      obtain ⟨more, rfl, hmore⟩ := plain_of_valuesOfItems items ho hvalues
      exact Except.ok.inj h ▸ hmore
  | object entries, ho, h => by
    rw [toValue] at h
    cases hvalues : valuesOfEntries [] entries with
    | error e => simp [hvalues, Except.map] at h
    | ok es =>
      rw [hvalues] at h
      obtain ⟨more, rfl, hkeys, hmore⟩ := plain_of_valuesOfEntries entries ho.2 hvalues
      refine Except.ok.inj h ▸ ⟨?_, hmore⟩
      exact hkeys ▸ ho.1

/-- The values of ordered items are plain. -/
theorem plain_of_valuesOfItems {before vs : List Value} :
    (items : List Literal) → OrderedItems items → valuesOfItems before items = .ok vs →
      ∃ more, vs = before.reverse ++ more ∧ Value.PlainItems more
  | [], _, h => ⟨[], by rw [← Except.ok.inj h, List.append_nil], trivial⟩
  | item :: items, ho, h => by
    rw [valuesOfItems] at h
    split at h
    · next v hv =>
      obtain ⟨more, rfl, hmore⟩ := plain_of_valuesOfItems items ho.2 h
      refine ⟨v :: more, ?_, plain_of_toValue item ho.1 hv, hmore⟩
      rw [List.reverse_cons, List.append_assoc, List.singleton_append]
    · simp at h

/-- The values of ordered entries are plain, and keep their keys. -/
theorem plain_of_valuesOfEntries {before es : List (String × Value)} :
    (entries : List (String × Literal)) → OrderedEntries entries →
      valuesOfEntries before entries = .ok es →
      ∃ more, es = before.reverse ++ more ∧ more.map Prod.fst = entries.map Prod.fst ∧
        Value.PlainEntries more
  | [], _, h => ⟨[], by rw [← Except.ok.inj h, List.append_nil], rfl, trivial⟩
  | (key, item) :: entries, ho, h => by
    rw [valuesOfEntries] at h
    split at h
    · next v hv =>
      obtain ⟨more, rfl, hkeys, hmore⟩ := plain_of_valuesOfEntries entries ho.2 h
      refine ⟨(key, v) :: more, ?_, ?_, plain_of_toValue item ho.1 hv, hmore⟩
      · rw [List.reverse_cons, List.append_assoc, List.singleton_append]
      · rw [List.map_cons, List.map_cons, hkeys]
    · simp at h

end

/-! ### What a text spells -/

private theorem plain_of_done {before vs : List Value} (hbefore : ∀ v ∈ before, v.Plain)
    (h : (.ok before.reverse : Except LiteralError (List Value)) = .ok vs) : ∀ v ∈ vs, v.Plain := by
  intro v hv
  rw [← Except.ok.inj h] at hv
  exact hbefore v (List.mem_reverse.mp hv)

/-- The values of the literals in a text are plain, as those before them are. -/
private theorem plain_of_valuesFrom {size fuel : Nat} {before vs : List Value} {text : List Char}
    (hbefore : ∀ v ∈ before, v.Plain) (h : valuesFrom size before fuel text = .ok vs) :
    ∀ v ∈ vs, v.Plain := by
  induction fuel generalizing before text with
  | zero => exact plain_of_done hbefore h
  | succ fuel ih =>
    rw [valuesFrom] at h
    split at h
    · exact plain_of_done hbefore h
    · split at h
      · simp at h
      · next l rest hread =>
        split at h
        · split at h
          · next v hv =>
            refine ih ?_ h
            intro w hw
            rcases List.mem_cons.mp hw with rfl | hw
            · exact plain_of_toValue l (Reader.orderly_nested _ _ _ _ hread) hv
            · exact hbefore w hw
          · simp at h
        · simp at h

/-- The values of the literals in a text are plain. -/
theorem plain_of_values {text : List Char} {vs : List Value} (h : values text = .ok vs) :
    ∀ v ∈ vs, v.Plain :=
  plain_of_valuesFrom (by simp) h

end Literal

end ScriptedBolt
