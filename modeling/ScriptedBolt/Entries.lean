/-!
# Entries with ascending keys

A map from strings is kept as the list of its entries with strictly ascending keys. Keys are
ordered by their code points, which is also the order of their UTF-8.
-/

namespace ScriptedBolt.Entries

universe u

variable {α : Type u}

/-- Puts an entry before entries with ascending keys, unless the first of them has its key. -/
def keepLater (entry : String × α) : List (String × α) → List (String × α)
  | [] => [entry]
  | next :: entries => if entry.1 = next.1 then next :: entries else entry :: next :: entries

/-- Entries with strictly ascending keys; of several entries with one key the last is kept. -/
def sort (entries : List (String × α)) : List (String × α) :=
  (entries.mergeSort fun a b ↦ !decide (b.1 < a.1)).foldr keepLater []

/-- What is kept of entries is among them. -/
theorem mem_of_mem_foldr {entry : String × α} {entries : List (String × α)}
    (h : entry ∈ entries.foldr keepLater []) : entry ∈ entries := by
  induction entries with
  | nil => exact h
  | cons first entries ih =>
    rw [List.foldr_cons] at h
    cases hkept : entries.foldr keepLater [] with
    | nil =>
      rw [hkept] at h
      exact List.mem_cons.mpr (.inl (List.mem_singleton.mp h))
    | cons next kept =>
      rw [hkept] at ih h
      rw [keepLater] at h
      split at h
      · exact List.mem_cons_of_mem _ (ih h)
      · rcases List.mem_cons.mp h with rfl | h
        · exact List.mem_cons_self
        · exact List.mem_cons_of_mem _ (ih h)

/-- What is kept of entries whose keys do not descend has strictly ascending keys. -/
private theorem ascending_foldr {entries : List (String × α)}
    (h : entries.Pairwise fun a b ↦ a.1 ≤ b.1) :
    (entries.foldr keepLater []).Pairwise fun a b ↦ a.1 < b.1 := by
  induction entries with
  | nil => exact .nil
  | cons first entries ih =>
    rw [List.pairwise_cons] at h
    have hkeep := ih h.2
    have hle : ∀ kept ∈ entries.foldr keepLater [], first.1 ≤ kept.1 :=
      fun kept hk ↦ h.1 kept (mem_of_mem_foldr hk)
    rw [List.foldr_cons]
    cases hkept : entries.foldr keepLater [] with
    | nil => exact List.pairwise_singleton ..
    | cons next kept =>
      rw [hkept] at hkeep hle
      by_cases he : first.1 = next.1
      · rwa [keepLater, if_pos he]
      · rw [keepLater, if_neg he, List.pairwise_cons]
        have hfirst : first.1 < next.1 := by
          apply Decidable.byContradiction
          intro hn
          exact he (String.le_antisymm (hle next List.mem_cons_self) (String.not_lt.mp hn))
        refine ⟨?_, hkeep⟩
        intro other ho
        rcases List.mem_cons.mp ho with rfl | ho
        · exact hfirst
        · exact String.lt_trans hfirst ((List.pairwise_cons.mp hkeep).1 other ho)

/-- Nothing is dropped of entries with strictly ascending keys. -/
private theorem foldr_of_ascending {entries : List (String × α)}
    (h : entries.Pairwise fun a b ↦ a.1 < b.1) : entries.foldr keepLater [] = entries := by
  induction entries with
  | nil => rfl
  | cons entry entries ih =>
    rw [List.pairwise_cons] at h
    rw [List.foldr_cons, ih h.2]
    cases entries with
    | nil => rfl
    | cons next entries =>
      have hlt := h.1 next List.mem_cons_self
      rw [keepLater, if_neg]
      intro he
      rw [he] at hlt
      exact String.lt_irrefl _ hlt

/-- Entries with strictly ascending keys are in order already. -/
theorem sort_of_ascending {entries : List (String × α)}
    (h : (entries.map Prod.fst).Pairwise (· < ·)) : sort entries = entries := by
  rw [List.pairwise_map] at h
  have hsorted : (entries.mergeSort fun a b ↦ !decide (b.1 < a.1)) = entries := by
    apply List.mergeSort_of_pairwise
    apply h.imp
    intro a b hab
    simp [String.lt_asymm hab]
  rw [sort, hsorted, foldr_of_ascending h]

/-- Entries are compared by their keys. -/
private theorem compare_iff (a b : String × α) : (!decide (b.1 < a.1)) = true ↔ a.1 ≤ b.1 := by
  rw [Bool.not_eq_true', decide_eq_false_iff_not]
  exact String.not_lt

private theorem compare_trans (a b c : String × α) (hab : (!decide (b.1 < a.1)) = true)
    (hbc : (!decide (c.1 < b.1)) = true) : (!decide (c.1 < a.1)) = true :=
  (compare_iff a c).mpr (String.le_trans ((compare_iff a b).mp hab) ((compare_iff b c).mp hbc))

private theorem compare_total (a b : String × α) :
    (!decide (b.1 < a.1) || !decide (a.1 < b.1)) = true := by
  rw [Bool.or_eq_true, compare_iff, compare_iff]
  exact String.le_total ..

/-- Entries put in order have keys that do not descend. -/
private theorem pairwise_mergeSort (entries : List (String × α)) :
    (entries.mergeSort fun a b ↦ !decide (b.1 < a.1)).Pairwise fun a b ↦ a.1 ≤ b.1 :=
  (List.pairwise_mergeSort compare_trans compare_total entries).imp fun h ↦ (compare_iff ..).mp h

/-- The keys of sorted entries ascend. -/
theorem ascending_sort (entries : List (String × α)) :
    ((sort entries).map Prod.fst).Pairwise (· < ·) := by
  rw [List.pairwise_map]
  exact ascending_foldr (pairwise_mergeSort entries)

/-- Sorting makes up no entries. -/
theorem mem_of_mem_sort {entry : String × α} {entries : List (String × α)}
    (h : entry ∈ sort entries) : entry ∈ entries :=
  List.mem_mergeSort.mp (mem_of_mem_foldr h)

/-- No key is lost where entries with the same key are dropped. -/
private theorem key_mem_foldr {key : String} {entries : List (String × α)}
    (h : key ∈ entries.map Prod.fst) : key ∈ (entries.foldr keepLater []).map Prod.fst := by
  induction entries with
  | nil => exact h
  | cons first entries ih =>
    rw [List.foldr_cons]
    rw [List.map_cons, List.mem_cons] at h
    cases hkept : entries.foldr keepLater [] with
    | nil =>
      rw [hkept] at ih
      rcases h with rfl | h
      · exact List.mem_cons_self
      · exact absurd (ih h) List.not_mem_nil
    | cons next kept =>
      rw [hkept] at ih
      rw [keepLater]
      split
      · next he =>
        rcases h with rfl | h
        · exact List.mem_cons.mpr (.inl he)
        · exact ih h
      · rcases h with rfl | h
        · exact List.mem_cons_self
        · exact List.mem_cons_of_mem _ (ih h)

/-- Sorting keeps each key. -/
theorem key_mem_sort {key : String} {entries : List (String × α)} :
    key ∈ (sort entries).map Prod.fst ↔ key ∈ entries.map Prod.fst := by
  constructor
  · intro h
    obtain ⟨entry, hm, rfl⟩ := List.mem_map.mp h
    exact List.mem_map_of_mem (mem_of_mem_sort hm)
  · intro h
    obtain ⟨entry, hm, rfl⟩ := List.mem_map.mp h
    exact key_mem_foldr (List.mem_map_of_mem (List.mem_mergeSort.mpr hm))

/-- An entry is dropped before ascending ones if one of them has its key. -/
private theorem keepLater_of_mem {entry : String × α} {kept : List (String × α)}
    (hkept : kept.Pairwise fun a b ↦ a.1 < b.1) (hle : ∀ other ∈ kept, entry.1 ≤ other.1)
    (h : entry.1 ∈ kept.map Prod.fst) : keepLater entry kept = kept := by
  cases kept with
  | nil => exact absurd h List.not_mem_nil
  | cons next kept =>
    have hnext : next.1 ≤ entry.1 := by
      obtain ⟨other, ho, hkey⟩ := List.mem_map.mp h
      rcases List.mem_cons.mp ho with rfl | ho
      · exact hkey ▸ String.le_refl _
      · rw [← hkey]
        exact String.not_lt.mp (String.lt_asymm ((List.pairwise_cons.mp hkept).1 other ho))
    exact if_pos (String.le_antisymm (hle next List.mem_cons_self) hnext)

/-- An entry is kept before others if none of them has its key. -/
private theorem keepLater_of_not_mem {entry : String × α} {kept : List (String × α)}
    (h : entry.1 ∉ kept.map Prod.fst) : keepLater entry kept = entry :: kept := by
  cases kept with
  | nil => rfl
  | cons next kept => exact if_neg fun he ↦ h (List.mem_cons.mpr (.inl he))

/-- An entry whose key comes once more is the last for no key. -/
private theorem getLast?_filter_cons {entry : String × α} {entries : List (String × α)}
    (h : entry.1 ∈ entries.map Prod.fst) (key : String) :
    ((entry :: entries).filter (·.1 = key)).getLast? =
      (entries.filter (·.1 = key)).getLast? := by
  rw [List.filter_cons]
  split
  · next heq =>
    obtain ⟨other, ho, hkey⟩ := List.mem_map.mp h
    have hin : other ∈ entries.filter (·.1 = key) := List.mem_filter.mpr ⟨ho, by rwa [hkey]⟩
    obtain ⟨next, more, hfilter⟩ := List.exists_cons_of_ne_nil (List.ne_nil_of_mem hin)
    rw [hfilter, List.getLast?_cons_cons]
  · rfl

/-- Of entries whose keys do not descend the last ones for their keys are kept. -/
private theorem mem_foldr_iff {entry : String × α} {entries : List (String × α)}
    (h : entries.Pairwise fun a b ↦ a.1 ≤ b.1) : entry ∈ entries.foldr keepLater [] ↔
      (entries.filter (·.1 = entry.1)).getLast? = some entry := by
  induction entries with
  | nil => simp
  | cons first entries ih =>
    rw [List.pairwise_cons] at h
    rw [List.foldr_cons]
    by_cases hmem : first.1 ∈ entries.map Prod.fst
    · rw [keepLater_of_mem (ascending_foldr h.2) (fun other ho ↦ h.1 other (mem_of_mem_foldr ho))
        (key_mem_foldr hmem), ih h.2, getLast?_filter_cons hmem]
    · have hnot : first.1 ∉ (entries.foldr keepLater []).map Prod.fst := by
        intro hkept
        obtain ⟨other, ho, hkey⟩ := List.mem_map.mp hkept
        exact hmem (hkey ▸ List.mem_map_of_mem (mem_of_mem_foldr ho))
      rw [keepLater_of_not_mem hnot, List.mem_cons, ih h.2, List.filter_cons]
      split
      · next heq =>
        have hnone : entries.filter (·.1 = entry.1) = [] := by
          rw [List.filter_eq_nil_iff]
          intro other ho he
          have hkey := (of_decide_eq_true he).trans (of_decide_eq_true heq).symm
          exact hmem (hkey ▸ List.mem_map_of_mem ho)
        rw [hnone]
        simp [eq_comm]
      · next hne =>
        rw [or_iff_right]
        rintro rfl
        simp at hne

/-- Entries with one key stay in order where entries are put in order. -/
private theorem filter_mergeSort (key : String) (entries : List (String × α)) :
    (entries.mergeSort fun a b ↦ !decide (b.1 < a.1)).filter (·.1 = key) =
      entries.filter (·.1 = key) := by
  have hpairwise :
      (entries.filter (·.1 = key)).Pairwise fun a b ↦ (!decide (b.1 < a.1)) = true := by
    refine List.pairwise_of_forall_mem_list fun a ha b hb ↦ (compare_iff a b).mpr ?_
    have hkey : a.1 = b.1 := (of_decide_eq_true (List.mem_filter.mp ha).2).trans
      (of_decide_eq_true (List.mem_filter.mp hb).2).symm
    exact hkey ▸ String.le_refl a.1
  have hsublist := (List.sublist_mergeSort compare_trans compare_total hpairwise
    List.filter_sublist).filter (·.1 = key)
  rw [List.filter_filter] at hsublist
  simp only [Bool.and_self] at hsublist
  exact (hsublist.eq_of_length ((List.mergeSort_perm ..).filter _).length_eq.symm).symm

/-- Exactly the last entry for each key is kept. -/
theorem mem_sort_iff {entry : String × α} {entries : List (String × α)} :
    entry ∈ sort entries ↔ (entries.filter (·.1 = entry.1)).getLast? = some entry := by
  rw [sort, mem_foldr_iff (pairwise_mergeSort entries), filter_mergeSort]

/-- Sorting entries with keys of their own only changes their order. -/
theorem sort_perm {entries : List (String × α)} (h : (entries.map Prod.fst).Nodup) :
    (sort entries).Perm entries := by
  have hperm : (entries.mergeSort fun a b ↦ !decide (b.1 < a.1)).Perm entries :=
    List.mergeSort_perm ..
  have hnodup := ((hperm.map Prod.fst).nodup_iff).mpr h
  rw [List.Nodup, List.pairwise_map] at hnodup
  have hstrict : (entries.mergeSort fun a b ↦ !decide (b.1 < a.1)).Pairwise
      fun a b ↦ a.1 < b.1 := by
    apply ((pairwise_mergeSort entries).and hnodup).imp
    rintro a b ⟨hle, hne⟩
    apply Decidable.byContradiction
    intro hn
    exact hne (String.le_antisymm hle (String.not_lt.mp hn))
  rw [sort, foldr_of_ascending hstrict]
  exact hperm

/-- Entries of which the same ones are kept are sorted alike. -/
private theorem sort_ext {entries entries' : List (String × α)}
    (h : ∀ entry, entry ∈ sort entries ↔ entry ∈ sort entries') : sort entries = sort entries' := by
  have hascending := ascending_sort entries
  have hascending' := ascending_sort entries'
  rw [List.pairwise_map] at hascending hascending'
  have hne {a b : String × α} (hab : a.1 < b.1) : a ≠ b := by
    rintro rfl
    exact String.lt_irrefl _ hab
  apply List.Perm.eq_of_pairwise _ hascending hascending'
  · exact (List.perm_ext_iff_of_nodup (hascending.imp hne) (hascending'.imp hne)).mpr h
  · intro a b _ _ hab hba
    exact absurd hba (String.lt_asymm hab)

/-- Entries with keys of their own are sorted alike in whatever order they come. -/
theorem sort_eq_of_perm {entries entries' : List (String × α)}
    (h : (entries.map Prod.fst).Nodup) (hperm : entries.Perm entries') :
    sort entries = sort entries' := by
  have h' : (entries'.map Prod.fst).Nodup := (hperm.map Prod.fst).nodup_iff.mp h
  apply sort_ext
  intro entry
  rw [(sort_perm h).mem_iff, (sort_perm h').mem_iff, hperm.mem_iff]

/-- Two entries whose keys descend change places. -/
theorem sort_pair {first second : String × α} (h : second.1 < first.1) :
    sort [first, second] = [second, first] := by
  have hne : second.1 ≠ first.1 := by
    intro he
    rw [he] at h
    exact String.lt_irrefl _ h
  calc sort [first, second] = sort [second, first] :=
        (sort_eq_of_perm (by simpa using hne) (.swap ..)).symm
    _ = [second, first] := sort_of_ascending (List.pairwise_pair.mpr h)

/-- An entry whose key comes once more is dropped. -/
theorem sort_cons_of_mem {entry : String × α} {entries : List (String × α)}
    (h : entry.1 ∈ entries.map Prod.fst) : sort (entry :: entries) = sort entries := by
  apply sort_ext
  intro other
  rw [mem_sort_iff, mem_sort_iff, getLast?_filter_cons h]

end ScriptedBolt.Entries
