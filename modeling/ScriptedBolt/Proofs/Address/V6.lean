import ScriptedBolt.Proofs.Address.V4

/-!
# Reading IPv6 addresses as they are written

An IPv6 address has many spellings, but it is read from the one that it is written with
(`readV6_textOfV6`). The row of zeros that is left out there is a row of zeros of the address
(`longestZeros_isZeroRow`), so filling it in again gives the same eight groups.
-/

namespace ScriptedBolt.IpAddress

variable {text rest : List Char}

/-! ### Groups -/

/-- Groups are written as the first of them, and each other behind a colon. -/
theorem toList_textOfGroups (g : UInt16) (groups : List UInt16) :
    (textOfGroups (g :: groups)).toList = Nat.toDigits 16 g.toNat ++
      groups.flatMap fun g ↦ ':' :: Nat.toDigits 16 g.toNat := by
  rw [textOfGroups, String.toList_intercalate, List.map_map, List.map_cons]
  rw [show ":".toList = [':'] from rfl, intercalate_cons, List.flatMap_map]
  simp only [Function.comp_apply, String.toList_ofList]

/-- Whether no group follows: nothing does, or two colons. -/
def EndsGroups (rest : List Char) : Prop := rest = [] ∨ ∃ more, rest = ':' :: ':' :: more

/-- Reading groups takes the number that stands next. -/
theorem readGroups_of_number {first : Bool} {limit n : Nat}
    (hlast : readAfter first ':' readV4 text = none)
    (hnext : readAfter first ':' (readNumber 16 (some 4) true 0x10000) text = some (n, rest)) :
    readGroups first (limit + 1) text =
      ((UInt16.ofNat n :: (readGroups false limit rest).1.1, (readGroups false limit rest).1.2),
        (readGroups false limit rest).2) := by
  rw [readGroups, hlast, ite_self, hnext]

/-- Reading groups ends where neither an IPv4 address nor a number stands. -/
theorem readGroups_of_none {first : Bool} {limit : Nat}
    (hlast : readAfter first ':' readV4 text = none)
    (hnext : readAfter first ':' (readNumber 16 (some 4) true 0x10000) text = none) :
    readGroups first limit text = (([], false), text) := by
  cases limit with
  | zero => rfl
  | succ limit => rw [readGroups, hlast, ite_self, hnext]

/-- The number of a group is read to the end of its digits. -/
theorem readNumber_group (g : UInt16) (hrest : digitsIn 16 rest = []) :
    readNumber 16 (some 4) true 0x10000 (Nat.toDigits 16 g.toNat ++ rest) =
      some (g.toNat, rest) := by
  refine readNumber_toDigits (by decide) (by decide) g.toNat_lt ?_ hrest
  rintro m ⟨⟩
  rw [Nat.length_toDigits_le_iff (by decide) (by decide)]
  exact g.toNat_lt

/-- No more groups are read where none follows. -/
theorem readGroups_of_endsGroups (h : EndsGroups rest) (first : Bool) (limit : Nat) :
    readGroups first limit rest = (([], false), rest) := by
  -- Neither the end of the text nor a second colon is a digit.
  have hnone {α : Type} {read : Reader α} (hread : ∀ text, digitsIn 10 text = [] →
      digitsIn 16 text = [] → read text = none) : readAfter first ':' read rest = none := by
    rcases h with rfl | ⟨more, rfl⟩
    · cases first with
      | true => exact hread [] rfl rfl
      | false => rfl
    · cases first with
      | true => exact hread (':' :: ':' :: more) rfl rfl
      | false =>
        rw [readAfter_cons]
        exact hread (':' :: more) rfl rfl
  exact readGroups_of_none (hnone fun _ hten _ ↦ readV4_of_digitsIn hten)
    (hnone fun _ _ hsixteen ↦ readNumber_of_digitsIn hsixteen)

/-- What groups are written with has no dot. -/
theorem dot_not_mem_toDigits (g : UInt16) : '.' ∉ Nat.toDigits 16 g.toNat := by
  intro hmem
  obtain ⟨d, -, hd⟩ := Text.isDigitIn_toDigits (by decide) (by decide) g.toNat _ hmem
  cases hd

/-- The groups behind the first one are read up to where none follows. -/
theorem readGroups_flatMap {groups : List UInt16} {limit : Nat} (hle : groups.length ≤ limit)
    (hdot : '.' ∉ rest) (hends : EndsGroups rest) :
    readGroups false limit ((groups.flatMap fun g ↦ ':' :: Nat.toDigits 16 g.toNat) ++ rest) =
      ((groups, false), rest) := by
  induction groups generalizing limit with
  | nil => exact readGroups_of_endsGroups hends false limit
  | cons g groups ih =>
    obtain ⟨limit, rfl⟩ : ∃ n, limit = n + 1 := ⟨limit - 1, by rw [List.length_cons] at hle; omega⟩
    rw [List.flatMap_cons, List.cons_append, List.cons_append, List.append_assoc]
    set more := (groups.flatMap fun g ↦ ':' :: Nat.toDigits 16 g.toNat) ++ rest with hmore
    have hfree : '.' ∉ Nat.toDigits 16 g.toNat ++ more := by
      simp only [hmore, List.mem_append, List.mem_flatMap, List.mem_cons, not_or, not_exists,
        not_and]
      exact ⟨dot_not_mem_toDigits g,
        fun h _ ↦ ⟨by decide, dot_not_mem_toDigits h⟩, hdot⟩
    have hcolon : digitsIn 16 more = [] := by
      cases groups with
      | nil =>
        rcases hends with rfl | ⟨_, rfl⟩
        · rfl
        · rfl
      | cons => rfl
    have hnext := readNumber_group g hcolon
    rw [readGroups_of_number (by rw [readAfter_cons, readV4_of_not_mem hfree])
      (by rw [readAfter_cons, hnext]), ih (by rw [List.length_cons] at hle; omega),
      UInt16.ofNat_toNat]

/-- A first group is read as it would be from behind a colon. -/
theorem readGroups_behind {limit : Nat} (h : (readGroups false limit (':' :: text)).1.1 ≠ []) :
    readGroups true limit text = readGroups false limit (':' :: text) := by
  cases limit with
  | zero => exact absurd rfl h
  | succ limit =>
    rw [readGroups, readAfter_true, readAfter_true]
    rw [readGroups, readAfter_cons, readAfter_cons] at h ⊢
    cases hlast : if limit = 0 then none else readV4 text with
    | some p => rfl
    | none =>
      cases hnext : readNumber 16 (some 4) true 0x10000 text with
      | some p => rfl
      | none =>
        rw [hlast, hnext] at h
        exact absurd rfl h

/-- Groups are read from their text, up to where none follows. -/
theorem readGroups_textOfGroups {groups : List UInt16} {limit : Nat} (hle : groups.length ≤ limit)
    (hdot : '.' ∉ rest) (hends : EndsGroups rest) :
    readGroups true limit ((textOfGroups groups).toList ++ rest) = ((groups, false), rest) := by
  cases groups with
  | nil => exact readGroups_of_endsGroups hends true limit
  | cons g groups =>
    have hall := readGroups_flatMap hle hdot hends
    rw [List.flatMap_cons, List.cons_append, List.cons_append] at hall
    rw [toList_textOfGroups, readGroups_behind, hall]
    rw [hall]
    exact List.cons_ne_nil g groups

/-! ### Rows of zeros -/

/-- Whether a start and a length are those of a row of zeros in groups. -/
def IsZeroRow (groups : List UInt16) (row : Nat × Nat) : Prop :=
  ∃ before after, groups = before ++ List.replicate row.2 0 ++ after ∧ before.length = row.1

/-- A row of zeros is one in more groups, too. -/
theorem IsZeroRow.append {groups : List UInt16} {row : Nat × Nat} (h : IsZeroRow groups row)
    (more : List UInt16) : IsZeroRow (groups ++ more) row := by
  obtain ⟨before, after, rfl, hlen⟩ := h
  exact ⟨before, after ++ more, by rw [List.append_assoc], hlen⟩

/-- The row that is found in groups is a row of zeros: it is the best one so far, or the row that
ends at the groups read, which each zero makes longer. -/
theorem longestZeros_isZeroRow {before : List UInt16} {run : Nat} {best : Nat × Nat}
    (hbest : IsZeroRow (before ++ List.replicate run 0) best) (groups : List UInt16) :
    IsZeroRow (before ++ List.replicate run 0 ++ groups)
      (longestZeros (before.length + run) run best groups) := by
  induction groups generalizing before run best with
  | nil => rwa [List.append_nil]
  | cons g groups ih =>
    rw [longestZeros]
    split
    · next hg =>
      have hlonger : before ++ List.replicate run 0 ++ [g] =
          before ++ List.replicate (run + 1) 0 := by
        rw [hg, List.replicate_succ', List.append_assoc]
      rw [List.append_cons, hlonger, Nat.add_sub_cancel, Nat.add_assoc]
      refine ih ?_
      split
      · exact ⟨before, [], (List.append_nil _).symm, rfl⟩
      · rw [← hlonger]
        exact hbest.append [g]
    · have hnone :
          IsZeroRow (before ++ List.replicate run 0 ++ [g] ++ List.replicate 0 0) best := by
        simpa using hbest.append [g]
      simpa [Nat.add_assoc] using ih hnone

/-! ### IPv6 -/

/-- The groups of an address make the address. -/
theorem ofGroups_toList (groups : Vector UInt16 8) : ofGroups groups.toList = groups := by
  refine Vector.ext fun i hi ↦ ?_
  rw [ofGroups, Vector.getElem_ofFn]
  simp [hi]

/-- Two colons stand for the zeros that are missing. -/
theorem readV6_gap {before after : List UInt16} {endsInV4 : Bool} (hle : before.length < 8)
    {more : List Char}
    (hbefore : readGroups true 8 text = ((before, false), ':' :: ':' :: more))
    (hafter : readGroups true (7 - before.length) more = ((after, endsInV4), rest)) :
    readV6 text = some (ofGroups
      (before ++ List.replicate (8 - before.length - after.length) 0 ++ after), rest) := by
  have hcolon (behind : List Char) : readChar ':' (':' :: behind) = some ((), behind) := by
    rw [readChar, if_pos rfl]
  simp only [readV6, hbefore, if_neg (Nat.ne_of_lt hle), hcolon, Option.bind_eq_bind,
    Option.bind_some, hafter, Bool.false_eq_true, if_false]
  rfl

/-- The groups that end in an IPv4 address are read from its text. -/
theorem readV6_mapped (octets : Vector UInt8 4) :
    readV6 ("::ffff:" ++ textOfV4 octets).toList =
      some (ofGroups ([0, 0, 0, 0, 0, 0xFFFF] ++ groupsOf octets), []) := by
  have hv4 : readV4 (textOfV4 octets).toList = some (octets, []) :=
    readV4_eq_some_iff.mpr ⟨(List.append_nil _).symm, rfl⟩
  have hlast : readGroups false 6 (':' :: (textOfV4 octets).toList) =
      ((groupsOf octets, true), []) := by
    rw [readGroups, if_neg (by decide), readAfter_cons, hv4]
  have hafter : readGroups true 7 ('f' :: 'f' :: 'f' :: 'f' :: ':' :: (textOfV4 octets).toList) =
      ((0xFFFF :: groupsOf octets, true), []) := by
    have hcolon : digitsIn 16 (':' :: (textOfV4 octets).toList) = [] := rfl
    have hnext := readNumber_group 0xFFFF hcolon
    have hnone : readV4 ('f' :: 'f' :: 'f' :: 'f' :: ':' :: (textOfV4 octets).toList) = none :=
      readV4_of_digitsIn rfl
    rw [readGroups_of_number ((readAfter_true ':' readV4 _).trans hnone)
      ((readAfter_true ':' _ _).trans hnext), hlast]
    rfl
  have htext : ("::ffff:" ++ textOfV4 octets).toList =
      ':' :: ':' :: 'f' :: 'f' :: 'f' :: 'f' :: ':' :: (textOfV4 octets).toList := by
    rw [String.toList_append]
    rfl
  have hbefore := readGroups_of_endsGroups (.inr ⟨_, htext⟩) true 8
  rw [htext] at hbefore ⊢
  rw [readV6_gap (by decide) hbefore hafter]
  rfl

/-- The octets that two groups make stand for these groups. -/
theorem groupsOf_octets (g h : UInt16) :
    groupsOf #v[UInt8.ofNat (g.toNat / 256), UInt8.ofNat g.toNat, UInt8.ofNat (h.toNat / 256),
      UInt8.ofNat h.toNat] = [g, h] := by
  have hgroup (g : UInt16) :
      UInt16.ofNat ((UInt8.ofNat (g.toNat / 256)).toNat * 256 + (UInt8.ofNat g.toNat).toNat) =
        g := by
    have hlt : g.toNat / 256 < UInt8.size := Nat.div_lt_of_lt_mul g.toNat_lt
    rw [UInt8.toNat_ofNat_of_lt' hlt, UInt8.toNat_ofNat', Nat.div_add_mod', UInt16.ofNat_toNat]
  exact congrArg₂ (fun g h ↦ [g, h]) (hgroup g) (hgroup h)

/-- What is written of groups has no dot. -/
theorem dot_not_mem_textOfGroups (groups : List UInt16) : '.' ∉ (textOfGroups groups).toList := by
  cases groups with
  | nil => exact List.not_mem_nil
  | cons g groups =>
    rw [toList_textOfGroups]
    simp only [List.mem_append, List.mem_flatMap, List.mem_cons, not_or, not_exists, not_and]
    exact ⟨dot_not_mem_toDigits g, fun h _ ↦ ⟨by decide, dot_not_mem_toDigits h⟩⟩

/-- Eight groups are read from their text. -/
theorem readV6_textOfGroups {groups : List UInt16} (hlen : groups.length = 8) :
    readV6 (textOfGroups groups).toList = some (ofGroups groups, []) := by
  have hall : readGroups true 8 (textOfGroups groups).toList = ((groups, false), []) := by
    have hread := readGroups_textOfGroups (Nat.le_of_eq hlen) List.not_mem_nil (.inl rfl)
    rwa [List.append_nil] at hread
  simp only [readV6, hall, hlen, if_true]

/-- Groups that leave out a row of zeros are read from their text. -/
theorem readV6_textOfGroups_gap {before after : List UInt16} {length : Nat} (hlong : 1 < length)
    (hlen : (before ++ List.replicate length 0 ++ after).length = 8) :
    readV6 (textOfGroups before ++ "::" ++ textOfGroups after).toList =
      some (ofGroups (before ++ List.replicate length 0 ++ after), []) := by
  simp only [List.length_append, List.length_replicate] at hlen
  have hshort : before.length ≤ 8 := by omega
  have hshort' : after.length ≤ 7 - before.length := by omega
  have hdot : '.' ∉ ':' :: ':' :: (textOfGroups after).toList := by
    simpa using dot_not_mem_textOfGroups after
  have hbefore := readGroups_textOfGroups hshort hdot (.inr ⟨_, rfl⟩)
  have hafter := readGroups_textOfGroups hshort' List.not_mem_nil (.inl rfl)
  rw [List.append_nil] at hafter
  have hzeros : 8 - before.length - after.length = length := by omega
  rw [String.toList_append, String.toList_append, List.append_assoc]
  exact hzeros ▸ readV6_gap (by omega) hbefore hafter

/-- An IPv6 address is read from its text. -/
theorem readV6_textOfV6 (groups : Vector UInt16 8) :
    readV6 (textOfV6 groups).toList = some (groups, []) := by
  have hlen : groups.toList.length = 8 := Vector.length_toList
  have hnone : IsZeroRow ([] ++ List.replicate 0 0) (0, 0) := ⟨[], [], rfl, rfl⟩
  have hrow : IsZeroRow groups.toList (longestZeros 0 0 (0, 0) groups.toList) :=
    longestZeros_isZeroRow hnone groups.toList
  conv_rhs => rw [← ofGroups_toList groups]
  rw [textOfV6]
  generalize groups.toList = groups at hlen hrow ⊢
  split
  · next g h => rw [readV6_mapped, groupsOf_octets]; rfl
  · generalize longestZeros 0 0 (0, 0) groups = row at hrow ⊢
    obtain ⟨start, length⟩ := row
    obtain ⟨before, after, rfl, rfl⟩ := hrow
    dsimp only
    split
    · next hlong =>
      have hbehind : before.length + length = (before ++ List.replicate length 0).length := by
        rw [List.length_append, List.length_replicate]
      rw [hbehind, List.drop_left, List.append_assoc, List.take_left, ← List.append_assoc]
      exact readV6_textOfGroups_gap hlong hlen
    · exact readV6_textOfGroups hlen

end ScriptedBolt.IpAddress
