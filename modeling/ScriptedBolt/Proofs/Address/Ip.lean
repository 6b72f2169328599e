import ScriptedBolt.Proofs.Address.V6

/-!
# What no IP address is

No text is both an IPv4 and an IPv6 address, an IPv6 address has two colons at least
(`readV6_suffix`), and no address starts with a bracket. So what a text spells can be told from how
it looks.
-/

namespace ScriptedBolt.IpAddress

variable {text rest : List Char}

/-! ### What is no address -/

/-- What a number leaves of a text is its end. -/
theorem readNumber_suffix {radix bound n : Nat} {most : Option Nat} {padded : Bool}
    (h : readNumber radix most padded bound text = some (n, rest)) : rest <:+ text := by
  obtain ⟨ds, rfl, -⟩ := readNumber_eq_some_iff.mp h
  exact List.suffix_append ds rest

/-- What an IPv4 address leaves of a text is its end. -/
theorem readV4_suffix {octets : Vector UInt8 4} (h : readV4 text = some (octets, rest)) :
    rest <:+ text := by
  obtain ⟨rfl, -⟩ := readV4_eq_some_iff.mp h
  exact List.suffix_append _ rest

/-- What is read behind a separator takes a character more. -/
theorem readAfter_suffix {α : Type} {read : Reader α} {a : α} {first : Bool} {separator : Char}
    (hread : ∀ {text}, read text = some (a, rest) → rest <:+ text)
    (h : readAfter first separator read text = some (a, rest)) :
    rest <:+ text ∧ rest.count separator + 1 ≤ text.count separator + first.toNat := by
  cases first with
  | true =>
    have hsuffix := hread h
    exact ⟨hsuffix, Nat.add_le_add_right (hsuffix.sublist.count_le separator) 1⟩
  | false =>
    obtain ⟨behind, rfl, hbehind⟩ := readAfter_eq_some_iff.mp h
    have hsuffix := hread hbehind
    refine ⟨hsuffix.trans (List.suffix_cons _ _), ?_⟩
    rw [List.count_cons_self]
    exact Nat.add_le_add_right (hsuffix.sublist.count_le separator) 1

/-- There are no more groups than colons, but for the first group and an IPv4 address at the end,
which counts two. -/
theorem readGroups_suffix (first : Bool) (limit : Nat) (text : List Char) :
    (readGroups first limit text).2 <:+ text ∧
      (readGroups first limit text).1.1.length + (readGroups first limit text).2.count ':' ≤
        text.count ':' + first.toNat + (readGroups first limit text).1.2.toNat := by
  induction limit generalizing first text with
  | zero => exact ⟨List.suffix_rfl, by simp [readGroups]⟩
  | succ limit ih =>
    rw [readGroups]
    split
    · next octets rest hlast =>
      split at hlast
      · cases hlast
      · obtain ⟨hsuffix, hcount⟩ := readAfter_suffix readV4_suffix hlast
        refine ⟨hsuffix, ?_⟩
        simp only [groupsOf, List.length_cons, List.length_nil, Bool.toNat_true]
        omega
    · split
      · next n rest hnext =>
        obtain ⟨hsuffix, hcount⟩ := readAfter_suffix readNumber_suffix hnext
        obtain ⟨hmore, hle⟩ := ih false rest
        generalize readGroups false limit rest = found at hmore hle ⊢
        obtain ⟨⟨groups, endsInV4⟩, more⟩ := found
        refine ⟨hmore.trans hsuffix, ?_⟩
        simp only [List.length_cons, Bool.toNat_false] at hle ⊢
        omega
      · exact ⟨List.suffix_rfl, by simp⟩

/-- An IPv6 address is read from a text with two colons at least, and leaves its end. -/
theorem readV6_suffix {groups : Vector UInt16 8} (h : readV6 text = some (groups, rest)) :
    rest <:+ text ∧ 2 ≤ text.count ':' := by
  obtain ⟨hsuffix, hle⟩ := readGroups_suffix true 8 text
  rw [readV6] at h
  generalize readGroups true 8 text = found at h hsuffix hle
  obtain ⟨⟨head, endsInV4⟩, behind⟩ := found
  dsimp only at h hsuffix hle
  split at h
  · next hlen =>
    obtain ⟨-, rfl⟩ := Prod.mk.inj (Option.some.inj h)
    have hends := Bool.toNat_le endsInV4
    rw [Bool.toNat_true] at hle
    exact ⟨hsuffix, by omega⟩
  · split at h
    · cases h
    · -- Both colons of the gap are there, and the rest is behind them.
      obtain ⟨⟨_, more⟩, hfirst, h⟩ := Option.bind_eq_some_iff.mp h
      obtain ⟨⟨_, more'⟩, hsecond, h⟩ := Option.bind_eq_some_iff.mp h
      obtain rfl := readChar_eq_some_iff.mp hfirst
      obtain rfl := readChar_eq_some_iff.mp hsecond
      obtain ⟨-, rfl⟩ := Prod.mk.inj (Option.some.inj h)
      have htail := (readGroups_suffix true (7 - head.length) more').1
      refine ⟨(htail.trans ((List.suffix_cons _ _).trans (List.suffix_cons _ _))).trans hsuffix, ?_⟩
      calc
        2 ≤ (':' :: ':' :: more').count ':' := by simp
        _ ≤ text.count ':' := hsuffix.sublist.count_le ':'

/-- What starts with an IPv4 address is no IPv6 address. -/
theorem readV6_of_readV4 {octets : Vector UInt8 4} (h : readV4 text = some (octets, rest)) :
    readV6 text = none := by
  have hgroups : readGroups true 8 text = ((groupsOf octets, true), rest) := by
    rw [readGroups, if_neg (by decide), readAfter_true, h]
  simp only [readV6, hgroups, groupsOf, List.length_cons, List.length_nil, Nat.reduceAdd,
    Nat.reduceEqDiff, if_false, if_true]

/-! ### Whole texts -/

/-- What is made of a whole text is what a reader makes of it without a rest. -/
theorem whole?_eq_some_iff {α : Type} {read : Reader α} {a : α} :
    whole? read text = some a ↔ read text = some (a, []) := by
  rw [whole?]
  split
  · next heq => rw [heq, Option.some.injEq, Option.some.injEq, Prod.mk.injEq, and_iff_left rfl]
  · next hnot => exact iff_of_false nofun fun h ↦ hnot a h

/-- A text spells an IPv4 address if the reader of these takes it whole. -/
theorem ofText?_eq_v4_iff {octets : Vector UInt8 4} :
    ofText? text = some (.v4 octets) ↔ readV4 text = some (octets, []) := by
  rw [ofText?, whole?_eq_some_iff, read]
  split
  · next heq => simp [heq]
  · next heq => simp [heq]

/-- A text spells an IPv6 address if the reader of these takes it whole. -/
theorem ofText?_eq_v6_iff {groups : Vector UInt16 8} :
    ofText? text = some (.v6 groups) ↔ readV6 text = some (groups, []) := by
  rw [ofText?, whole?_eq_some_iff, read]
  split
  · next heq => simp [readV6_of_readV4 heq]
  · simp

/-- An IP address has dots and no colon, or two colons at least. -/
theorem separator_of_ofText? {ip : IpAddress} (h : ofText? text = some ip) :
    '.' ∈ text ∧ ':' ∉ text ∨ 2 ≤ text.count ':' := by
  cases ip with
  | v4 octets =>
    have hread := ofText?_eq_v4_iff.mp h
    refine .inl ⟨Decidable.byContradiction fun hdot ↦ ?_, ?_⟩
    · rw [readV4_of_not_mem hdot] at hread
      cases hread
    · obtain ⟨rfl, -⟩ := readV4_eq_some_iff.mp hread
      rw [List.append_nil]
      exact fun hmem ↦ absurd (mem_textOfV4 octets ':' hmem) (by decide)
  | v6 groups => exact .inr (readV6_suffix (ofText?_eq_v6_iff.mp h)).2

/-- No IP address starts with a bracket. -/
theorem ofText?_bracket (text : List Char) : ofText? ('[' :: text) = none := by
  have hdigits (radix : Nat) : digitsIn radix ('[' :: text) = [] := rfl
  have hv4 : readV4 ('[' :: text) = none := readV4_of_digitsIn (hdigits 10)
  have hnumber : readNumber 16 (some 4) true 0x10000 ('[' :: text) = none :=
    readNumber_of_digitsIn (hdigits 16)
  have hgroups : readGroups true 8 ('[' :: text) = (([], false), '[' :: text) :=
    readGroups_of_none hv4 hnumber
  have hv6 : readV6 ('[' :: text) = none := by
    rw [readV6, hgroups]
    rfl
  rw [ofText?, whole?, read, hv4, hv6]
  rfl

end ScriptedBolt.IpAddress
