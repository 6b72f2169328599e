import ScriptedBolt.Handshake

/-!
# The version chosen

A version that a script asks for is chosen if it is offered. Otherwise the supported versions are
tried in their order, which descends, so the version chosen is the greatest supported one among
those offered (`negotiate_none_iff`). Nothing but which versions are offered enters into the choice;
their order only shows where an error lists them (`Alike`).
-/

namespace ScriptedBolt

namespace Version

/-- Whether a version is the greatest supported one of some versions. -/
structure Greatest (offered : List Version) (v : Version) : Prop where
  mem : v ∈ offered
  supported : v.isSupported = true
  greatest : ∀ w ∈ offered, w.isSupported = true → w = v ∨ w.before v = true

/-- Of two versions at most one comes before the other. -/
theorem before_asymm {v w : Version} (h : v.before w = true) : w.before v = false := by
  simp only [before, Bool.or_eq_true, Bool.and_eq_true, decide_eq_true_eq, beq_iff_eq,
    UInt8.lt_iff_toNat_lt, ← UInt8.toNat_inj] at h
  simp only [before, Bool.or_eq_false_iff, Bool.and_eq_false_iff, decide_eq_false_iff_not,
    beq_eq_false_iff_ne, ne_eq, UInt8.lt_iff_toNat_lt, ← UInt8.toNat_inj]
  omega

/-- The greatest version is determined. -/
theorem Greatest.unique {offered : List Version} {v w : Version} (hv : Greatest offered v)
    (hw : Greatest offered w) : v = w := by
  rcases hw.greatest v hv.mem hv.supported with heq | hvw
  · exact heq
  · rcases hv.greatest w hw.mem hw.supported with heq | hwv
    · exact heq.symm
    · rw [before_asymm hvw] at hwv
      exact absurd hwv Bool.false_ne_true

/-- The supported versions descend. -/
theorem supported_descending : supported.Pairwise fun v w ↦ w.before v = true := by decide

/-- The first supported version that is offered is the greatest. -/
theorem greatest_of_find? {offered : List Version} {v : Version}
    (h : supported.find? offered.contains = some v) : Greatest offered v := by
  obtain ⟨hmem, higher, lower, hsplit, hhigher⟩ := List.find?_eq_some_iff_append.mp h
  have hdescending := supported_descending
  rw [hsplit] at hdescending
  have hlower := (List.pairwise_cons.mp (List.pairwise_append.mp hdescending).2.1).1
  constructor
  · exact List.contains_iff_mem.mp hmem
  · rw [isSupported, hsplit]
    simp
  · intro w hw hsupported
    rw [isSupported, hsplit, List.contains_iff_mem, List.mem_append, List.mem_cons] at hsupported
    rcases hsupported with hhigh | heq | hlow
    · have hnot := hhigher w hhigh
      rw [List.contains_iff_mem.mpr hw] at hnot
      exact absurd hnot Bool.false_ne_true
    · exact .inl heq
    · exact .inr (hlower w hlow)

/-- It is found whenever there is one. -/
theorem find?_supported_iff {offered : List Version} {v : Version} :
    supported.find? offered.contains = some v ↔ Greatest offered v := by
  refine ⟨greatest_of_find?, ?_⟩
  intro h
  cases hfound : supported.find? offered.contains with
  | none =>
    have hnot := List.find?_eq_none.mp hfound v (List.contains_iff_mem.mp h.supported)
    exact absurd (List.contains_iff_mem.mpr h.mem) hnot
  | some w => rw [(greatest_of_find? hfound).unique h]

end Version

namespace Handshake

variable {p q : Proposals} {v : Version}

/-- The word of a version has its minor and its major number last. -/
theorem wordBytes_toWord (v : Version) : wordBytes v.toWord = [0, 0, v.minor, v.major] := by
  obtain ⟨major, minor⟩ := v
  have hmajor := major.toNat_lt
  have hminor := minor.toNat_lt
  have hword : (Version.toWord ⟨major, minor⟩).toNat = minor.toNat * 256 + major.toNat :=
    Version.toNat_toWord _
  have byte (n : Nat) (b : UInt8) (h : n % 256 = b.toNat) : UInt8.ofNat n = b := by
    apply UInt8.toNat_inj.mp
    rwa [UInt8.toNat_ofNat']
  simp only [wordBytes, hword, Bytes.ofNat]
  rw [byte _ 0, byte _ 0, byte _ minor, byte _ major]
  · omega
  · omega
  · change _ = 0
    omega
  · change _ = 0
    omega

/-- A version that is asked for is chosen if it is offered. -/
theorem negotiate_some_iff {w : Version} :
    negotiate p (some v) = .ok w ↔ w = v ∧ v ∈ p.offered := by
  rw [negotiate]
  by_cases hmem : v ∈ p.offered
  · rw [if_pos (List.contains_iff_mem.mpr hmem), Except.ok.injEq]
    exact ⟨fun h ↦ ⟨h.symm, hmem⟩, fun h ↦ h.1.symm⟩
  · rw [if_neg (mt List.contains_iff_mem.mp hmem)]
    exact ⟨nofun, fun h ↦ absurd h.2 hmem⟩

/-- Otherwise the greatest supported version that is offered is chosen. -/
theorem negotiate_none_iff : negotiate p none = .ok v ↔ Version.Greatest p.offered v := by
  rw [← Version.find?_supported_iff, negotiate]
  cases Version.supported.find? p.offered.contains with
  | none => exact ⟨nofun, nofun⟩
  | some w => rw [Except.ok.injEq, Option.some.injEq]

/-- No version is chosen only when none of those offered is supported. -/
theorem negotiate_none_error_iff :
    (∃ e, negotiate p none = .error e) ↔ ∀ v ∈ p.offered, v.isSupported = false := by
  rw [negotiate]
  cases hfound : Version.supported.find? p.offered.contains with
  | none =>
    refine ⟨fun _ v hv ↦ ?_, fun _ ↦ ⟨_, rfl⟩⟩
    rw [Bool.eq_false_iff]
    intro hsupported
    have hnot := List.find?_eq_none.mp hfound v (List.contains_iff_mem.mp hsupported)
    exact hnot (List.contains_iff_mem.mpr hv)
  | some w =>
    have hgreatest := Version.greatest_of_find? hfound
    refine ⟨fun h ↦ absurd h nofun, fun h ↦ ?_⟩
    have hnot := h w hgreatest.mem
    rw [hgreatest.supported] at hnot
    exact absurd hnot Bool.noConfusion

/-- Whether two choices are the same, but for the order in which an error lists the versions
offered. -/
inductive Alike : Except Error Version → Except Error Version → Prop
  | chosen (v : Version) : Alike (.ok v) (.ok v)
  | notOffered (v : Version) {offered offered' : List Version}
    (h : ∀ w, w ∈ offered ↔ w ∈ offered') :
    Alike (.error (.handshake (.notOffered v offered)))
      (.error (.handshake (.notOffered v offered')))
  | noneSupported {offered offered' : List Version} (h : ∀ w, w ∈ offered ↔ w ∈ offered') :
    Alike (.error (.handshake (.noneSupported offered)))
      (.error (.handshake (.noneSupported offered')))

/-- The same versions are offered by the same words; empty slots offer nothing. -/
theorem mem_offered_iff (h : ∀ word, word ≠ 0 → (word ∈ p.words ↔ word ∈ q.words)) (v : Version) :
    v ∈ p.offered ↔ v ∈ q.offered := by
  have hzero {word : UInt32} (hv : Version.ofWord? word = some v) : word ≠ 0 := by
    rintro rfl
    exact absurd hv nofun
  simp only [Proposals.offered, List.mem_filterMap]
  constructor
  · rintro ⟨word, hw, hv⟩
    exact ⟨word, (h word (hzero hv)).mp hw, hv⟩
  · rintro ⟨word, hw, hv⟩
    exact ⟨word, (h word (hzero hv)).mpr hw, hv⟩

/-- The choice depends on nothing but the set of the words proposed. -/
theorem negotiate_alike (h : ∀ word, word ≠ 0 → (word ∈ p.words ↔ word ∈ q.words))
    (fixed : Option Version) : Alike (negotiate p fixed) (negotiate q fixed) := by
  have hmem := mem_offered_iff h
  have hcontains : q.offered.contains = p.offered.contains := by
    funext v
    rw [Bool.eq_iff_iff, List.contains_iff_mem, List.contains_iff_mem, hmem]
  cases fixed with
  | none =>
    rw [negotiate, negotiate, hcontains]
    cases Version.supported.find? p.offered.contains with
    | none => exact .noneSupported hmem
    | some v => exact .chosen v
  | some v =>
    rw [negotiate, negotiate, hcontains]
    by_cases hv : p.offered.contains v = true
    · rw [if_pos hv, if_pos hv]
      exact .chosen v
    · rw [if_neg hv, if_neg hv]
      exact .notOffered v hmem

end Handshake

end ScriptedBolt
