import ScriptedBolt.Proofs.PackStream.Recognition

/-!
# Where a value ends

The bytes of a value tell where they end. What follows them is not looked at, so that a value is
read alike before any other bytes, and on every level that is less deep (`decodeNext_of_le_depth`).
If the last of them are missing, the reader runs out of bytes wherever the cut is, and says so
(`Reader.Lacks`); a size that is read before its items are there changes nothing in that.
-/

namespace ScriptedBolt.PackStream

namespace Reader

variable {α β : Type} {bs : Bytes}

/-- Whether a reader finds that there are fewer bytes than it needs. -/
def Lacks (read : Reader α) (bytes : Bytes) : Prop :=
  ∃ needed got left, got < needed ∧ read bytes = (.error (.truncated needed got), left)

/-- Reading on lacks what the first reader does. -/
theorem Lacks.bind {read : Reader α} {next : α → Reader β} (h : read.Lacks bs) :
    (bind read next).Lacks bs := by
  obtain ⟨needed, got, left, hlt, hread⟩ := h
  exact ⟨needed, got, left, hlt, by rw [Reader.bind, hread]⟩

/-- There is no first byte of nothing. -/
theorem lacks_byte : byte.Lacks [] := ⟨1, 0, [], Nat.one_pos, rfl⟩

/-- A number of bytes is not taken where there are fewer. -/
theorem lacks_take {n : Nat} (h : bs.length < n) : (take n).Lacks bs := by
  refine ⟨n, bs.length, bs, h, if_neg ?_⟩
  rw [Bytes.holds_iff]
  exact Nat.not_le_of_lt h

/-- The check for a number of bytes fails where there are fewer. -/
theorem lacks_need {n : Nat} (h : bs.length < n) : (need n).Lacks bs := by
  refine ⟨n, bs.length, bs, h, if_neg ?_⟩
  rw [Bytes.holds_iff]
  exact Nat.not_le_of_lt h

/-- A string is not read from fewer bytes than it has. -/
theorem lacks_string {n : Nat} (h : bs.length < n) : (string n).Lacks bs := by
  obtain ⟨needed, got, left, hlt, htake⟩ := lacks_take h
  exact ⟨needed, got, left, hlt, by rw [string, htake]⟩

/-- Whether the check for enough bytes passes or not, what comes after it lacks some. -/
theorem lacks_bind_need {n : Nat} {next : Unit → Reader β} (h : (next ()).Lacks bs) :
    (bind (need n) next).Lacks bs := by
  rcases Nat.lt_or_ge bs.length n with hlt | hle
  · exact (lacks_need hlt).bind
  · rwa [Lacks, bind, need_of_le hle]

/-- Of a marker and the bytes that belong to it the last ones are missing. -/
theorem lacks_after_byte {next : UInt8 → Reader α} {marker : UInt8} {digits front more : Bytes}
    (h : marker :: digits = front ++ more) (hmore : more ≠ [])
    (hnext : ∀ bs : Bytes, bs.length < digits.length → (next marker).Lacks bs) :
    (bind byte next).Lacks front := by
  cases front with
  | nil => exact lacks_byte.bind
  | cons first front =>
    rw [List.cons_append, List.cons.injEq] at h
    obtain ⟨rfl, rfl⟩ := h
    apply hnext front
    rw [List.length_append]
    exact Nat.lt_add_of_pos_right (List.length_pos_iff.mpr hmore)

variable {item : Reader Value} {front more : Bytes}

/-- The header of a string, a list or a map is cut. -/
theorem lacks_sizeHeader {tiny wide : UInt8} {next : Nat → Reader Value} {n : Nat}
    (hkind : (tiny, wide, next) = (0x80, 0xD0, string) ∨
      (tiny, wide, next) = (0x90, 0xD4, list item) ∨
      (tiny, wide, next) = (0xA0, 0xD8, mapOf item))
    (h : SizeHeader tiny wide (front ++ more) n) (hmore : more ≠ []) :
    (bind byte (afterMarker item)).Lacks front := by
  generalize hheader : front ++ more = header at h
  have hsize (width : Nat) (bs : Bytes) (hlt : bs.length < (Bytes.ofNat width n).length) :
      (bind (size width) next).Lacks bs :=
    (lacks_take (Bytes.length_ofNat width n ▸ hlt)).bind.bind
  simp only [Prod.mk.injEq] at hkind
  cases h with
  | inMarker hn => exact lacks_after_byte hheader.symm hmore fun bs hlt ↦ absurd hlt (by simp)
  | oneByte hn =>
    rcases hkind with ⟨rfl, rfl, rfl⟩ | ⟨rfl, rfl, rfl⟩ | ⟨rfl, rfl, rfl⟩ <;>
      exact lacks_after_byte hheader.symm hmore (hsize 1)
  | twoBytes hn =>
    rcases hkind with ⟨rfl, rfl, rfl⟩ | ⟨rfl, rfl, rfl⟩ | ⟨rfl, rfl, rfl⟩ <;>
      exact lacks_after_byte hheader.symm hmore (hsize 2)
  | fourBytes hn =>
    rcases hkind with ⟨rfl, rfl, rfl⟩ | ⟨rfl, rfl, rfl⟩ | ⟨rfl, rfl, rfl⟩ <;>
      exact lacks_after_byte hheader.symm hmore (hsize 4)

/-- The header of a structure is cut. -/
theorem lacks_structureHeader {n : Nat} (h : StructureHeader (front ++ more) n)
    (hmore : more ≠ []) : (bind byte (afterMarker item)).Lacks front := by
  generalize hheader : front ++ more = header at h
  have hsize (width : Nat) (bs : Bytes) (hlt : bs.length < (Bytes.ofNat width n).length) :
      (bind (size width) (struct item)).Lacks bs :=
    (lacks_take (Bytes.length_ofNat width n ▸ hlt)).bind.bind
  cases h with
  | inMarker hn => exact lacks_after_byte hheader.symm hmore fun bs hlt ↦ absurd hlt (by simp)
  | oneByte hn => exact lacks_after_byte hheader.symm hmore (hsize 1)
  | twoBytes hn => exact lacks_after_byte hheader.symm hmore (hsize 2)

end Reader

/-! ### Cuts -/

/-- A cut falls into what stands first, or into what stands behind it. -/
private theorem cut_cases {first second front more : Bytes}
    (h : first ++ second = front ++ more) :
    (∃ missing, missing ≠ [] ∧ first = front ++ missing) ∨
      ∃ back, front = first ++ back ∧ second = back ++ more := by
  rcases List.append_eq_append_iff.mp h with ⟨back, hfront, hsecond⟩ | ⟨missing, hfirst, hmore⟩
  · exact .inr ⟨back, hfront, hsecond⟩
  · by_cases hnil : missing = []
    · subst hnil
      exact .inr ⟨[], by rw [hfirst, List.append_nil, List.append_nil], hmore.symm⟩
    · exact .inl ⟨missing, hnil, hfirst⟩

/-- A scalar that is cut lacks bytes. -/
private theorem lacks_of_scalar {item : Reader Value} {bytes front more : Bytes} {v : Value}
    (h : Scalar bytes v) (hcut : bytes = front ++ more) (hmore : more ≠ []) :
    (Reader.bind Reader.byte (Reader.afterMarker item)).Lacks front := by
  have hwidth {marker : UInt8} {digits : Bytes} {width : Nat} {f : Bytes → Value}
      (hdigits : digits.length = width) (hcut : marker :: digits = front ++ more)
      (hread : Reader.afterMarker item marker = Reader.map f (Reader.take width)) :
      (Reader.bind Reader.byte (Reader.afterMarker item)).Lacks front := by
    apply Reader.lacks_after_byte hcut hmore
    intro bs hlt
    rw [hread]
    exact (Reader.lacks_take (hdigits ▸ hlt)).bind
  cases h with
  | null | boolean | tiny | tinyNegative =>
    exact Reader.lacks_after_byte hcut hmore fun bs hlt ↦ absurd hlt (by simp)
  | @integer marker digits h =>
    simp only [integerMarkers, List.mem_cons, Prod.mk.injEq, List.not_mem_nil, or_false] at h
    rcases h with ⟨rfl, hlen⟩ | ⟨rfl, hlen⟩ | ⟨rfl, hlen⟩ | ⟨rfl, hlen⟩ <;>
      exact hwidth hlen hcut rfl
  | float hlen => exact hwidth hlen hcut rfl
  | @string header text h =>
    rcases cut_cases hcut with ⟨missing, hmissing, rfl⟩ | ⟨back, rfl, htext⟩
    · exact Reader.lacks_sizeHeader (.inl rfl) h hmissing
    · rw [Reader.Lacks, Reader.afterMarker_sizeHeader (.inl rfl) h]
      apply Reader.lacks_string
      rw [htext, List.length_append]
      exact Nat.lt_add_of_pos_right (List.length_pos_iff.mpr hmore)

mutual

/-- Bytes that stand for a value lack some if the last of them are missing. -/
theorem lacks_of_denotes {depth : Nat} {bytes : Bytes} {v : Value} :
    Denotes depth bytes v → ∀ front more, bytes = front ++ more → more ≠ [] →
      (decodeNext depth).Lacks front
  | .scalar hd h, front, more, hcut, hmore => by
    rw [decodeNext_of_le hd]
    exact lacks_of_scalar h hcut hmore
  | @Denotes.list _ header body items hd h hb, front, more, hcut, hmore => by
    rw [decodeNext_of_le hd]
    rcases cut_cases hcut with ⟨missing, hmissing, rfl⟩ | ⟨back, rfl, hbody⟩
    · exact Reader.lacks_sizeHeader (.inr (.inl rfl)) h hmissing
    · rw [Reader.Lacks, Reader.afterMarker_sizeHeader (.inr (.inl rfl)) h]
      exact Reader.lacks_bind_need (lacks_of_denoteItems hb [] back more hbody hmore).bind
  | @Denotes.map _ header body entries hd h hb hk, front, more, hcut, hmore => by
    rw [decodeNext_of_le hd]
    rcases cut_cases hcut with ⟨missing, hmissing, rfl⟩ | ⟨back, rfl, hbody⟩
    · exact Reader.lacks_sizeHeader (.inr (.inr rfl)) h hmissing
    · rw [Reader.Lacks, Reader.afterMarker_sizeHeader (.inr (.inr rfl)) h]
      exact Reader.lacks_bind_need
        (lacks_of_denoteEntries hb [] ∅ back more hk (by simp) hbody hmore).bind
  | @Denotes.struct _ header body tag fields hd h hb, front, more, hcut, hmore => by
    rw [decodeNext_of_le hd]
    rcases cut_cases hcut with ⟨missing, hmissing, rfl⟩ | ⟨back, rfl, hbody⟩
    · exact Reader.lacks_structureHeader h hmissing
    · rw [Reader.Lacks, Reader.afterMarker_structureHeader h]
      cases back with
      | nil => exact Reader.lacks_byte.bind
      | cons first back =>
        rw [List.cons_append, List.cons.injEq] at hbody
        obtain ⟨rfl, hbody⟩ := hbody
        exact Reader.lacks_bind_need (lacks_of_denoteItems hb [] back more hbody hmore).bind

/-- Bytes that stand for items lack some if the last of them are missing. -/
theorem lacks_of_denoteItems {depth : Nat} {bytes : Bytes} {vs : List Value} :
    DenoteItems depth bytes vs → ∀ before front more, bytes = front ++ more → more ≠ [] →
      (Reader.items (decodeNext depth) before vs.length).Lacks front
  | .nil, before, front, more, hcut, hmore => absurd (List.append_eq_nil_iff.mp hcut.symm).2 hmore
  | @DenoteItems.cons _ item items v vs h hs, before, front, more, hcut, hmore => by
    rw [List.length_cons]
    rcases cut_cases hcut with ⟨missing, hmissing, hitem⟩ | ⟨back, rfl, hitems⟩
    · obtain ⟨needed, got, left, hlt, hread⟩ := lacks_of_denotes h front missing hitem hmissing
      exact ⟨needed, got, left, hlt, by simp only [Reader.items, hread]⟩
    · have hlater := lacks_of_denoteItems hs (v :: before) back more hitems hmore
      simp only [Reader.Lacks, Reader.items, decodeNext_of_denotes h back]
      exact hlater

/-- Bytes that stand for entries with keys of their own lack some if the last of them are missing.
-/
theorem lacks_of_denoteEntries {depth : Nat} {bytes : Bytes} {es : List (String × Value)} :
    DenoteEntries depth bytes es → ∀ before seen front more, (es.map Prod.fst).Nodup →
      (∀ key ∈ es.map Prod.fst, seen.contains key = false) → bytes = front ++ more → more ≠ [] →
      (Reader.entries (decodeNext depth) before seen es.length).Lacks front
  | .nil, before, seen, front, more, _, _, hcut, hmore =>
    absurd (List.append_eq_nil_iff.mp hcut.symm).2 hmore
  | @DenoteEntries.cons _ key value entries k v es hk hv hs, before, seen, front, more, hnodup,
      hseen, hcut, hmore => by
    rw [List.map_cons, List.nodup_cons] at hnodup
    have hnew : seen.contains k = false := hseen k (by simp)
    rw [List.append_assoc] at hcut
    rw [List.length_cons]
    rcases cut_cases hcut with ⟨missing, hmissing, hkey⟩ | ⟨back, rfl, hback⟩
    · obtain ⟨needed, got, left, hlt, hread⟩ := lacks_of_denotes hk front missing hkey hmissing
      exact ⟨needed, got, left, hlt, by simp only [Reader.entries, hread]⟩
    simp only [Reader.Lacks, Reader.entries, decodeNext_of_denotes hk back]
    rcases cut_cases hback with ⟨missing, hmissing, hvalue⟩ | ⟨back, rfl, hentries⟩
    · obtain ⟨needed, got, left, hlt, hread⟩ := lacks_of_denotes hv back missing hvalue hmissing
      exact ⟨needed, got, left, hlt, by simp only [hread]⟩
    · have hseen' : ∀ key ∈ es.map Prod.fst, (seen.insert k).contains key = false :=
        Reader.unseen_insert hnodup.1 fun key hmem ↦ hseen key (List.mem_cons_of_mem _ hmem)
      have hlater := lacks_of_denoteEntries hs ((k, v) :: before) (seen.insert k) back more
        hnodup.2 hseen' hentries hmore
      simp only [decodeNext_of_denotes hv back, hnew]
      exact hlater

end

/-! ### Levels -/

mutual

/-- Bytes stand for the same value on every level that is less deep. -/
theorem Denotes.of_le {depth depth' : Nat} (hle : depth' ≤ depth) {bytes : Bytes} {v : Value} :
    Denotes depth bytes v → Denotes depth' bytes v
  | .scalar hd h => .scalar (Nat.le_trans hle hd) h
  | .list hd h hb => .list (Nat.le_trans hle hd) h (hb.of_le (Nat.succ_le_succ hle))
  | .map hd h hb hk => .map (Nat.le_trans hle hd) h (hb.of_le (Nat.succ_le_succ hle)) hk
  | .struct hd h hb => .struct (Nat.le_trans hle hd) h (hb.of_le (Nat.succ_le_succ hle))

/-- Bytes stand for the same items on every level that is less deep. -/
theorem DenoteItems.of_le {depth depth' : Nat} (hle : depth' ≤ depth) {bytes : Bytes}
    {vs : List Value} : DenoteItems depth bytes vs → DenoteItems depth' bytes vs
  | .nil => .nil
  | .cons h hs => .cons (h.of_le hle) (hs.of_le hle)

/-- Bytes stand for the same entries on every level that is less deep. -/
theorem DenoteEntries.of_le {depth depth' : Nat} (hle : depth' ≤ depth) {bytes : Bytes}
    {es : List (String × Value)} : DenoteEntries depth bytes es → DenoteEntries depth' bytes es
  | .nil => .nil
  | .cons hk hv hs => .cons (hk.of_le hle) (hv.of_le hle) (hs.of_le hle)

end

/-- A value is read from the bytes that were taken for it whatever follows them, on every level that
is not deeper, and the same bytes are taken. -/
theorem decodeNext_of_le_depth {depth : Nat} {bytes rest : Bytes} {v : Value}
    (h : decodeNext depth bytes = (.ok v, rest)) :
    ∃ front, bytes = front ++ rest ∧ ∀ depth' rest', depth' ≤ depth →
      decodeNext depth' (front ++ rest') = (.ok v, rest') := by
  obtain ⟨front, hbytes, hfront⟩ := decodeNext_eq_ok_iff.mp h
  exact ⟨front, hbytes, fun depth' rest' hle ↦ decodeNext_of_denotes (hfront.of_le hle) rest'⟩

/-- Where the bytes of a value end is always noticed. If they are cut anywhere, bytes are missing,
and if others follow them, these are left over. A value that is read from the front of a sequence is
read from the same bytes whatever follows them, on every level that is not deeper. -/
theorem decode_extent :
    (∀ bytes v, decode bytes = .ok v →
      (∀ front more, bytes = front ++ more → more ≠ [] →
        ∃ needed got, got < needed ∧ decode front = .error (.truncated needed got)) ∧
      ∀ more, more ≠ [] → decode (bytes ++ more) = .error (.trailing more.length)) ∧
    ∀ depth bytes v rest, decodeNext depth bytes = (.ok v, rest) →
      ∃ front, bytes = front ++ rest ∧ ∀ depth' rest', depth' ≤ depth →
        decodeNext depth' (front ++ rest') = (.ok v, rest') := by
  refine ⟨?_, fun depth bytes v rest ↦ decodeNext_of_le_depth⟩
  intro bytes v h
  have hdenotes := decode_eq_ok_iff.mp h
  constructor
  · intro front more hcut hmore
    obtain ⟨needed, got, left, hlt, hread⟩ := lacks_of_denotes hdenotes front more hcut hmore
    exact ⟨needed, got, hlt, by rw [decode, hread]⟩
  · intro more hmore
    obtain ⟨first, more, rfl⟩ := List.exists_cons_of_ne_nil hmore
    rw [decode, decodeNext_of_denotes hdenotes]

private theorem wide_denotes (depth : Nat) (h : depth < maxDepth) :
    Denotes depth [0xD8, 1, 0x81, 0x61, 0xC9, 0, 1] (.map [("a", .integer 1)]) := by
  have hkey : Scalar [0x81, 0x61] (.string "a") := scalar_shortString "a" (by decide)
  have hinteger : Scalar [0xC9, 0, 1] (.integer 1) := scalar_integer (by decide) (by decide)
  have hentries : DenoteEntries (depth + 1) [0x81, 0x61, 0xC9, 0, 1] [("a", .integer 1)] :=
    .cons (.scalar h hkey) (.scalar h hinteger) .nil
  have hmap : Value.ofEntries [("a", .integer 1)] = .map [("a", .integer 1)] :=
    congrArg Value.map (Entries.sort_of_ascending (List.pairwise_singleton ..))
  rw [← hmap]
  exact .map (Nat.le_of_lt h) (.oneByte (n := 1) (by decide)) hentries (by decide)

/-- A map with a wide header and an integer that is wider than it has to be: cut inside of the
integer, it lacks bytes; and it is read on the deepest level that has room for it. -/
theorem decode_extent_wide :
    decode [0xD8, 1, 0x81, 0x61, 0xC9, 0, 1] = .ok (.map [("a", .integer 1)]) ∧
      (∃ needed got, got < needed ∧
        decode [0xD8, 1, 0x81, 0x61, 0xC9, 0] = .error (.truncated needed got)) ∧
      decode [0xD8, 1, 0x81, 0x61, 0xC9, 0, 1, 0xC0] = .error (.trailing 1) ∧
      decodeNext 63 [0xD8, 1, 0x81, 0x61, 0xC9, 0, 1, 0xC0] =
        (.ok (.map [("a", .integer 1)]), [0xC0]) ∧
      ∃ front, [0xD8, 1, 0x81, 0x61, 0xC9, 0, 1, 0xC0] = front ++ [0xC0] ∧
        decodeNext 0 (front ++ [0xFF]) = (.ok (.map [("a", .integer 1)]), [0xFF]) := by
  have hread := decode_eq_ok_iff.mpr (wide_denotes 0 (by decide))
  have hnext := decodeNext_of_denotes (wide_denotes 63 (by decide)) [0xC0]
  obtain ⟨hcut, hlonger⟩ := decode_extent.1 _ _ hread
  obtain ⟨front, hfront, hlevels⟩ := decode_extent.2 _ _ _ _ hnext
  exact ⟨hread, hcut [0xD8, 1, 0x81, 0x61, 0xC9, 0] [1] rfl (by decide),
    hlonger [0xC0] (by decide), hnext, front, hfront, hlevels 0 [0xFF] (by decide)⟩

end ScriptedBolt.PackStream
