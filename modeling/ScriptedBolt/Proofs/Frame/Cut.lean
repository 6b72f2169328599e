import ScriptedBolt.Proofs.Frame.Reading

/-!
# Frames that are cut off

What a reader makes of a source that ends before a frame does. If not a byte of the frame is there,
the source has ended where a frame could start, and nothing is read. Anywhere else, in a length, in
a chunk or before the end, the frame is cut.
-/

namespace ScriptedBolt.Frame

/-- Whether the first `cut` bytes of frames in a row end with `inside` bytes of the frame at an
index. -/
structure CutAt (frames : List Bytes) (cut index inside : Nat) : Prop where
  cut_eq : cut = (frames.take index).flatten.length + inside
  inside_lt : ∃ frame, frames[index]? = some frame ∧ inside < frame.length

private theorem CutAt.lt_of_index_lt {frames : List Bytes} {cut index inside later : Nat}
    (h : CutAt frames cut index inside) (hlt : index < later) :
    cut < (frames.take later).flatten.length := by
  obtain ⟨hcut, frame, hframe, hinside⟩ := h
  obtain ⟨between, hbetween⟩ := List.take_prefix_take_left (l := frames) (Nat.succ_le_of_lt hlt)
  have htake : frames.take (index + 1) = frames.take index ++ [frame] := by
    rw [List.take_add_one, hframe, Option.toList_some]
  rw [← hbetween, htake]
  simp only [List.flatten_append, List.length_append, List.flatten_singleton]
  omega

/-- Frames are cut in one place. -/
theorem CutAt.unique {frames : List Bytes} {cut index inside index' inside' : Nat}
    (h : CutAt frames cut index inside) (h' : CutAt frames cut index' inside') :
    index = index' ∧ inside = inside' := by
  have hcut := h.cut_eq
  have hcut' := h'.cut_eq
  rcases Nat.lt_trichotomy index index' with hlt | rfl | hlt
  · have := h.lt_of_index_lt hlt
    omega
  · exact ⟨rfl, by omega⟩
  · have := h'.lt_of_index_lt hlt
    omega

/-- A beginning that is long enough starts with what the whole starts with. -/
theorem exists_behind {ready missing front rest : Bytes} (h : ready ++ missing = front ++ rest)
    (hle : front.length ≤ ready.length) :
    ∃ behind, ready = front ++ behind ∧ behind ++ missing = rest := by
  have hready : ready <+: front ++ rest := h ▸ List.prefix_append ready missing
  obtain ⟨behind, rfl⟩ :=
    List.prefix_of_prefix_length_le (List.prefix_append front rest) hready hle
  rw [List.append_assoc] at h
  exact ⟨behind, rfl, List.append_cancel_left h⟩

variable {limit count size n : Nat} {chunks : List Bytes} {s rest : Source}

/-! ### Lengths -/

/-- The end of the source cuts a frame. -/
theorem cutBy_stop (h : s.stop? = none) : cutBy s.stop = .protocol .frameCut := by
  rw [Source.stop, h]
  rfl

/-- Where a frame could start, the source may end. -/
theorem readLength_of_nil (hstop : s.stop? = none) (h : s.ready = []) :
    ∃ rest, readLength true s = (.ok none, rest) := by
  obtain ⟨rest, hb⟩ := Source.readByte_of_nil h
  rw [hstop] at hb
  exact ⟨rest, by simp only [readLength, ↓reduceIte, hb]; rfl⟩

/-- A source that ends in a length cuts the frame. -/
theorem readLength_of_cut {atStart : Bool} (hstop : s.stop? = none) (h : s.ready.length < 2)
    (hne : atStart = true → s.ready ≠ []) :
    ∃ rest, readLength atStart s = (.error (.protocol .frameCut), rest) := by
  unfold readLength
  cases atStart with
  | true =>
    obtain ⟨high, hready⟩ : ∃ high, s.ready = [high] := by
      rw [← List.length_eq_one_iff]
      have := List.length_pos_iff.mpr (hne rfl)
      omega
    obtain ⟨s', hb, hready', hstop'⟩ := Source.readByte_of_cons hready
    obtain ⟨rest, he⟩ := Source.readExact_of_lt (s := s') (n := 1) (by simp [hready'])
    exact ⟨rest, by simp [hb, he, cutBy_stop (hstop'.trans hstop)]⟩
  | false =>
    obtain ⟨rest, he⟩ := Source.readExact_of_lt h
    exact ⟨rest, by simp [he, cutBy_stop hstop]⟩

/-! ### Steps of a reader -/

/-- Where a frame could start and the source ends, nothing is read. -/
theorem readChunks_of_none (h : readLength true s = (.ok none, rest)) :
    readChunks limit count [] size s = ⟨.ok none, count, rest⟩ := by
  rw [readChunks_eq, List.isEmpty_nil, h]

private theorem readChunks_of_error {e : Error}
    (h : readLength chunks.isEmpty s = (.error e, rest)) :
    (readChunks limit count chunks size s).result = .error e := by
  rw [readChunks_eq, h]

private theorem readChunks_of_fault {f : Fault} {after : Source}
    (h : readLength chunks.isEmpty s = (.ok (some n), rest)) (hn : 0 < n)
    (hlim : size + n ≤ limit) (hx : rest.readExact n = (.error f, after)) :
    (readChunks limit count chunks size s).result = .error (cutBy f) := by
  obtain ⟨n, rfl⟩ := Nat.exists_eq_succ_of_ne_zero (Nat.ne_of_gt hn)
  rw [readChunks_eq, h]
  dsimp only
  rw [if_neg (Nat.not_lt_of_le hlim), hx]

/-! ### Whole frames -/

/-- A reader of chunks that are cut off finds the frame cut, unless it holds none and not a byte is
there. -/
private theorem readChunks_of_cut (limit count : Nat) {more : List Bytes}
    (hall : ∀ chunk ∈ more, IsChunk chunk) :
    ∀ (chunks : List Bytes) (size : Nat) (s : Source) (missing : Bytes), missing ≠ [] →
      s.ready ++ missing = chunkBytes more ++ [0, 0] → size + more.flatten.length ≤ limit →
      s.stop? = none → (readChunks limit count chunks size s).result =
        if chunks = [] ∧ s.ready = [] then .ok none else .error (.protocol .frameCut) := by
  -- With fewer than two bytes there is no length, whatever chunks are still to come.
  have short (chunks : List Bytes) (size : Nat) (s : Source) (hstop : s.stop? = none)
      (hlt : s.ready.length < 2) : (readChunks limit count chunks size s).result =
        if chunks = [] ∧ s.ready = [] then .ok none else .error (.protocol .frameCut) := by
    split
    · next h =>
      obtain ⟨rfl, hready⟩ := h
      obtain ⟨rest, hl⟩ := readLength_of_nil hstop hready
      rw [readChunks_of_none hl]
    · next h =>
      have hne : chunks.isEmpty = true → s.ready ≠ [] :=
        fun hempty hready ↦ h ⟨List.isEmpty_iff.mp hempty, hready⟩
      obtain ⟨rest, hl⟩ := readLength_of_cut hstop hlt hne
      exact readChunks_of_error hl
  induction more with
  | nil =>
    intro chunks size s missing hne hready _ hstop
    have hlen := congrArg List.length hready
    have hpos := List.length_pos_iff.mpr hne
    simp only [chunkBytes, List.length_append, List.length_cons, List.length_nil] at hlen
    exact short chunks size s hstop (by omega)
  | cons chunk more ih =>
    intro chunks size s missing hne hready hlim hstop
    obtain ⟨hpos, hle⟩ := hall chunk List.mem_cons_self
    by_cases hlt : s.ready.length < 2
    · exact short chunks size s hstop hlt
    rw [if_neg (fun h ↦ hlt (by rw [h.2]; decide))]
    rw [chunkBytes, List.append_assoc, List.append_assoc] at hready
    obtain ⟨behind, hs, hbehind⟩ := exists_behind hready (by rw [Bytes.length_ofNat]; omega)
    obtain ⟨s₁, hl, hready₁, hstop₁⟩ := readLength_of_ready chunks.isEmpty hle hs
    rw [List.flatten_cons, List.length_append] at hlim
    by_cases hcut : behind.length < chunk.length
    · obtain ⟨rest, hx⟩ := Source.readExact_of_lt (s := s₁) (n := chunk.length) (by rwa [hready₁])
      rw [readChunks_of_fault hl hpos (by omega) hx, cutBy_stop (hstop₁.trans hstop)]
    · have hle' : chunk.length ≤ s₁.ready.length := by rw [hready₁]; omega
      obtain ⟨after, rfl, hafter⟩ := exists_behind hbehind (Nat.le_of_not_lt hcut)
      obtain ⟨s₂, hx, hready₂, hstop₂⟩ := Source.readExact_of_le hle'
      rw [hready₁, List.take_left] at hx
      rw [hready₁, List.drop_left] at hready₂
      have hmore := ih (fun c hc ↦ hall c (List.mem_cons_of_mem _ hc)) (chunk :: chunks)
        (size + chunk.length) s₂ missing hne (hready₂ ▸ hafter) (by omega)
        (hstop₂.trans (hstop₁.trans hstop))
      rw [if_neg (fun h ↦ List.cons_ne_nil _ _ h.1)] at hmore
      rw [readChunks_of_chunk hl hpos (by omega) hx, hmore]

/-- When a part of the frame of a payload is ready, and no keep-alive before it, the frame is cut;
or nothing is read if not a byte of it is there. -/
theorem read_of_cut {limit chunkSize : Nat} {s : Source} {payload missing : Bytes}
    (hlim : payload.length ≤ limit) (hne : missing ≠ [])
    (hready : s.ready ++ missing = ofPayload chunkSize payload) (hstop : s.stop? = none) :
    (read limit s).result = if s.ready = [] then .ok none else .error (.protocol .frameCut) := by
  obtain ⟨chunks, hall, rfl, hout⟩ := ofPayload_eq chunkSize payload
  have hcut := readChunks_of_cut limit 0 (fun chunk hc ↦ isChunk_of_le (hall chunk hc)) [] 0 s
    missing hne (hready.trans hout) (by rwa [Nat.zero_add]) hstop
  rw [read, hcut]
  simp only [true_and]

end ScriptedBolt.Frame
