import ScriptedBolt.Proofs.Frame.Layout
import ScriptedBolt.Proofs.Wire.Delivery

/-!
# Reading frames

A reader that gives a payload has taken the frame of that payload from the front of the source,
and no byte after it. In the other direction, when the frame of a payload is ready and the
payload is within the limit, the reader gives that payload. Both are inductions on what the
reader still has to read, with the chunks it already holds in front of the chunks to come.
-/

namespace ScriptedBolt.Frame

/-! ### Lengths -/

/-- A length that is read is the number in the first two bytes. -/
theorem bytes_of_readLength {atStart : Bool} {s rest : Source} {n : Nat}
    (h : readLength atStart s = (.ok (some n), rest)) :
    n ≤ maxChunkSize ∧ s.bytes = Bytes.ofNat 2 n ++ rest.bytes := by
  have key (header : Bytes) (hl : header.length = 2) :
      header.toNat ≤ maxChunkSize ∧ Bytes.ofNat 2 header.toNat = header := by
    have hlt := Bytes.toNat_lt header
    have heq := Bytes.ofNat_toNat header
    rw [hl] at hlt heq
    exact ⟨Nat.le_of_lt_succ hlt, heq⟩
  unfold readLength at h
  split at h
  · split at h
    · simp at h
    · simp at h
    · next high _ hb =>
      split at h
      · simp at h
      · next low _ he =>
        simp only [Prod.mk.injEq, Except.ok.injEq, Option.some.injEq] at h
        obtain ⟨rfl, rfl⟩ := h
        obtain ⟨hbytes, hlow⟩ := Source.bytes_readExact he
        obtain ⟨hle, heq⟩ := key (high :: low) (by rw [List.length_cons, hlow])
        exact ⟨hle, by rw [heq, Source.bytes_readByte hb, hbytes, List.cons_append]⟩
  · split at h
    · simp at h
    · next header _ he =>
      simp only [Prod.mk.injEq, Except.ok.injEq, Option.some.injEq] at h
      obtain ⟨rfl, rfl⟩ := h
      obtain ⟨hbytes, hl⟩ := Source.bytes_readExact he
      obtain ⟨hle, heq⟩ := key header hl
      exact ⟨hle, by rw [heq, hbytes]⟩

/-- Reading a length never brings back bytes. -/
theorem bytes_readLength_suffix (atStart : Bool) (s : Source) :
    (readLength atStart s).2.bytes <:+ s.bytes := by
  unfold readLength
  split
  · have hb := Source.bytes_readByte_suffix s
    split
    · next he => rwa [he] at hb
    · next he => rwa [he] at hb
    · next rest he =>
      rw [he] at hb
      have hr := Source.bytes_readExact_suffix 1 rest
      split
      · next hx => exact List.IsSuffix.trans (by rwa [hx] at hr) hb
      · next hx => exact List.IsSuffix.trans (by rwa [hx] at hr) hb
  · have hr := Source.bytes_readExact_suffix 2 s
    split
    · next hx => rwa [hx] at hr
    · next hx => rwa [hx] at hr

/-- A length whose two bytes are ready is read. -/
theorem readLength_of_ready (atStart : Bool) {s : Source} {n : Nat} {more : Bytes}
    (hn : n ≤ maxChunkSize) (h : s.ready = Bytes.ofNat 2 n ++ more) :
    ∃ rest, readLength atStart s = (.ok (some n), rest) ∧
      rest.ready = more ∧ rest.stop? = s.stop? := by
  have hnum : (Bytes.ofNat 2 n).toNat = n := by
    rw [Bytes.toNat_ofNat]
    exact Nat.mod_eq_of_lt (Nat.lt_succ_of_le hn)
  have hlen := Bytes.length_ofNat 2 n
  generalize Bytes.ofNat 2 n = header at h hnum hlen
  unfold readLength
  split
  · obtain ⟨high, low, rfl⟩ : ∃ high low, header = [high, low] := by
      match header, hlen with
      | [high, low], _ => exact ⟨high, low, rfl⟩
    obtain ⟨s', hb, hready, hstop⟩ := Source.readByte_of_cons h
    have hle : 1 ≤ s'.ready.length := by simp [hready]
    obtain ⟨rest, he, hready', hstop'⟩ := Source.readExact_of_le hle
    rw [hready] at he hready'
    refine ⟨rest, ?_, hready', hstop'.trans hstop⟩
    simp only [hb, he]
    rw [← hnum]
    rfl
  · have hle : 2 ≤ s.ready.length := by
      rw [h, List.length_append]
      omega
    obtain ⟨rest, he, hready, hstop⟩ := Source.readExact_of_le hle
    rw [h, ← hlen, List.take_left] at he
    rw [h, ← hlen, List.drop_left] at hready
    refine ⟨rest, ?_, hready, hstop⟩
    rw [hlen] at he
    simp only [he, hnum]

/-! ### What a reader has taken -/

/-- A reader that ends with a payload has taken the chunks that it did not hold before. -/
private theorem bytes_of_readChunks (limit count : Nat) (chunks : List Bytes) (size : Nat)
    (s : Source) (hsize : size = chunks.flatten.length) {payload : Bytes}
    (h : (readChunks limit count chunks size s).result = .ok (some payload)) :
    ∃ (skipped : Nat) (more : List Bytes), (∀ chunk ∈ more, IsChunk chunk) ∧
      (chunks = [] → more ≠ []) ∧ (chunks ≠ [] → skipped = 0) ∧
      payload = chunks.reverse.flatten ++ more.flatten ∧
      (payload.length ≤ limit ∨ more = []) ∧
      s.bytes = keepAlives skipped ++ chunkBytes more ++ [0, 0] ++
        (readChunks limit count chunks size s).rest.bytes := by
  fun_induction readChunks limit count chunks size s with
  | case1 => simp at h
  | case2 => simp at h
  | case3 count chunks size s rest hl hlt hempty ih =>
    obtain ⟨skipped, more, hall, hne, -, hpay, hlim, hbytes⟩ := ih rfl h
    obtain ⟨-, hread⟩ := bytes_of_readLength hl
    have hnil : chunks = [] := List.isEmpty_iff.mp hempty
    refine ⟨skipped + 1, more, hall, fun _ ↦ hne rfl, fun hc ↦ absurd hnil hc, ?_, hlim, ?_⟩
    · rw [hpay, hnil]
    · rw [hread, hbytes]
      rfl
  | case4 count chunks size s rest hl hlt hempty =>
    obtain ⟨-, hread⟩ := bytes_of_readLength hl
    simp only [Except.ok.injEq, Option.some.injEq] at h
    refine ⟨0, [], by simp, ?_, fun _ ↦ rfl, ?_, .inr rfl, ?_⟩
    · intro hc
      simp [hc] at hempty
    · rw [List.flatten_nil, List.append_nil, h]
    · rw [hread]
      rfl
  | case5 => simp at h
  | case6 => simp at h
  | case7 count chunks size s n rest hl hlim chunk after hx hlt hchunk ih =>
    obtain ⟨hn, hread⟩ := bytes_of_readLength hl
    obtain ⟨hrest, hlen⟩ := hchunk
    have hsize' : size + (n + 1) = (chunk :: chunks).flatten.length := by
      rw [List.flatten_cons, List.length_append, hlen, hsize, Nat.add_comm]
    obtain ⟨skipped, more, hall, -, hskip, hpay, hle, hbytes⟩ := ih hsize' h
    refine ⟨0, chunk :: more, ?_, fun _ ↦ List.cons_ne_nil _ _, fun _ ↦ rfl, ?_, .inl ?_, ?_⟩
    · intro c hc
      rcases List.mem_cons.mp hc with rfl | hc
      · exact ⟨by omega, by omega⟩
      · exact hall c hc
    · rw [hpay, List.reverse_cons, List.flatten_append, List.flatten_singleton,
        List.flatten_cons, List.append_assoc]
    · rcases hle with hle | rfl
      · exact hle
      · rw [hpay, List.flatten_nil, List.append_nil, List.length_flatten, List.map_reverse,
          List.sum_reverse, ← List.length_flatten, ← hsize']
        omega
    · rw [hread, hrest, hbytes, hskip (List.cons_ne_nil _ _), chunkBytes, hlen]
      simp only [keepAlives, List.nil_append, List.append_assoc]

/-- A payload that is read was carried by the bytes in front of what is left, and is within the
limit. -/
theorem carries_of_read {limit : Nat} {s : Source} {payload : Bytes}
    (h : (read limit s).result = .ok (some payload)) :
    ∃ frame, Carries frame payload ∧ payload.length ≤ limit ∧
      s.bytes = frame ++ (read limit s).rest.bytes := by
  obtain ⟨skipped, more, hall, hne, -, hpay, hle, hbytes⟩ :=
    bytes_of_readChunks limit 0 [] 0 s rfl h
  refine ⟨_, ⟨skipped, more, hne rfl, hall, hpay, rfl⟩, ?_, hbytes⟩
  exact hle.resolve_right (hne rfl)

private theorem bytes_readChunks_suffix (limit count : Nat) (chunks : List Bytes) (size : Nat)
    (s : Source) : (readChunks limit count chunks size s).rest.bytes <:+ s.bytes := by
  fun_induction readChunks limit count chunks size s with
  | case1 _ chunks _ s _ _ hl =>
    have hsuf := bytes_readLength_suffix chunks.isEmpty s
    rwa [hl] at hsuf
  | case2 _ chunks _ s _ hl =>
    have hsuf := bytes_readLength_suffix chunks.isEmpty s
    rwa [hl] at hsuf
  | case3 _ chunks _ s _ hl _ _ ih =>
    have hsuf := bytes_readLength_suffix chunks.isEmpty s
    rw [hl] at hsuf
    exact ih.trans hsuf
  | case4 _ chunks _ s _ hl =>
    have hsuf := bytes_readLength_suffix chunks.isEmpty s
    rwa [hl] at hsuf
  | case5 _ chunks _ s _ _ hl =>
    have hsuf := bytes_readLength_suffix chunks.isEmpty s
    rwa [hl] at hsuf
  | case6 _ chunks _ s n rest hl _ _ _ hx =>
    have hsuf := bytes_readLength_suffix chunks.isEmpty s
    have hread := Source.bytes_readExact_suffix (n + 1) rest
    rw [hl] at hsuf
    rw [hx] at hread
    exact hread.trans hsuf
  | case7 _ chunks _ s n rest hl _ _ _ hx _ _ ih =>
    have hsuf := bytes_readLength_suffix chunks.isEmpty s
    have hread := Source.bytes_readExact_suffix (n + 1) rest
    rw [hl] at hsuf
    rw [hx] at hread
    exact ih.trans (hread.trans hsuf)

/-- Reading a frame never brings back bytes. -/
theorem bytes_read_suffix (limit : Nat) (s : Source) :
    (read limit s).rest.bytes <:+ s.bytes := bytes_readChunks_suffix ..

/-! ### What a reader is given -/

section Steps

variable {limit count size n : Nat} {chunks : List Bytes} {s rest : Source}

/-- Reading chunks goes on by the next length and the chunk behind it. -/
theorem readChunks_eq (limit count : Nat) (chunks : List Bytes) (size : Nat) (s : Source) :
    readChunks limit count chunks size s =
      match readLength chunks.isEmpty s with
      | (.error e, rest) => ⟨.error e, count, rest⟩
      | (.ok none, rest) => ⟨.ok none, count, rest⟩
      | (.ok (some 0), rest) =>
        if chunks.isEmpty then readChunks limit (count + 1) [] 0 rest
        else ⟨.ok (some chunks.reverse.flatten), count, rest⟩
      | (.ok (some (n + 1)), rest) =>
        if limit < size + (n + 1) then
          ⟨.error (.protocol (.frameTooLarge limit)), count, rest⟩
        else
          match rest.readExact (n + 1) with
          | (.error f, rest) => ⟨.error (cutBy f), count, rest⟩
          | (.ok chunk, after) =>
            readChunks limit count (chunk :: chunks) (size + (n + 1)) after := by
  rw [readChunks]
  split
  · next h => simp only [h]
  · next h => simp only [h]
  · next h => simp only [h]
  · next h =>
    simp only [h]
    split
    · rfl
    · split
      · next hx => simp only [hx]
      · next hx => simp only [hx]

private theorem readChunks_of_end (h : readLength chunks.isEmpty s = (.ok (some 0), rest))
    (hne : chunks ≠ []) : readChunks limit count chunks size s =
      ⟨.ok (some chunks.reverse.flatten), count, rest⟩ := by
  rw [readChunks_eq, h]
  exact if_neg (mt List.isEmpty_iff.mp hne)

private theorem readChunks_of_keepAlive (h : readLength true s = (.ok (some 0), rest)) :
    readChunks limit count [] 0 s = readChunks limit (count + 1) [] 0 rest := by
  rw [readChunks_eq, List.isEmpty_nil, h]
  rfl

/-- A chunk within the limit is held. -/
theorem readChunks_of_chunk {chunk : Bytes} {after : Source}
    (h : readLength chunks.isEmpty s = (.ok (some n), rest)) (hn : 0 < n)
    (hlim : size + n ≤ limit) (hx : rest.readExact n = (.ok chunk, after)) :
    readChunks limit count chunks size s =
      readChunks limit count (chunk :: chunks) (size + n) after := by
  obtain ⟨n, rfl⟩ := Nat.exists_eq_succ_of_ne_zero (Nat.ne_of_gt hn)
  rw [readChunks_eq, h]
  dsimp only
  rw [if_neg (Nat.not_lt_of_le hlim), hx]

end Steps

/-- A reader holds the chunks that are ready, as far as they are within the limit. -/
theorem readChunks_chunkBytes (limit count : Nat) {more : List Bytes}
    (hall : ∀ chunk ∈ more, IsChunk chunk) {rest : Bytes} :
    ∀ (chunks : List Bytes) (size : Nat) (s : Source), size + more.flatten.length ≤ limit →
      s.ready = chunkBytes more ++ rest →
      ∃ s', readChunks limit count chunks size s =
          readChunks limit count (more.reverse ++ chunks) (size + more.flatten.length) s' ∧
        s'.ready = rest ∧ s'.stop? = s.stop? := by
  induction more with
  | nil => exact fun chunks size s _ hready ↦ ⟨s, rfl, hready, rfl⟩
  | cons chunk more ih =>
    intro chunks size s hlim hready
    obtain ⟨hpos, hle⟩ := hall chunk List.mem_cons_self
    rw [chunkBytes, List.append_assoc, List.append_assoc] at hready
    obtain ⟨s₁, hl, hready₁, hstop₁⟩ := readLength_of_ready chunks.isEmpty hle hready
    obtain ⟨s₂, hx, hready₂, hstop₂⟩ :=
      Source.readExact_of_le (s := s₁) (n := chunk.length) (by rw [hready₁]; simp)
    rw [hready₁, List.take_left] at hx
    rw [hready₁, List.drop_left] at hready₂
    rw [List.flatten_cons, List.length_append] at hlim
    obtain ⟨s', hread, hready', hstop'⟩ :=
      ih (fun c hc ↦ hall c (List.mem_cons_of_mem _ hc)) (chunk :: chunks)
        (size + chunk.length) s₂ (by omega) hready₂
    refine ⟨s', ?_, hready', hstop'.trans (hstop₂.trans hstop₁)⟩
    rw [readChunks_of_chunk hl hpos (by omega) hx, hread, List.reverse_cons, List.append_assoc,
      List.singleton_append, List.flatten_cons, List.length_append, Nat.add_assoc]

/-- A reader reads the chunks that are ready, up to the end of the frame. -/
private theorem readChunks_of_ready {limit : Nat} (count : Nat) {more : List Bytes}
    (hall : ∀ chunk ∈ more, IsChunk chunk) (hne : more ≠ [])
    (hlim : more.flatten.length ≤ limit) {s : Source} {rest : Bytes}
    (hready : s.ready = chunkBytes more ++ [0, 0] ++ rest) :
    ∃ s', readChunks limit count [] 0 s = ⟨.ok (some more.flatten), count, s'⟩ ∧
      s'.ready = rest ∧ s'.stop? = s.stop? := by
  rw [List.append_assoc] at hready
  obtain ⟨s₁, hread, hready₁, hstop₁⟩ :=
    readChunks_chunkBytes limit count hall [] 0 s (by rwa [Nat.zero_add]) hready
  obtain ⟨s', hl, hready', hstop'⟩ :=
    readLength_of_ready (more.reverse ++ []).isEmpty (n := 0) (by decide) hready₁
  refine ⟨s', ?_, hready', hstop'.trans hstop₁⟩
  rw [hread, readChunks_of_end hl (by simpa using hne), List.append_nil, List.reverse_reverse]

/-- A reader passes over keep-alives. -/
theorem readChunks_keepAlives (limit : Nat) (skipped count : Nat) {s : Source}
    {more : Bytes} (hready : s.ready = keepAlives skipped ++ more) :
    ∃ s', readChunks limit count [] 0 s = readChunks limit (count + skipped) [] 0 s' ∧
      s'.ready = more ∧ s'.stop? = s.stop? := by
  induction skipped generalizing count s with
  | zero => exact ⟨s, rfl, hready, rfl⟩
  | succ skipped ih =>
    have hnext : s.ready = Bytes.ofNat 2 0 ++ (keepAlives skipped ++ more) := hready
    obtain ⟨s₁, hl, hready₁, hstop₁⟩ := readLength_of_ready true (by decide) hnext
    obtain ⟨s', hread, hready', hstop'⟩ := ih (count + 1) hready₁
    refine ⟨s', ?_, hready', hstop'.trans hstop₁⟩
    rw [readChunks_of_keepAlive hl, hread, Nat.add_right_comm, Nat.add_assoc]

/-- When the frame of a payload within the limit is ready, the payload is read. -/
theorem read_of_carries {limit : Nat} {s : Source} {frame payload more : Bytes}
    (h : Carries frame payload) (hlim : payload.length ≤ limit)
    (hready : s.ready = frame ++ more) :
    (read limit s).result = .ok (some payload) ∧ (read limit s).rest.ready = more ∧
      (read limit s).rest.stop? = s.stop? := by
  obtain ⟨skipped, chunks, hne, hall, rfl, rfl⟩ := h
  rw [List.append_assoc, List.append_assoc] at hready
  obtain ⟨s₁, hskip, hready₁, hstop₁⟩ := readChunks_keepAlives limit skipped 0 hready
  rw [← List.append_assoc] at hready₁
  obtain ⟨s', hread, hready', hstop'⟩ :=
    readChunks_of_ready (0 + skipped) hall hne hlim hready₁
  rw [read, hskip, hread]
  exact ⟨rfl, hready', hstop'.trans hstop₁⟩

end ScriptedBolt.Frame
