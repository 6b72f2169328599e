import ScriptedBolt.Proofs.Frame.Cut
import ScriptedBolt.Proofs.Wire.Ending

/-!
# What becomes of a frame

A reader takes keep-alives and chunks until it stops, and `Stop` says at what it stops: the end of
the frame, the end of the source where a frame could start, a chunk that is too large, or the end
of the source anywhere else. `Outcome` says the same of the bytes as a whole, without the chunks
that a reader has taken. The bytes of a source alone decide what is read of it and how far: each
has one outcome, and this is what reading comes to, in whatever pieces the bytes arrive.
-/

namespace ScriptedBolt.Frame

variable {limit : Nat} {s rest : Source}

/-! ### Lengths -/

/-- A source that comes to its end does so also behind a length. -/
theorem stop?_of_readLength {atStart : Bool} {n : Nat} (hend : s.stop? = none)
    (h : readLength atStart s = (.ok (some n), rest)) : rest.stop? = none := by
  unfold readLength at h
  split at h
  · split at h
    · simp at h
    · simp at h
    · next hb =>
      split at h
      · simp at h
      · next hx =>
        obtain ⟨-, rfl⟩ := Prod.mk.inj h
        rw [Source.stop?_of_readExact hx, Source.stop?_of_readByte hb, hend]
  · split at h
    · simp at h
    · next hx =>
      obtain ⟨-, rfl⟩ := Prod.mk.inj h
      rw [Source.stop?_of_readExact hx, hend]

/-- Where there is no length there is nothing, and a frame could start. -/
theorem bytes_of_readLength_none {atStart : Bool} (h : readLength atStart s = (.ok none, rest)) :
    atStart = true ∧ s.bytes = [] ∧ rest = [] := by
  unfold readLength at h
  split at h
  · next hstart =>
    refine ⟨hstart, ?_⟩
    split at h
    · simp at h
    · next hb =>
      obtain ⟨-, rfl⟩ := Prod.mk.inj h
      exact Source.bytes_of_readByte_none hb
    · split at h
      · simp at h
      · simp at h
  · split at h
    · simp at h
    · simp at h

/-- A length is cut if there is less than it, but for nothing where a frame could start. -/
theorem bytes_of_readLength_error {atStart : Bool} {e : Error} (hend : s.stop? = none)
    (h : readLength atStart s = (.error e, rest)) :
    e = .protocol .frameCut ∧ s.bytes.length < 2 ∧ (atStart = true → s.bytes ≠ []) ∧ rest = [] := by
  unfold readLength at h
  split at h
  · split at h
    · next hb => exact absurd hb (Source.readByte_ne_error hend)
    · simp at h
    · next hb =>
      have hbytes := Source.bytes_readByte hb
      have hend' := (Source.stop?_of_readByte hb).trans hend
      split at h
      · next hx =>
        obtain ⟨he, rfl⟩ := Prod.mk.inj h
        obtain ⟨hlt, rfl, rfl⟩ := (Source.readExact_error_iff hend').mp hx
        refine ⟨(Except.error.inj he).symm, ?_, ?_, rfl⟩
        · rw [hbytes, List.length_cons]
          omega
        · simp [hbytes]
      · simp at h
  · next hstart =>
    split at h
    · next hx =>
      obtain ⟨he, rfl⟩ := Prod.mk.inj h
      obtain ⟨hlt, rfl, rfl⟩ := (Source.readExact_error_iff hend).mp hx
      exact ⟨(Except.error.inj he).symm, hlt, fun h ↦ absurd h hstart, rfl⟩
    · simp at h

/-! ### What a reader stops at -/

/-- What a reader stops at behind chunks that it has taken: the bytes that it finds there, what
comes of them, and the bytes that it leaves. -/
inductive Stop (limit : Nat) (chunks : List Bytes) :
    Bytes → Except Error (Option Bytes) → Bytes → Prop
  /-- The end of the frame. -/
  | ended (hne : chunks ≠ []) (rest : Bytes) :
    Stop limit chunks ([0, 0] ++ rest) (.ok (some chunks.flatten)) rest
  /-- The end of the source, where a frame could start. -/
  | closed (hnil : chunks = []) : Stop limit chunks [] (.ok none) []
  /-- The length of a chunk that makes the payload too large. -/
  | tooLarge {n : Nat} (hn : n ≤ maxChunkSize) (hl : limit < chunks.flatten.length + n)
    (rest : Bytes) :
    Stop limit chunks (Bytes.ofNat 2 n ++ rest) (.error (.protocol (.frameTooLarge limit))) rest
  /-- The end of the source, in a length or before one. -/
  | cutInLength {part : Bytes} (hp : part.length < 2) (hs : chunks = [] → part ≠ []) :
    Stop limit chunks part (.error (.protocol .frameCut)) []
  /-- The end of the source, in a chunk that is within the limit. -/
  | cutInChunk {n : Nat} {part : Bytes} (hn : n ≤ maxChunkSize) (hp : part.length < n)
    (hl : chunks.flatten.length + n ≤ limit) :
    Stop limit chunks (Bytes.ofNat 2 n ++ part) (.error (.protocol .frameCut)) []

/-- A reader takes keep-alives and chunks within the limit, and then stops. -/
private theorem stop_of_readChunks (limit count : Nat) (chunks : List Bytes) (size : Nat)
    (s : Source) (hend : s.stop? = none) (hsize : size = chunks.flatten.length) :
    ∃ (skipped : Nat) (more : List Bytes) (behind : Bytes), (∀ chunk ∈ more, IsChunk chunk) ∧
      (chunks ≠ [] → skipped = 0) ∧ (more ≠ [] → size + more.flatten.length ≤ limit) ∧
      s.bytes = keepAlives skipped ++ chunkBytes more ++ behind ∧
      Stop limit (chunks.reverse ++ more) behind (readChunks limit count chunks size s).result
        (readChunks limit count chunks size s).rest.bytes := by
  -- Whatever the reader holds, so long is what it has read.
  have held (chunks : List Bytes) :
      (chunks.reverse ++ []).flatten.length = chunks.flatten.length := by
    rw [List.append_nil, List.length_flatten, List.map_reverse, List.sum_reverse,
      List.length_flatten]
  fun_induction readChunks limit count chunks size s with
  | case1 count chunks size s e rest hl =>
    obtain ⟨rfl, hlt, hne, rfl⟩ := bytes_of_readLength_error hend hl
    refine ⟨0, [], s.bytes, by simp, fun _ ↦ rfl, by simp, rfl, .cutInLength hlt ?_⟩
    intro hnil
    exact hne (by simpa using hnil)
  | case2 count chunks size s rest hl =>
    obtain ⟨hstart, hnil, rfl⟩ := bytes_of_readLength_none hl
    refine ⟨0, [], [], by simp, fun _ ↦ rfl, by simp, hnil, .closed ?_⟩
    simpa using hstart
  | case3 count chunks size s rest hl hlt hempty ih =>
    obtain ⟨skipped, more, behind, hall, -, hlim, hbytes, hstop⟩ :=
      ih (stop?_of_readLength hend hl) rfl
    obtain rfl := List.isEmpty_iff.mp hempty
    obtain ⟨-, hread⟩ := bytes_of_readLength hl
    refine ⟨skipped + 1, more, behind, hall, by simp, ?_, ?_, hstop⟩
    · rw [hsize]
      exact hlim
    · rw [hread, hbytes]
      rfl
  | case4 count chunks size s rest hl hlt hempty =>
    obtain ⟨-, hread⟩ := bytes_of_readLength hl
    have hne : chunks.reverse ≠ [] := by simpa using hempty
    refine ⟨0, [], _, by simp, fun _ ↦ rfl, by simp, hread, ?_⟩
    rw [List.append_nil]
    exact .ended hne rest.bytes
  | case5 count chunks size s n rest hl hlarge =>
    obtain ⟨hn, hread⟩ := bytes_of_readLength hl
    refine ⟨0, [], _, by simp, fun _ ↦ rfl, by simp, hread, .tooLarge hn ?_ rest.bytes⟩
    rw [held, ← hsize]
    exact hlarge
  | case6 count chunks size s n rest hl hlim f after hx =>
    obtain ⟨hn, hread⟩ := bytes_of_readLength hl
    obtain ⟨hlt, rfl, rfl⟩ :=
      (Source.readExact_error_iff (stop?_of_readLength hend hl)).mp hx
    refine ⟨0, [], _, by simp, fun _ ↦ rfl, by simp, hread, .cutInChunk hn hlt ?_⟩
    rw [held, ← hsize]
    omega
  | case7 count chunks size s n rest hl hlim chunk after hx hlt hchunk ih =>
    obtain ⟨hn, hread⟩ := bytes_of_readLength hl
    obtain ⟨hrest, hlen⟩ := hchunk
    have hend' := (Source.stop?_of_readExact hx).trans (stop?_of_readLength hend hl)
    have hsize' : size + (n + 1) = (chunk :: chunks).flatten.length := by
      rw [List.flatten_cons, List.length_append, hlen, hsize, Nat.add_comm]
    obtain ⟨skipped, more, behind, hall, hskip, hle, hbytes, hstop⟩ := ih hend' hsize'
    obtain rfl := hskip (List.cons_ne_nil _ _)
    refine ⟨0, chunk :: more, behind, ?_, fun _ ↦ rfl, fun _ ↦ ?_, ?_, ?_⟩
    · intro c hc
      rcases List.mem_cons.mp hc with rfl | hc
      · exact ⟨by omega, by omega⟩
      · exact hall c hc
    · rw [List.flatten_cons, List.length_append, hlen]
      cases more with
      | nil =>
        rw [List.flatten_nil, List.length_nil]
        omega
      | cons c more =>
        have := hle (List.cons_ne_nil _ _)
        omega
    · rw [hread, hrest, hbytes, chunkBytes, hlen]
      simp only [keepAlives, List.nil_append, List.append_assoc]
    · rwa [List.reverse_cons, List.append_assoc, List.singleton_append] at hstop

/-- A reader takes keep-alives and chunks of a frame within the limit, and then stops. -/
private theorem stop_of_read (limit : Nat) (hend : s.stop? = none) :
    ∃ (skipped : Nat) (chunks : List Bytes) (behind : Bytes), (∀ chunk ∈ chunks, IsChunk chunk) ∧
      chunks.flatten.length ≤ limit ∧
      s.bytes = keepAlives skipped ++ chunkBytes chunks ++ behind ∧
      Stop limit chunks behind (read limit s).result (read limit s).rest.bytes := by
  obtain ⟨skipped, chunks, behind, hall, -, hlim, hbytes, hstop⟩ :=
    stop_of_readChunks limit 0 [] 0 s hend rfl
  refine ⟨skipped, chunks, behind, hall, ?_, hbytes, hstop⟩
  cases chunks with
  | nil => exact Nat.zero_le limit
  | cons chunk chunks =>
    have := hlim (List.cons_ne_nil _ _)
    omega

/-! ### Completing and exceeding frames -/

/-- Chunks follow each other. -/
theorem chunkBytes_append (chunks more : List Bytes) :
    chunkBytes (chunks ++ more) = chunkBytes chunks ++ chunkBytes more := by
  induction chunks with
  | nil => rfl
  | cons chunk chunks ih =>
    rw [List.cons_append, chunkBytes, chunkBytes, ih]
    simp only [List.append_assoc]

/-- Less than a length begins the length of a chunk. -/
private theorem exists_length {part : Bytes} (h : part.length < 2) :
    ∃ n missing, 0 < n ∧ n ≤ maxChunkSize ∧ Bytes.ofNat 2 n = part ++ missing := by
  match part, h with
  | [], _ => exact ⟨1, [0, 1], by decide, by decide, rfl⟩
  | [high], _ =>
    have hlt := Bytes.toNat_lt [high, 1]
    have hnum : Bytes.toNat [high, 1] = high.toNat * 256 + 1 := by
      simp [Bytes.toNat]
    exact ⟨Bytes.toNat [high, 1], [1], by omega, Nat.le_of_lt_succ hlt,
      Bytes.ofNat_toNat [high, 1]⟩

/-- A frame that stops within a chunk can be completed. -/
private theorem carries_complete (count : Nat) {chunks : List Bytes} {chunk behind missing : Bytes}
    (hall : ∀ chunk ∈ chunks, IsChunk chunk) (hchunk : IsChunk chunk)
    (h : Bytes.ofNat 2 chunk.length ++ chunk = behind ++ missing) :
    Carries (keepAlives count ++ chunkBytes chunks ++ behind ++ (missing ++ [0, 0]))
      (chunks ++ [chunk]).flatten := by
  refine ⟨count, chunks ++ [chunk], by simp, ?_, rfl, ?_⟩
  · intro c hc
    rcases List.mem_append.mp hc with hc | hc
    · exact hall c hc
    · exact List.mem_singleton.mp hc ▸ hchunk
  · have hlast : chunkBytes [chunk] = behind ++ missing := by
      rw [chunkBytes, chunkBytes, List.append_nil, h]
    rw [chunkBytes_append, hlast]
    simp only [List.append_assoc]

/-- What a reader finds cut is the beginning of a chunk with its length. -/
private theorem exists_chunk_of_stop {chunks : List Bytes} {behind left : Bytes}
    (h : Stop limit chunks behind (.error (.protocol .frameCut)) left) :
    ∃ chunk missing, IsChunk chunk ∧
      Bytes.ofNat 2 chunk.length ++ chunk = behind ++ missing := by
  cases h with
  | cutInLength hp hs =>
    obtain ⟨n, missing, hpos, hn, hlength⟩ := exists_length hp
    have hlen : (List.replicate n (0 : UInt8)).length = n := List.length_replicate
    refine ⟨List.replicate n 0, missing ++ List.replicate n 0, ?_, ?_⟩
    · rw [IsChunk, hlen]
      exact ⟨hpos, hn⟩
    · rw [hlen, hlength, List.append_assoc]
  | @cutInChunk n part hn hp hl =>
    have hlen : (part ++ List.replicate (n - part.length) 0).length = n := by
      rw [List.length_append, List.length_replicate]
      omega
    refine ⟨part ++ List.replicate (n - part.length) 0, List.replicate (n - part.length) 0, ?_, ?_⟩
    · rw [IsChunk, hlen]
      exact ⟨Nat.zero_lt_of_lt hp, hn⟩
    · rw [hlen, List.append_assoc]

/-- A length that exceeds the limit is all that is taken of its chunk. -/
private theorem readChunks_of_exceeding {count size n : Nat} {chunks : List Bytes}
    (h : readLength chunks.isEmpty s = (.ok (some n), rest)) (hs : size ≤ limit)
    (hl : limit < size + n) : readChunks limit count chunks size s =
      ⟨.error (.protocol (.frameTooLarge limit)), count, rest⟩ := by
  have hn : n ≠ 0 := by omega
  obtain ⟨n, rfl⟩ := Nat.exists_eq_succ_of_ne_zero hn
  rw [readChunks_eq, h]
  exact if_pos hl

/-- Behind chunks within the limit, a reader stops at a length that exceeds it. -/
private theorem read_of_exceeding {count n : Nat} {chunks : List Bytes} {more : Bytes}
    (hall : ∀ chunk ∈ chunks, IsChunk chunk) (hn : n ≤ maxChunkSize)
    (ht : chunks.flatten.length ≤ limit) (hl : limit < chunks.flatten.length + n)
    (hready : s.ready = keepAlives count ++ chunkBytes chunks ++ Bytes.ofNat 2 n ++ more) :
    (read limit s).result = .error (.protocol (.frameTooLarge limit)) ∧
      (read limit s).rest.ready = more ∧ (read limit s).rest.stop? = s.stop? := by
  rw [List.append_assoc, List.append_assoc] at hready
  obtain ⟨s₁, hskip, hready₁, hstop₁⟩ := readChunks_keepAlives limit count 0 hready
  obtain ⟨s₂, hread, hready₂, hstop₂⟩ :=
    readChunks_chunkBytes limit (0 + count) hall [] 0 s₁ (by rwa [Nat.zero_add]) hready₁
  obtain ⟨s₃, hlength, hready₃, hstop₃⟩ :=
    readLength_of_ready (chunks.reverse ++ []).isEmpty hn hready₂
  rw [read, hskip, hread, readChunks_of_exceeding hlength (by omega) (by omega)]
  exact ⟨rfl, hready₃, hstop₃.trans (hstop₂.trans hstop₁)⟩

/-- When lengths come to exceed the limit, one of them is the first to do so. -/
private theorem exists_exceeding {chunks : List Bytes} {n : Nat} (rest : Bytes)
    (hall : ∀ chunk ∈ chunks, IsChunk chunk) (hn : n ≤ maxChunkSize) :
    ∀ size ≤ limit, limit < size + chunks.flatten.length + n →
      ∃ (before : List Bytes) (m : Nat) (more : Bytes), (∀ chunk ∈ before, IsChunk chunk) ∧
        m ≤ maxChunkSize ∧ size + before.flatten.length ≤ limit ∧
        limit < size + before.flatten.length + m ∧
        chunkBytes chunks ++ Bytes.ofNat 2 n ++ rest =
          chunkBytes before ++ Bytes.ofNat 2 m ++ more := by
  induction chunks with
  | nil => exact fun size hs hl ↦ ⟨[], n, rest, hall, hn, hs, hl, rfl⟩
  | cons chunk chunks ih =>
    intro size hs hl
    obtain ⟨-, hle⟩ := hall chunk List.mem_cons_self
    by_cases hfirst : limit < size + chunk.length
    · refine ⟨[], chunk.length, chunk ++ (chunkBytes chunks ++ (Bytes.ofNat 2 n ++ rest)),
        by simp, hle, hs, hfirst, ?_⟩
      rw [chunkBytes, chunkBytes, List.nil_append]
      simp only [List.append_assoc]
    · rw [List.flatten_cons, List.length_append] at hl
      obtain ⟨before, m, more, hbefore, hm, hb, hlm, heq⟩ :=
        ih (fun c hc ↦ hall c (List.mem_cons_of_mem _ hc)) (size + chunk.length) (by omega)
          (by omega)
      refine ⟨chunk :: before, m, more, List.forall_mem_cons.mpr ⟨hall chunk List.mem_cons_self,
        hbefore⟩, hm, ?_, ?_, ?_⟩
      · rw [List.flatten_cons, List.length_append]
        omega
      · rw [List.flatten_cons, List.length_append]
        omega
      · rw [chunkBytes, chunkBytes]
        simp only [List.append_assoc] at heq ⊢
        rw [heq]

/-- Whether every length of a chunk in the bytes keeps the payload within the limit, together with
the chunks before it. -/
def Within (limit : Nat) (bytes : Bytes) : Prop :=
  ∀ (count : Nat) (chunks : List Bytes) (n : Nat) (rest : Bytes),
    (∀ chunk ∈ chunks, IsChunk chunk) → n ≤ maxChunkSize →
    bytes = keepAlives count ++ chunkBytes chunks ++ Bytes.ofNat 2 n ++ rest →
    chunks.flatten.length + n ≤ limit

/-- A reader that does not stop at a length has found all of them within the limit. -/
private theorem within_of_read (hend : s.stop? = none)
    (h : (read limit s).result ≠ .error (.protocol (.frameTooLarge limit))) :
    Within limit s.bytes := by
  intro count chunks n rest hall hn hbytes
  apply Nat.le_of_not_lt
  intro hl
  obtain ⟨before, m, more, hbefore, hm, ht, hlm, heq⟩ :=
    exists_exceeding rest hall hn 0 (Nat.zero_le limit) (by omega)
  rw [Nat.zero_add] at ht hlm
  have hready : s.ready = keepAlives count ++ chunkBytes before ++ Bytes.ofNat 2 m ++ more := by
    rw [Source.ready_eq_bytes hend, hbytes, List.append_assoc, List.append_assoc,
      ← List.append_assoc (chunkBytes chunks), heq]
    simp only [List.append_assoc]
  exact h (read_of_exceeding hbefore hm ht hlm hready).1

/-- Of keep-alives alone nothing is read. -/
private theorem read_of_keepAlives {count : Nat} (hend : s.stop? = none)
    (h : s.bytes = keepAlives count) : (read limit s).result = .ok none := by
  have hready : s.ready = keepAlives count ++ [] := by
    rw [Source.ready_eq_bytes hend, h, List.append_nil]
  obtain ⟨s', hskip, hready', hstop'⟩ := readChunks_keepAlives limit count 0 hready
  obtain ⟨rest, hlength⟩ := readLength_of_nil (hstop'.trans hend) hready'
  rw [read, hskip, readChunks_of_none hlength]

/-- No frame is the beginning of another one. -/
theorem Carries.eq_of_append {frame frame' payload payload' more more' : Bytes}
    (h : Carries frame payload) (h' : Carries frame' payload')
    (heq : frame ++ more = frame' ++ more') : payload = payload' ∧ more = more' := by
  have hready : Source.ready [.deliver (frame ++ more)] = frame ++ more := List.append_nil _
  have hle := Nat.le_max_left payload.length payload'.length
  have hle' := Nat.le_max_right payload.length payload'.length
  obtain ⟨hread, hrest, -⟩ := read_of_carries h hle hready
  obtain ⟨hread', hrest', -⟩ := read_of_carries h' hle' (hready.trans heq)
  rw [hread] at hread'
  exact ⟨Option.some.inj (Except.ok.inj hread'), hrest.symm.trans hrest'⟩

/-! ### Outcomes -/

/-- What the bytes of a source come to that ends after them, with those that are left unread. -/
inductive Outcome (limit : Nat) (bytes : Bytes) : Except Error (Option Bytes) → Bytes → Prop
  /-- They begin with a frame, whose payload is within the limit. -/
  | framed {frame payload rest : Bytes} (hf : Carries frame payload) (hl : payload.length ≤ limit)
    (hs : bytes = frame ++ rest) : Outcome limit bytes (.ok (some payload)) rest
  /-- They are keep-alives. -/
  | closed {count : Nat} (hs : bytes = keepAlives count) : Outcome limit bytes (.ok none) []
  /-- They begin with keep-alives, chunks within the limit, and a length that exceeds it. -/
  | tooLarge {count n : Nat} {chunks : List Bytes} {rest : Bytes}
    (hall : ∀ chunk ∈ chunks, IsChunk chunk) (hn : n ≤ maxChunkSize)
    (ht : chunks.flatten.length ≤ limit) (hl : limit < chunks.flatten.length + n)
    (hs : bytes = keepAlives count ++ chunkBytes chunks ++ Bytes.ofNat 2 n ++ rest) :
    Outcome limit bytes (.error (.protocol (.frameTooLarge limit))) rest
  /-- They are less than a frame, though not only keep-alives, and within the limit. -/
  | cut {missing payload : Bytes} (hf : Carries (bytes ++ missing) payload) (hm : missing ≠ [])
    (hk : ∀ count, bytes ≠ keepAlives count) (hw : Within limit bytes) :
    Outcome limit bytes (.error (.protocol .frameCut)) []

/-- What is read of a source is the outcome of its bytes. -/
private theorem outcome_read (limit : Nat) (hend : s.stop? = none) :
    Outcome limit s.bytes (read limit s).result (read limit s).rest.bytes := by
  obtain ⟨skipped, chunks, behind, hall, hle, hbytes, hstop⟩ := stop_of_read limit hend
  have hnone (count : Nat) (h : s.bytes = keepAlives count) : (read limit s).result = .ok none :=
    read_of_keepAlives hend h
  have hwithin (h : (read limit s).result ≠ .error (.protocol (.frameTooLarge limit))) :
      Within limit s.bytes := within_of_read hend h
  generalize (read limit s).result = result at *
  generalize (read limit s).rest.bytes = left at *
  have cut (hc : Stop limit chunks behind (.error (.protocol .frameCut)) left)
      (hr : result = .error (.protocol .frameCut)) (hnil : left = []) :
      Outcome limit s.bytes result left := by
    obtain ⟨chunk, missing, hchunk, hmore⟩ := exists_chunk_of_stop hc
    have hf := carries_complete skipped hall hchunk hmore
    subst hr hnil
    refine .cut (hbytes ▸ hf) (by simp) ?_ (hwithin (by simp))
    intro count hk
    simpa using hnone count hk
  cases hstop with
  | ended hne rest =>
    refine .framed ⟨skipped, chunks, hne, hall, rfl, rfl⟩ hle ?_
    rw [hbytes]
    simp only [List.append_assoc]
  | closed hnil =>
    rw [hnil, chunkBytes, List.append_nil, List.append_nil] at hbytes
    exact .closed hbytes
  | @tooLarge n hn hl =>
    have hs : s.bytes =
        keepAlives skipped ++ chunkBytes chunks ++ Bytes.ofNat 2 n ++ left := by
      rw [hbytes]
      simp only [List.append_assoc]
    exact .tooLarge hall hn hle hl hs
  | cutInLength hp hs => exact cut (.cutInLength hp hs) rfl rfl
  | cutInChunk hn hp hl => exact cut (.cutInChunk hn hp hl) rfl rfl

/-- What is read of a source that comes to its end, and what is left of it, is the one outcome of
its bytes. -/
theorem read_eq_iff_outcome (limit : Nat) (hend : s.stop? = none)
    {result : Except Error (Option Bytes)} {left : Bytes} :
    (read limit s).result = result ∧ (read limit s).rest.bytes = left ↔
      Outcome limit s.bytes result left := by
  have hread := outcome_read limit hend
  have hready := Source.ready_eq_bytes hend
  constructor
  · rintro ⟨rfl, rfl⟩
    exact hread
  · intro h
    cases h with
    | framed hf hl hs =>
      obtain ⟨hresult, hrest, hstop⟩ := read_of_carries hf hl (hready.trans hs)
      rw [Source.ready_eq_bytes (hstop.trans hend)] at hrest
      exact ⟨hresult, hrest⟩
    | closed hs =>
      have hresult : (read limit s).result = .ok none := read_of_keepAlives hend hs
      rw [hresult] at hread
      generalize (read limit s).rest.bytes = left at hread ⊢
      cases hread with
      | closed hs => exact ⟨hresult, rfl⟩
    | tooLarge hall hn ht hl hs =>
      obtain ⟨hresult, hrest, hstop⟩ := read_of_exceeding hall hn ht hl (hready.trans hs)
      rw [Source.ready_eq_bytes (hstop.trans hend)] at hrest
      exact ⟨hresult, hrest⟩
    | @cut missing payload hf hm hk hw =>
      generalize (read limit s).result = result at *
      generalize (read limit s).rest.bytes = left at *
      cases hread with
      | @framed frame _ _ hf' hl hs =>
        have heq : s.bytes ++ missing ++ [] = frame ++ (left ++ missing) := by
          rw [hs, List.append_nil, List.append_assoc]
        have hnil := (hf.eq_of_append hf' heq).2
        exact absurd (List.append_eq_nil_iff.mp hnil.symm).2 hm
      | closed hs => exact absurd hs (hk _)
      | tooLarge hall hn ht hl hs =>
        have := hw _ _ _ _ hall hn hs
        omega
      | cut => exact ⟨rfl, rfl⟩

/-- A source whose frame, behind a keep-alive, is too large in its second chunk. -/
private def exceeding : Source :=
  [.deliver [0], .fail ⟨.interrupted, "again"⟩, .deliver [0, 0, 1, 0xB0, 0], .deliver [3, 9, 9]]

/-- Of a frame that is too large only lengths and the chunks before are taken. -/
theorem read_exceeding : exceeding.stop? = none ∧
    (read 3 exceeding).result = .error (.protocol (.frameTooLarge 3)) ∧
    (read 3 exceeding).rest.bytes = [9, 9] := by
  have hs : exceeding.bytes = keepAlives 1 ++ chunkBytes [[0xB0]] ++ Bytes.ofNat 2 3 ++ [9, 9] :=
    rfl
  have hall : ∀ chunk ∈ [[0xB0]], IsChunk chunk := by simp [IsChunk, maxChunkSize]
  exact ⟨rfl, (read_eq_iff_outcome 3 rfl).mpr
    (.tooLarge hall (by decide) (by decide) (by decide) hs)⟩

end ScriptedBolt.Frame
