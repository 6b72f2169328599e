import ScriptedBolt.Frame

/-!
# The layout of frames

`Carries frame payload` says what a frame looks like, apart from how one is read or written: any
number of keep-alives, then the chunks of the payload, each after its length, then the length
zero. A payload has many frames, one for each way to cut it. `ofPayload` writes one of them,
whose chunks are no longer than the caller allows.
-/

namespace ScriptedBolt.Frame

/-- So many chunks of length zero. -/
def keepAlives : (count : Nat) → Bytes
  | 0 => []
  | count + 1 => 0 :: 0 :: keepAlives count

/-- Chunks, each after its length. -/
def chunkBytes : List Bytes → Bytes
  | [] => []
  | chunk :: chunks => Bytes.ofNat 2 chunk.length ++ chunk ++ chunkBytes chunks

/-- Whether bytes can be a chunk of a frame: there are some, and two bytes hold their number. -/
def IsChunk (chunk : Bytes) : Prop := 0 < chunk.length ∧ chunk.length ≤ maxChunkSize

/-- Whether bytes are the frame of a payload, behind any number of keep-alives. -/
def Carries (frame payload : Bytes) : Prop :=
  ∃ (count : Nat) (chunks : List Bytes), chunks ≠ [] ∧ (∀ chunk ∈ chunks, IsChunk chunk) ∧
    payload = chunks.flatten ∧ frame = keepAlives count ++ chunkBytes chunks ++ [0, 0]

/-- Bytes that are no more than a chunk is allowed to have can be one. -/
theorem isChunk_of_le {chunk : Bytes} {chunkSize : Nat}
    (h : 0 < chunk.length ∧ chunk.length ≤ clampChunkSize chunkSize) : IsChunk chunk :=
  ⟨h.1, Nat.le_trans h.2 (Nat.max_le.mpr ⟨by decide, Nat.min_le_right ..⟩)⟩

/-- Cutting a payload gives chunks of the size asked for. -/
theorem chunksOnto_eq (size : Nat) (out : Array UInt8) (payload : Bytes) :
    ∃ chunks : List Bytes, (∀ chunk ∈ chunks, 0 < chunk.length ∧ chunk.length ≤ size + 1) ∧
      payload = chunks.flatten ∧
      (chunksOnto size out payload).toList = out.toList ++ chunkBytes chunks := by
  fun_induction chunksOnto size out payload with
  | case1 out => exact ⟨[], by simp, rfl, by simp [chunkBytes]⟩
  | case2 out b rest chunk ih =>
    obtain ⟨chunks, hall, hflat, hout⟩ := ih
    refine ⟨chunk :: chunks, ?_, ?_, ?_⟩
    · intro c hc
      rcases List.mem_cons.mp hc with rfl | hc
      · simp only [chunk, List.length_cons, List.length_take]
        omega
      · exact hall c hc
    · rw [List.flatten_cons, ← hflat, List.cons_append, List.take_append_drop]
    · rw [hout, chunkBytes]
      simp only [Array.toList_appendList, List.append_assoc]

/-- What is written for a payload: chunks of no more than the bytes allowed, and the end. -/
theorem ofPayload_eq (chunkSize : Nat) (payload : Bytes) :
    ∃ chunks : List Bytes,
      (∀ chunk ∈ chunks, 0 < chunk.length ∧ chunk.length ≤ clampChunkSize chunkSize) ∧
      payload = chunks.flatten ∧ ofPayload chunkSize payload = chunkBytes chunks ++ [0, 0] := by
  obtain ⟨chunks, hall, hflat, hout⟩ := chunksOnto_eq (clampChunkSize chunkSize - 1) #[] payload
  have hpos : 1 ≤ clampChunkSize chunkSize := Nat.le_max_left ..
  refine ⟨chunks, ?_, hflat, ?_⟩
  · intro chunk hc
    have := hall chunk hc
    omega
  · rw [ofPayload, Array.toList_appendList, hout]
    rfl

/-- What is written for a payload carries it, also behind keep-alives. -/
theorem carries_ofPayload (count chunkSize : Nat) {payload : Bytes} (h : payload ≠ []) :
    Carries (keepAlives count ++ ofPayload chunkSize payload) payload := by
  obtain ⟨chunks, hall, hflat, hout⟩ := ofPayload_eq chunkSize payload
  refine ⟨count, chunks, ?_, fun chunk hc ↦ isChunk_of_le (hall chunk hc), hflat, ?_⟩
  · rintro rfl
    exact h hflat
  · rw [hout, List.append_assoc]

end ScriptedBolt.Frame
