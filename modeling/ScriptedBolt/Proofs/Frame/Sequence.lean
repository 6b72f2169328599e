import ScriptedBolt.Proofs.Frame.Outcome
import ScriptedBolt.Proofs.Message.Wire

/-!
# Frames in sequence

A reader that is called again and again takes one frame at a call. Where a frame ends does not
depend on what its payload is, so a payload that is no message costs the call that reads it, and
no other: every later call reads what it would have read without the bad payload. When all the
frames are read, the source is at its end, and it stays there.
-/

namespace ScriptedBolt.Frame

/-- What is read by so many calls, each of what the call before it left. -/
def readEach (v : Version) (role : Role) (limit : Nat) :
    (calls : Nat) → Source → List (Except Error (Option Message))
  | 0, _ => []
  | calls + 1, s =>
    let received := readMessage v role limit s
    received.result :: readEach v role limit calls received.rest

/-- A payload on the wire, behind keep-alives and in chunks. -/
structure Letter where
  /-- The number of keep-alives before the frame. -/
  count : Nat
  /-- The length that is asked for the chunks. -/
  chunkSize : Nat
  payload : Bytes

/-- The bytes of a letter. -/
def Letter.bytes (letter : Letter) : Bytes :=
  keepAlives letter.count ++ ofPayload letter.chunkSize letter.payload

variable {v : Version} {role : Role} {limit : Nat} {s : Source}

/-! ### Calls -/

/-- At the end of the source a call reads nothing, and leaves nothing. -/
theorem readMessage_of_end (hend : s.stop? = none) (hready : s.ready = []) :
    readMessage v role limit s = ⟨.ok none, 0, []⟩ := by
  obtain ⟨rest, hlength⟩ := readLength_of_nil hend hready
  have hread : read limit s = ⟨.ok none, 0, rest⟩ := readChunks_of_none hlength
  obtain ⟨-, -, rfl⟩ := bytes_of_readLength_none hlength
  simp only [readMessage, hread]

/-- At the end of the source every call reads nothing. -/
theorem readEach_of_end (calls : Nat) (hend : s.stop? = none) (hready : s.ready = []) :
    readEach v role limit calls s = List.replicate calls (.ok none) := by
  induction calls generalizing s with
  | zero => rfl
  | succ calls ih =>
    rw [readEach, readMessage_of_end hend hready, List.replicate_succ]
    exact congrArg _ (ih rfl rfl)

/-- One call reads the payload of one letter, whatever is made of it, and behind the last letter
every call reads nothing. -/
theorem readEach_letters (v : Version) (role : Role) (more : Nat) {letters : List Letter}
    (hletters : ∀ letter ∈ letters, letter.payload ≠ [] ∧ letter.payload.length ≤ limit)
    (hready : s.ready = letters.flatMap Letter.bytes) (hend : s.stop? = none) :
    readEach v role limit (letters.length + more) s =
      letters.map (fun letter ↦ (Message.ofPayload v role letter.payload).map some) ++
        List.replicate more (.ok none) := by
  induction letters generalizing s with
  | nil =>
    rw [List.length_nil, Nat.zero_add]
    exact readEach_of_end more hend hready
  | cons letter letters ih =>
    obtain ⟨hne, hlim⟩ := hletters letter List.mem_cons_self
    obtain ⟨hresult, hready', hstop⟩ := readMessage_of_frame v role
      (carries_ofPayload letter.count letter.chunkSize hne) hlim hready
    have hrest := ih (fun l hl ↦ hletters l (List.mem_cons_of_mem _ hl)) hready'
      (hstop.trans hend)
    rw [List.length_cons, Nat.add_right_comm, readEach, hresult, hrest]
    rfl

/-- Letters are cut into chunks that are not empty and not longer than asked for, and a reader
keeps in step with them: each call reads one of them, also behind those whose payloads are no
messages, and then it finds that the source has ended. -/
theorem readEach_keeps_step (v : Version) (role : Role) {letters : List Letter}
    (hletters : ∀ letter ∈ letters, letter.payload ≠ [] ∧ letter.payload.length ≤ limit)
    (hbytes : s.bytes = letters.flatMap Letter.bytes) (hend : s.stop? = none) :
    (∀ letter ∈ letters, ∃ chunks : List Bytes,
      (∀ chunk ∈ chunks, 0 < chunk.length ∧ chunk.length ≤ max 1 (min letter.chunkSize 0xFFFF)) ∧
      letter.payload = chunks.flatten ∧
      ofPayload letter.chunkSize letter.payload = chunkBytes chunks ++ [0, 0]) ∧
    ∀ more, readEach v role limit (letters.length + more) s =
      letters.map (fun letter ↦ (Message.ofPayload v role letter.payload).map some) ++
        List.replicate more (.ok none) := by
  constructor
  · intro letter _
    exact ofPayload_eq letter.chunkSize letter.payload
  · intro more
    have hready := (Source.ready_eq_bytes hend).trans hbytes
    exact readEach_letters v role more hletters hready hend

/-- A cut structure, a message byte by byte, and a number. -/
private def mixedLetters : List Letter :=
  [⟨2, 0, [0xB1]⟩, ⟨0, 1, [0xB0, 0x0F]⟩, ⟨1, 70000, [0xFF]⟩]

/-- A source that delivers them in other pieces, and is interrupted. -/
private def mixed : Source :=
  [.deliver [0, 0, 0], .fail ⟨.interrupted, "again"⟩, .deliver [0, 0, 1, 0xB1, 0, 0, 0, 1, 0xB0, 0],
    .deliver [1, 0x0F, 0, 0, 0], .fail ⟨.interrupted, "again"⟩, .deliver [0, 0, 1, 0xFF, 0, 0]]

/-- A message between two payloads that are none is read. -/
theorem readEach_mixed : readEach ⟨4, 1⟩ .client 2 5 mixed =
    [.error (.protocol (.decode (.truncated 1 0))), .ok (some ⟨"RESET", []⟩),
      .error (.protocol (.notMessage "integer")), .ok none, .ok none] := by
  have hletters : ∀ letter ∈ mixedLetters, letter.payload ≠ [] ∧ letter.payload.length ≤ 2 := by
    decide
  have hbytes : mixed.bytes = mixedLetters.flatMap Letter.bytes := by cbv
  have hlen : 5 = mixedLetters.length + 2 := rfl
  rw [hlen, (readEach_keeps_step ⟨4, 1⟩ .client hletters hbytes rfl).2 2]
  rfl

end ScriptedBolt.Frame
