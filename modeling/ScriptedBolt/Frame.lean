import ScriptedBolt.Message.Payload
import ScriptedBolt.Wire.Sink
import ScriptedBolt.Wire.Source

/-!
# Frames

On the wire a payload is cut into chunks. Each chunk has its length before it, in two bytes, and
the length zero ends the frame. A chunk of length zero where a frame could start keeps the
connection alive and means nothing.
-/

namespace ScriptedBolt.Frame

/-- The greatest length of a chunk. -/
def maxChunkSize : Nat := 0xFFFF

/-- The greatest size of a payload, unless another is set. -/
def defaultMaxMessageSize : Nat := 16 * 1024 * 1024

/-- A length of a chunk within its bounds. -/
def clampChunkSize (size : Nat) : Nat := max 1 (min size maxChunkSize)

/-- Adds the chunks of a payload to `out`, `size + 1` bytes in each but the last. -/
def chunksOnto (size : Nat) (out : Array UInt8) (payload : Bytes) : Array UInt8 :=
  match payload with
  | [] => out
  | b :: rest =>
    let chunk := b :: rest.take size
    chunksOnto size (out ++ Bytes.ofNat 2 chunk.length ++ chunk) (rest.drop size)
termination_by payload.length
decreasing_by
  simp only [List.length_drop, List.length_cons]
  omega

/-- The frame of a payload, with chunks of at most `chunkSize` bytes. -/
def ofPayload (chunkSize : Nat) (payload : Bytes) : Bytes :=
  (chunksOnto (clampChunkSize chunkSize - 1) #[] payload ++ [(0 : UInt8), 0]).toList

/-- The frame of a message that a role sends in a version. -/
def ofMessage (v : Version) (role : Role) (chunkSize : Nat) (m : Message) : Except Error Bytes :=
  (m.payload v role).map (ofPayload chunkSize)

/-- What became of reading a frame. -/
structure Received (α : Type) where
  /-- What was read; nothing if the source ended where a frame could start. -/
  result : Except Error (Option α)
  /-- How many chunks of length zero stood before the frame. -/
  keepAlives : Nat
  /-- What is left of the source. -/
  rest : Source

/-- The error for a fault inside of a frame. -/
def cutBy (f : Fault) : Error :=
  if f.kind = .unexpectedEof then .protocol .frameCut else .io f

/-- Reads the length of a chunk. Where a frame could start, the source may end instead. -/
def readLength (atStart : Bool) (s : Source) : Except Error (Option Nat) × Source :=
  if atStart then
    match s.readByte with
    | (.error f, rest) => (.error (.io f), rest)
    | (.ok none, rest) => (.ok none, rest)
    | (.ok (some high), rest) =>
      match rest.readExact 1 with
      | (.error f, rest) => (.error (cutBy f), rest)
      | (.ok low, rest) => (.ok (some (Bytes.toNat (high :: low))), rest)
  else
    match s.readExact 2 with
    | (.error f, rest) => (.error (cutBy f), rest)
    | (.ok bytes, rest) => (.ok (some (Bytes.toNat bytes)), rest)

/-- A length takes bytes. -/
theorem bytes_readLength {atStart : Bool} {s rest : Source} {n : Nat}
    (h : readLength atStart s = (.ok (some n), rest)) :
    rest.bytes.length < s.bytes.length := by
  unfold readLength at h
  split at h
  · split at h
    · simp at h
    · simp at h
    · next hb =>
      split at h
      · simp at h
      · next he =>
        simp only [Prod.mk.injEq] at h
        obtain ⟨-, rfl⟩ := h
        have e := Source.bytes_readByte hb
        have ⟨e', l⟩ := Source.bytes_readExact he
        rw [e, e']
        simp only [List.length_cons, List.length_append]
        omega
  · split at h
    · simp at h
    · next he =>
      simp only [Prod.mk.injEq] at h
      obtain ⟨-, rfl⟩ := h
      have ⟨e, l⟩ := Source.bytes_readExact he
      rw [e]
      simp only [List.length_append]
      omega

/-- Reads chunks up to the end of a frame. `chunks` holds the chunks read before, last first,
and `size` their size; with none of them, keep-alives are counted on from `keepAlives`. -/
def readChunks (limit keepAlives : Nat) (chunks : List Bytes) (size : Nat) (s : Source) :
    Received Bytes :=
  match h : readLength chunks.isEmpty s with
  | (.error e, rest) => ⟨.error e, keepAlives, rest⟩
  | (.ok none, rest) => ⟨.ok none, keepAlives, rest⟩
  | (.ok (some 0), rest) =>
    have := bytes_readLength h
    if chunks.isEmpty then readChunks limit (keepAlives + 1) [] 0 rest
    else ⟨.ok (some chunks.reverse.flatten), keepAlives, rest⟩
  | (.ok (some (n + 1)), rest) =>
    if limit < size + (n + 1) then ⟨.error (.protocol (.frameTooLarge limit)), keepAlives, rest⟩
    else
      match h' : rest.readExact (n + 1) with
      | (.error f, rest) => ⟨.error (cutBy f), keepAlives, rest⟩
      | (.ok chunk, after) =>
        have := bytes_readLength h
        have := Source.bytes_readExact h'
        readChunks limit keepAlives (chunk :: chunks) (size + (n + 1)) after
termination_by s.bytes.length
decreasing_by
  · assumption
  · simp_all only [List.length_append]
    omega

/-- Reads a frame whose payload has at most `limit` bytes. -/
def read (limit : Nat) (s : Source) : Received Bytes := readChunks limit 0 [] 0 s

/-- Reads a frame and the message in it, which a role sends in a version. -/
def readMessage (v : Version) (role : Role) (limit : Nat) (s : Source) : Received Message :=
  let received := read limit s
  let result :=
    match received.result with
    | .error e => .error e
    | .ok none => .ok none
    | .ok (some payload) => (Message.ofPayload v role payload).map some
  ⟨result, received.keepAlives, received.rest⟩

/-- Writes the frame of a message. -/
def writeMessage (v : Version) (role : Role) (chunkSize : Nat) (m : Message) (sink : Sink) :
    Except Error Unit × Sink :=
  match ofMessage v role chunkSize m with
  | .error e => (.error e, sink)
  | .ok bytes =>
    let (result, sink) := sink.send bytes
    (result.mapError .io, sink)

end ScriptedBolt.Frame
