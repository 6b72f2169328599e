import ScriptedBolt.Proofs.Frame.Sequence
import ScriptedBolt.Proofs.PackStream.Writable
import ScriptedBolt.Proofs.Wire.Acceptance

/-!
# Writing messages in sequence

A message is written as a whole or not at all: its frame is complete before the sink is given a
byte of it, so a call that fails for the message leaves the sink as it was. What a steady sink has
taken after any number of calls is the frames of the messages for which they succeeded, and
reading them gives these messages back.
-/

namespace ScriptedBolt

namespace Message

variable {v : Version} {role : Role} {m : Message}

/-- A message can be written if its name has a tag, and its fields and all that occurs in them
fit. -/
theorem exists_payload_iff : (∃ payload, m.payload v role = .ok payload) ↔
    (∃ tag, v.tag? role m.name = some tag) ∧ m.fields.length ≤ 0xFFFF ∧
      ∀ field ∈ m.fields, ∀ w : Value, w.Occurs field → w.Fits := by
  have hstruct (tag : UInt8) : (∃ payload, PackStream.encode (.struct tag m.fields) = .ok payload) ↔
      m.fields.length ≤ 0xFFFF ∧ ∀ field ∈ m.fields, ∀ w : Value, w.Occurs field → w.Fits := by
    have hfits : (Value.struct tag m.fields).Fits ↔ m.fields.length ≤ 0xFFFF :=
      (and_iff_right trivial).trans Nat.not_lt
    rw [PackStream.exists_encode_iff, Value.forall_occurs_struct_iff, hfits]
  simp only [payload_eq_ok_iff]
  constructor
  · rintro ⟨payload, tag, htag, hencode⟩
    exact ⟨⟨tag, htag⟩, (hstruct tag).mp ⟨payload, hencode⟩⟩
  · rintro ⟨⟨tag, htag⟩, hfits⟩
    obtain ⟨payload, hencode⟩ := (hstruct tag).mpr hfits
    exact ⟨payload, tag, htag, hencode⟩

/-- A message with counted values fails to be written if its name has no tag, or it is or has in it
a structure with too many fields. -/
theorem exists_payload_error_iff
    (hcounted : ∀ field ∈ m.fields, ∀ w : Value, w.Occurs field → w.Counted) :
    (∃ e, m.payload v role = .error e) ↔ v.tag? role m.name = none ∨
      0xFFFF < m.fields.length ∨ ∃ field ∈ m.fields, ∃ w : Value, w.Occurs field ∧ w.Overfull := by
  have hfails : (∃ e, m.payload v role = .error e) ↔
      ¬∃ payload, m.payload v role = .ok payload := by
    cases m.payload v role <;> simp
  have htag : (∃ tag, v.tag? role m.name = some tag) ↔ ¬v.tag? role m.name = none :=
    Option.ne_none_iff_exists'.symm
  have hfits : (∀ field ∈ m.fields, ∀ w : Value, w.Occurs field → w.Fits) ↔
      ¬∃ field ∈ m.fields, ∃ w : Value, w.Occurs field ∧ w.Overfull := by
    constructor
    · rintro h ⟨field, hfield, w, hw, hover⟩
      exact (h field hfield w hw).2 hover
    · intro h field hfield w hw
      exact ⟨hcounted field hfield w hw, fun hover ↦ h ⟨field, hfield, w, hw, hover⟩⟩
  rw [hfails, exists_payload_iff, htag, hfits, ← Nat.not_lt, ← not_or, ← not_or,
    Classical.not_not]

end Message

namespace Frame

/-- A message to be written, with the length that is asked for its chunks. -/
structure Call where
  chunkSize : Nat
  message : Message

/-- What becomes of messages that are written one after the other, and the sink after them. -/
def writeEach (v : Version) (role : Role) :
    (calls : List Call) → Sink → List (Except Error Unit) × Sink
  | [], sink => ([], sink)
  | call :: calls, sink =>
    let first := writeMessage v role call.chunkSize call.message sink
    let others := writeEach v role calls first.2
    (first.1 :: others.1, others.2)

/-- The messages whose writing has succeeded. -/
def written (calls : List Call) (results : List (Except Error Unit)) : List Message :=
  (calls.zip results).filterMap fun
    | (call, .ok ()) => some call.message
    | (_, .error _) => none

variable {v : Version} {role : Role} {sink : Sink} {m : Message}

/-! ### Calls -/

/-- A message without a payload is not written, not in part either. -/
theorem writeMessage_of_error (chunkSize : Nat) {e : Error} (h : m.payload v role = .error e) :
    writeMessage v role chunkSize m sink = (.error e, sink) := by
  simp [writeMessage, ofMessage, h, Except.map]

/-- To a steady sink the frame of a payload is written. -/
theorem writeMessage_of_ok (chunkSize : Nat) {payload : Bytes} (hsteady : sink.Steady)
    (h : m.payload v role = .ok payload) :
    ∃ after, writeMessage v role chunkSize m sink = (.ok (), after) ∧ after.Steady ∧
      after.output.toList = sink.output.toList ++ ofPayload chunkSize payload := by
  obtain ⟨hresult, hafter⟩ := sink.send_of_steady hsteady (ofPayload chunkSize payload)
  obtain ⟨accepted, -, hout, hall⟩ := sink.output_send (ofPayload chunkSize payload)
  rw [hall hresult] at hout
  refine ⟨_, ?_, hafter, hout⟩
  simp only [writeMessage, ofMessage, h, Except.map, hresult]
  rfl

/-- A steady sink is so after any calls, and what it has taken are the frames of the messages that
are written. -/
theorem writeEach_of_steady (v : Version) (role : Role) (hsteady : sink.Steady)
    (calls : List Call) :
    (writeEach v role calls sink).2.Steady ∧
      ∃ sent : List (Letter × Message),
        written calls (writeEach v role calls sink).1 = sent.map Prod.snd ∧
        (∀ p ∈ sent, p.2.payload v role = .ok p.1.payload) ∧
        (writeEach v role calls sink).2.output.toList =
          sink.output.toList ++ (sent.map Prod.fst).flatMap Letter.bytes := by
  induction calls generalizing sink with
  | nil => exact ⟨hsteady, [], rfl, by simp, by simp [writeEach]⟩
  | cons call calls ih =>
    cases hp : call.message.payload v role with
    | error e =>
      rw [writeEach, writeMessage_of_error _ hp]
      exact ih hsteady
    | ok payload =>
      obtain ⟨after, hwrite, hafter, hout⟩ := writeMessage_of_ok call.chunkSize hsteady hp
      obtain ⟨hlast, sent, hwritten, hpayloads, houts⟩ := ih hafter
      rw [writeEach, hwrite]
      refine ⟨hlast, (⟨0, call.chunkSize, payload⟩, call.message) :: sent, ?_, ?_, ?_⟩
      · exact congrArg (call.message :: ·) hwritten
      · exact List.forall_mem_cons.mpr ⟨hp, hpayloads⟩
      · rw [houts, hout, List.append_assoc]
        rfl

/-- A call of many succeeds if its message has a payload. Otherwise it fails, and the sink after it
is that before it. -/
private theorem writeEach_getElem? (v : Version) (role : Role) (hsteady : sink.Steady)
    {calls : List Call} {call : Call} {i : Nat} (h : calls[i]? = some call) :
    (∃ payload, call.message.payload v role = .ok payload ∧
      (writeEach v role calls sink).1[i]? = some (.ok ())) ∨
    ∃ e, call.message.payload v role = .error e ∧
      (writeEach v role calls sink).1[i]? = some (.error e) ∧
      (writeEach v role (calls.take (i + 1)) sink).2 =
        (writeEach v role (calls.take i) sink).2 := by
  induction calls generalizing sink i with
  | nil => simp at h
  | cons first calls ih =>
    have hnext : (writeMessage v role first.chunkSize first.message sink).2.Steady :=
      (writeEach_of_steady v role hsteady [first]).1
    cases i with
    | zero =>
      obtain rfl : first = call := by simpa using h
      cases hp : first.message.payload v role with
      | ok payload =>
        obtain ⟨after, hwrite, -⟩ := writeMessage_of_ok first.chunkSize hsteady hp
        exact .inl ⟨payload, rfl, by simp [writeEach, hwrite]⟩
      | error e => exact .inr ⟨e, rfl, by simp [writeEach, writeMessage_of_error _ hp]⟩
    | succ i => exact ih hnext h

/-- A call that writes a message to a steady sink fails exactly if the name of the message has no
tag, or a structure with more fields than two bytes count is in it, at any depth, or is the message
itself. Such a call leaves the sink as it was, and what all the calls have written is read as the
messages of those that have succeeded. -/
theorem writeEach_all_or_nothing (v : Version) (role : Role) (hsteady : sink.Steady)
    (calls : List Call) :
    (∀ i call, calls[i]? = some call →
      (∀ field ∈ call.message.fields, ∀ w : Value, w.Occurs field → w.Counted) →
      ((∃ e, (writeEach v role calls sink).1[i]? = some (.error e)) ↔
        v.tag? role call.message.name = none ∨ 0xFFFF < call.message.fields.length ∨
          ∃ field ∈ call.message.fields, ∃ w : Value, w.Occurs field ∧ w.Overfull) ∧
      ∀ e, (writeEach v role calls sink).1[i]? = some (.error e) →
        (writeEach v role (calls.take (i + 1)) sink).2 =
          (writeEach v role (calls.take i) sink).2) ∧
    ∃ output, (writeEach v role calls sink).2.output.toList = sink.output.toList ++ output ∧
      let messages := written calls (writeEach v role calls sink).1
      ∀ (limit : Nat) (s : Source),
        (∀ m ∈ messages, Value.OrderedItems m.fields ∧ (∀ field ∈ m.fields, field.height ≤ 63) ∧
          ∀ payload, m.payload v role = .ok payload → payload.length ≤ limit) →
        s.bytes = output → s.stop? = none →
        ∀ more, readEach v role limit (messages.length + more) s =
          messages.map (fun m ↦ .ok (some m)) ++ List.replicate more (.ok none) := by
  constructor
  · intro i call hcall hcounted
    rw [← Message.exists_payload_error_iff hcounted]
    rcases writeEach_getElem? v role hsteady hcall with ⟨payload, hp, hi⟩ | ⟨e, hp, hi, hsame⟩
    · simp [hp, hi]
    · simp [hp, hi, hsame]
  · obtain ⟨-, sent, hwritten, hpayloads, hout⟩ := writeEach_of_steady v role hsteady calls
    refine ⟨_, hout, ?_⟩
    dsimp only
    rw [hwritten]
    intro limit s hmessages hbytes hend more
    rw [List.forall_mem_map] at hmessages
    have hletters : ∀ letter ∈ sent.map Prod.fst,
        letter.payload ≠ [] ∧ letter.payload.length ≤ limit := by
      rw [List.forall_mem_map]
      intro p hp
      exact ⟨Message.ne_nil_of_payload (hpayloads p hp), (hmessages p hp).2.2 _ (hpayloads p hp)⟩
    have hread := readEach_letters v role more hletters
      ((Source.ready_eq_bytes hend).trans hbytes) hend
    rw [List.length_map] at hread ⊢
    rw [hread, List.map_map, List.map_map]
    congr 1
    apply List.map_congr_left
    intro p hp
    obtain ⟨ho, hd, -⟩ := hmessages p hp
    exact congrArg (Except.map some) (Message.ofPayload_of_payload (hpayloads p hp) ho hd)

/-- A sink that takes three bytes at a time. -/
private def threes : Sink := .bounded none (some 3) none none

private theorem steady_threes : threes.Steady where
  takes _ _ offered h := ⟨min 3 offered - 1, by simp only [threes, Sink.bounded]; congr 1; omega⟩
  flushes _ _ := rfl

private def success : Message := ⟨"SUCCESS", [.map [("a", .integer 1)]]⟩

private def ignored : Message := ⟨"IGNORED", []⟩

/-- A record of a list with a structure that has too many fields. -/
private def overfull : Message :=
  ⟨"RECORD", [.list [.struct 0x4E (List.replicate 0x10000 .null)]]⟩

/-- Four calls, of which the second has a name that a server does not send, and the third has too
many fields below its list. -/
private def partly : List Call :=
  [⟨0, success⟩, ⟨7, ⟨"HELLO", []⟩⟩, ⟨100, overfull⟩, ⟨70000, ignored⟩]

private theorem counted_overfull : ∀ field ∈ overfull.fields, ∀ w : Value, w.Occurs field →
    w.Counted := by
  intro field hfield
  obtain rfl := List.mem_singleton.mp hfield
  refine Value.forall_occurs_list_iff.mpr ⟨show 1 < 0x100000000 by decide, ?_⟩
  intro field hfield
  obtain rfl := List.mem_singleton.mp hfield
  refine Value.forall_occurs_struct_iff.mpr ⟨trivial, ?_⟩
  rintro field hfield w hw
  obtain rfl := List.eq_of_mem_replicate hfield
  cases hw with
  | here => trivial

/-- The third message is at fault for a structure two levels below it. -/
private theorem overfull_field :
    ∃ field ∈ overfull.fields, ∃ w : Value, w.Occurs field ∧ w.Overfull := by
  refine ⟨_, List.mem_singleton_self _, _, .item (List.mem_singleton_self _) .here, ?_⟩
  show 0xFFFF < (List.replicate 0x10000 Value.null).length
  rw [List.length_replicate]
  decide

private theorem payload_success :
    success.payload ⟨4, 1⟩ .server = .ok [0xB1, 0x70, 0xA1, 0x81, 0x61, 1] := by rfl

private theorem payload_ignored : ignored.payload ⟨4, 1⟩ .server = .ok [0xB0, 0x7E] := by rfl

private theorem written_partly :
    written partly (writeEach ⟨4, 1⟩ .server partly threes).1 = [success, ignored] := by
  obtain ⟨e, hover⟩ : ∃ e, overfull.payload ⟨4, 1⟩ .server = .error e :=
    (Message.exists_payload_error_iff counted_overfull).mpr (.inr (.inr overfull_field))
  have hhello : Message.payload ⟨4, 1⟩ .server ⟨"HELLO", []⟩ =
      .error (.protocol (.unavailable "HELLO" ⟨4, 1⟩)) := rfl
  obtain ⟨after, hfirst, hafter, -⟩ :=
    writeMessage_of_ok 0 steady_threes payload_success
  obtain ⟨last, hlast, -⟩ := writeMessage_of_ok 70000 hafter payload_ignored
  simp only [partly, writeEach, hfirst, writeMessage_of_error 7 hhello,
    writeMessage_of_error 100 hover, hlast]
  rfl

/-- What a server has written of four messages is read as the two that can be written. -/
theorem writeEach_partly :
    (∃ e, (writeEach ⟨4, 1⟩ .server partly threes).1[1]? = some (.error e)) ∧
    (∃ e, (writeEach ⟨4, 1⟩ .server partly threes).1[2]? = some (.error e)) ∧
    ∃ output, (writeEach ⟨4, 1⟩ .server partly threes).2.output.toList = output ∧
      ∀ s : Source, s.bytes = output → s.stop? = none → readEach ⟨4, 1⟩ .server 6 4 s =
        [.ok (some success), .ok (some ignored), .ok none, .ok none] := by
  obtain ⟨hcalls, output, hout, hread⟩ :=
    writeEach_all_or_nothing ⟨4, 1⟩ .server steady_threes partly
  rw [written_partly] at hread
  refine ⟨?_, ?_, output, hout, ?_⟩
  · exact (hcalls 1 _ rfl nofun).1.mpr (.inl rfl)
  · exact (hcalls 2 _ rfl counted_overfull).1.mpr (.inr (.inr overfull_field))
  · intro s hbytes hend
    refine hread 6 s ?_ hbytes hend 2
    intro m hm
    rcases List.mem_cons.mp hm with rfl | hm
    · refine ⟨?_, by decide, ?_⟩
      · simp [success, Value.OrderedItems, Value.Ordered, Value.OrderedEntries]
      · rw [payload_success]
        rintro payload ⟨⟩
        decide
    · obtain rfl := List.mem_singleton.mp hm
      refine ⟨trivial, nofun, ?_⟩
      rw [payload_ignored]
      rintro payload ⟨⟩
      decide

end Frame

end ScriptedBolt
