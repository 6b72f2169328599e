import ScriptedBolt.Proofs.Frame.Reading
import ScriptedBolt.Proofs.PackStream.Depth

/-!
# Messages on the wire

The payload that is written for a message is read as that message by the same role in the same
version, since every catalogue has every name and every tag once, unless a field of it is nested
too deep for the reader. A message may be read from any frame of its payload.
-/

namespace ScriptedBolt

/-- A tag has the name of that tag, in every catalogue. -/
theorem Version.name?_of_tag? {v : Version} {role : Role} {name : String} {tag : UInt8}
    (h : v.tag? role name = some tag) : v.name? role tag = some name := by
  have key (c : Catalogue) (hc : ∀ entry ∈ c, c.name? entry.2 = some entry.1)
      (h : c.tag? name = some tag) : c.name? tag = some name := by
    simp only [Catalogue.tag?, Option.map_eq_some_iff] at h
    obtain ⟨entry, he, rfl⟩ := h
    have hname := List.find?_some he
    simp only [beq_iff_eq] at hname
    rw [hc entry (List.mem_of_find?_eq_some he), hname]
  apply key _ _ h
  cases role
  · simp only [catalogue]
    split
    · decide
    · split <;> decide
  · show ∀ entry ∈ Catalogue.anyServer, Catalogue.anyServer.name? entry.2 = some entry.1
    decide

/-- Items are as high as the highest of them allows. -/
theorem Value.heightOfItems_le {items : List Value} {n : Nat} (h : ∀ v ∈ items, v.height ≤ n) :
    heightOfItems items ≤ n + 1 := by
  induction items with
  | nil => exact Nat.zero_le _
  | cons v vs ih =>
    have hv := h v List.mem_cons_self
    have hvs := ih fun w hw ↦ h w (List.mem_cons_of_mem _ hw)
    rw [heightOfItems]
    omega

/-- An item is less high than the items that it is among. -/
theorem Value.height_lt_heightOfItems {items : List Value} {v : Value} (h : v ∈ items) :
    v.height < heightOfItems items := by
  induction items with
  | nil => simp at h
  | cons w ws ih =>
    rw [heightOfItems]
    rcases List.mem_cons.mp h with rfl | h
    · exact Nat.lt_of_lt_of_le (Nat.lt_succ_self _) (Nat.le_max_left ..)
    · exact Nat.lt_of_lt_of_le (ih h) (Nat.le_max_right ..)

namespace Message

variable {v : Version} {role : Role} {m : Message} {payload : Bytes}

/-- What succeeds does so whatever its errors are turned into. -/
private theorem mapError_eq_ok_iff {ε ε' α : Type} {result : Except ε α} {f : ε → ε'} {a : α} :
    result.mapError f = .ok a ↔ result = .ok a := by
  cases result with
  | error e => exact ⟨nofun, nofun⟩
  | ok b => exact ⟨fun h ↦ congrArg Except.ok (Except.ok.inj h), fun h ↦ h ▸ rfl⟩

/-- A message has the payload of a structure, whose tag is that of its name. -/
theorem payload_eq_ok_iff : m.payload v role = .ok payload ↔
    ∃ tag, v.tag? role m.name = some tag ∧
      PackStream.encode (.struct tag m.fields) = .ok payload := by
  unfold Message.payload
  cases v.tag? role m.name with
  | none => simp
  | some tag =>
    simp only [Option.some.injEq, exists_eq_left']
    exact mapError_eq_ok_iff

/-- A payload that is written is read as its message, if its fields are not nested too deep. -/
theorem ofPayload_of_payload (h : m.payload v role = .ok payload)
    (ho : Value.OrderedItems m.fields) (hd : ∀ field ∈ m.fields, field.height ≤ 63) :
    ofPayload v role payload = .ok m := by
  obtain ⟨tag, htag, hencode⟩ := payload_eq_ok_iff.mp h
  have hheight : (Value.struct tag m.fields).height ≤ PackStream.maxDepth :=
    Value.heightOfItems_le hd
  rw [ofPayload, PackStream.decode_of_encode hencode ho hheight]
  simp only [Version.name?_of_tag? htag]

/-- A payload that is written is not read if a field of its message is nested too deep. -/
theorem ofPayload_tooDeep (h : m.payload v role = .ok payload)
    (ho : Value.OrderedItems m.fields) (hd : ∃ field ∈ m.fields, 63 < field.height) :
    ofPayload v role payload = .error (.protocol (.decode .tooDeep)) := by
  obtain ⟨tag, -, hencode⟩ := payload_eq_ok_iff.mp h
  obtain ⟨field, hfield, hdeep⟩ := hd
  have hheight : PackStream.maxDepth < (Value.struct tag m.fields).height :=
    Nat.lt_of_lt_of_le (Nat.succ_lt_succ hdeep) (Value.height_lt_heightOfItems hfield)
  rw [ofPayload, PackStream.decode_tooDeep hencode ho hheight]

/-- A payload that is written is not empty. -/
theorem ne_nil_of_payload (h : m.payload v role = .ok payload) : payload ≠ [] := by
  obtain ⟨tag, -, hencode⟩ := payload_eq_ok_iff.mp h
  exact List.ne_nil_of_length_pos (PackStream.length_pos_of_encode hencode)

end Message

namespace Frame

/-- Whether bytes are the frame of a message that a role sends in a version. -/
def Brings (v : Version) (role : Role) (frame : Bytes) (m : Message) : Prop :=
  ∃ payload, Carries frame payload ∧ Message.ofPayload v role payload = .ok m

variable {v : Version} {role : Role} {limit : Nat} {s : Source} {m : Message}

/-- A message that is read was brought by the bytes in front of what is left. -/
theorem brings_of_readMessage (h : (readMessage v role limit s).result = .ok (some m)) :
    ∃ frame, Brings v role frame m ∧
      s.bytes = frame ++ (readMessage v role limit s).rest.bytes := by
  unfold readMessage at h
  dsimp only at h
  split at h
  · simp at h
  · simp at h
  · next payload hp =>
    obtain ⟨frame, hcarries, -, hbytes⟩ := carries_of_read hp
    refine ⟨frame, ⟨payload, hcarries, ?_⟩, hbytes⟩
    cases hm : Message.ofPayload v role payload with
    | error e => simp [hm, Except.map] at h
    | ok m' =>
      rw [hm] at h
      obtain rfl : m' = m := by simpa [Except.map] using h
      rfl

/-- Reading a message never brings back bytes. -/
theorem bytes_readMessage_suffix (v : Version) (role : Role) (limit : Nat) (s : Source) :
    (readMessage v role limit s).rest.bytes <:+ s.bytes := bytes_read_suffix limit s

/-- When the frame of a payload within the limit is ready, what is made of the payload is read, be
it a message or not. -/
theorem readMessage_of_frame (v : Version) (role : Role) {frame payload more : Bytes}
    (h : Carries frame payload) (hlim : payload.length ≤ limit)
    (hready : s.ready = frame ++ more) :
    (readMessage v role limit s).result = (Message.ofPayload v role payload).map some ∧
      (readMessage v role limit s).rest.ready = more ∧
      (readMessage v role limit s).rest.stop? = s.stop? := by
  obtain ⟨hread, hrest⟩ := read_of_carries h hlim hready
  refine ⟨?_, hrest⟩
  simp only [readMessage, hread]

/-- When the frame of a payload within the limit is ready, its message is read. -/
theorem readMessage_of_carries {frame payload more : Bytes} (h : Carries frame payload)
    (hm : Message.ofPayload v role payload = .ok m) (hlim : payload.length ≤ limit)
    (hready : s.ready = frame ++ more) :
    (readMessage v role limit s).result = .ok (some m) ∧
      (readMessage v role limit s).rest.ready = more ∧
      (readMessage v role limit s).rest.stop? = s.stop? := by
  obtain ⟨hread, hrest⟩ := readMessage_of_frame v role h hlim hready
  refine ⟨?_, hrest⟩
  rw [hread, hm]
  rfl

end Frame

end ScriptedBolt
