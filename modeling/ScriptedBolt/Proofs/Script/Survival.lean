import ScriptedBolt.Proofs.Message.Wire
import ScriptedBolt.Proofs.Script.Spelling

/-!
# Messages of a script on the wire

A message of a script can be sent in every version that has its name. Its frame is put together
again whatever comes after it, and what is read is the message itself if its fields have at most
63 levels below them. A script can spell deeper fields, since a literal may have up to 127 lists
and objects inside of each other. Those are written as well, but are too deep to be read.
-/

namespace ScriptedBolt

namespace Frame

/-- The frame of a message is that of its payload. -/
theorem ofMessage_eq_ok_iff {v : Version} {role : Role} {chunkSize : Nat} {m : Message}
    {frame : Bytes} : ofMessage v role chunkSize m = .ok frame ↔
      ∃ payload, m.payload v role = .ok payload ∧ frame = ofPayload chunkSize payload := by
  unfold ofMessage
  cases m.payload v role <;> simp [Except.map, eq_comm]

end Frame

/-! ### Lists in each other -/

/-- A list with as many levels below it as asked for. -/
def Value.nest : (levels : Nat) → Value
  | 0 => .list []
  | levels + 1 => .list [nest levels]

/-- There are so many levels below it. -/
theorem Value.height_nest (levels : Nat) : (nest levels).height = levels := by
  induction levels with
  | zero => rfl
  | succ levels ih =>
    show max ((nest levels).height + 1) 0 = levels + 1
    rw [ih, Nat.max_zero]

/-- Each level takes a byte. -/
theorem PackStream.encode_nest (levels : Nat) :
    encode (.nest levels) = .ok (List.replicate levels 0x91 ++ [0x90]) := by
  induction levels with
  | zero => rfl
  | succ levels ih =>
    apply encode_list_eq_ok_iff.mpr
    refine ⟨[0x91], List.replicate levels 0x91 ++ [0x90], rfl, ?_, rfl⟩
    apply encodeItems_cons_eq_ok_iff.mpr
    exact ⟨_, [], ih, rfl, by rw [List.append_nil]⟩

namespace Literal

/-- The text of such a list. -/
def nestText : (levels : Nat) → List Char
  | 0 => ['[', ']']
  | levels + 1 => '[' :: nestText levels ++ [']']

end Literal

namespace Value

/-- It is the spelling of the list. -/
theorem spelling_nest (levels : Nat) : (nest levels).spelling = Literal.nestText levels := by
  induction levels with
  | zero => rfl
  | succ levels ih =>
    show '[' :: ((nest levels).spelling ++ [] ++ [']']) = _
    rw [ih, List.append_nil]
    rfl

/-- The list is read back. -/
theorem legible_nest (levels : Nat) : (nest levels).Legible := by
  induction levels with
  | zero => trivial
  | succ levels ih => exact ⟨ih, trivial⟩

/-- With the outermost one there is a list more than levels below it. -/
theorem nesting_nest (levels : Nat) : (nest levels).nesting = levels + 1 := by
  induction levels with
  | zero => rfl
  | succ levels ih =>
    show max (nest levels).nesting 0 + 1 = levels + 1 + 1
    rw [ih, Nat.max_zero]

end Value

namespace Script

/-! ### A script with a field of some height -/

/-- A message with such a list as its field. -/
def deepReset (levels : Nat) : Message := ⟨"RESET", [.nest levels]⟩

/-- The script in which the client sends it. -/
def deepScript (levels : Nat) : Script := ⟨[.client [⟨1, deepReset levels⟩]], []⟩

/-- The text of that script. -/
def deepText (levels : Nat) : String :=
  String.ofList ("C: RESET ".toList ++ Literal.nestText levels)

/-- The bytes of the message in version 3. -/
def deepPayload (levels : Nat) : Bytes := 0xB1 :: 0x0F :: (List.replicate levels 0x91 ++ [0x90])

/-- The message is read back if its field is. -/
theorem legible_deep {levels : Nat} (h : levels < Literal.maxNesting) :
    (deepReset levels).Legible .client where
  known := rfl
  legible := by
    intro field hfield
    rw [List.mem_singleton.mp hfield]
    exact Value.legible_nest levels
  shallow := by
    intro field hfield
    rw [List.mem_singleton.mp hfield, Value.nesting_nest]
    exact h

/-- The script is read if the field of its message is. -/
theorem parse_deep {levels : Nat} (h : levels < Literal.maxNesting) :
    parse (deepText levels) = .ok (deepScript levels) := by
  have hlegible := legible_deep h
  have htext : deepText levels = Role.client.mark ++ " " ++ (deepReset levels).text := by
    have hdeep : (deepText levels).toList = "C: RESET ".toList ++ Literal.nestText levels :=
      String.toList_ofList
    have hfields : ((deepReset levels).fields.flatMap fun field ↦ ' ' :: field.spelling) =
        ' ' :: Literal.nestText levels := by
      rw [← Value.spelling_nest]
      exact List.append_nil _
    have hfront : "C: RESET ".toList =
        (Role.client.mark ++ " ").toList ++ ("RESET".toList ++ [' ']) := by rfl
    apply String.toList_inj.mp
    rw [hdeep, String.toList_append, Message.toList_text, hfields, hfront, List.append_assoc,
      List.append_assoc]
    rfl
  rw [htext, parse_mark hlegible.isLine_text (.expect hlegible.readClient_text)]
  · rfl
  · rintro role name ⟨⟩
    exact hlegible.known

/-- In version 3 the message is written, however high its field is. -/
theorem payload_deep (levels : Nat) :
    (deepReset levels).payload ⟨3, 0⟩ .client = .ok (deepPayload levels) := by
  apply Message.payload_eq_ok_iff.mpr
  refine ⟨0x0F, rfl, PackStream.encode_struct_eq_ok_iff.mpr ?_⟩
  refine ⟨[0xB1, 0x0F], List.replicate levels 0x91 ++ [0x90], rfl, ?_, rfl⟩
  apply PackStream.encodeItems_cons_eq_ok_iff.mpr
  exact ⟨_, [], PackStream.encode_nest levels, rfl, by rw [List.append_nil]⟩

/-- In version 3 the message has a frame, however high its field is. -/
theorem frame_deep (chunkSize levels : Nat) :
    Frame.ofMessage ⟨3, 0⟩ .client chunkSize (deepReset levels) =
      .ok (Frame.ofPayload chunkSize (deepPayload levels)) :=
  Frame.ofMessage_eq_ok_iff.mpr ⟨_, payload_deep levels, rfl⟩

/-- The message is in the script. -/
theorem mem_cues_deep (levels : Nat) :
    Cue.hear ⟨1, deepReset levels⟩ ∈ (deepScript levels).cues := List.mem_singleton.mpr rfl

/-! ### Messages on the wire -/

variable {text : String} {script : Script} {cue : Cue} {role : Role} {m : Message}

/-- The fields of every message in a script that is read are ordered. -/
theorem ordered_of_parse (h : parse text = .ok script) (hcue : cue ∈ script.cues)
    (hm : cue.message? = some (role, m)) : Value.OrderedItems m.fields :=
  Value.orderedItems_of_plain _ (Value.plainItems_iff.mpr (plain_of_parse h hcue hm))

/-- Every message in a script that is read equals itself. -/
theorem eqv_self_of_parse (h : parse text = .ok script) (hcue : cue ∈ script.cues)
    (hm : cue.message? = some (role, m)) : m.eqv m = true := by
  have hplain := Value.plainItems_iff.mpr (plain_of_parse h hcue hm)
  rw [Message.eqv, beq_self_eq_true, Value.eqvItems_self _ hplain, Bool.and_self]

/-- The frame of a message in a script is put together again as the payload of the message,
whatever comes after it and however it arrives. The payload is read as a message equal to the one
in the script if the fields of that have at most 63 levels below them; otherwise it is too deep. -/
theorem message_survives {v : Version} {chunkSize : Nat} {frame : Bytes}
    (h : parse text = .ok script) (hcue : cue ∈ script.cues)
    (hm : cue.message? = some (role, m)) (hw : Frame.ofMessage v role chunkSize m = .ok frame) :
    ∃ payload, m.payload v role = .ok payload ∧
      (∀ (limit : Nat) (s : Source) (more : Bytes), payload.length ≤ limit →
        s.ready = frame ++ more → (Frame.read limit s).result = .ok (some payload) ∧
          (Frame.read limit s).rest.ready = more) ∧
      ((∀ field ∈ m.fields, field.height ≤ 63) →
        Message.ofPayload v role payload = .ok m ∧ m.eqv m = true) ∧
      ((∃ field ∈ m.fields, 63 < field.height) →
        Message.ofPayload v role payload = .error (.protocol (.decode .tooDeep))) := by
  obtain ⟨payload, hpayload, rfl⟩ := Frame.ofMessage_eq_ok_iff.mp hw
  have hcarries := Frame.carries_ofPayload 0 chunkSize (Message.ne_nil_of_payload hpayload)
  have hordered := ordered_of_parse h hcue hm
  refine ⟨payload, hpayload, ?_, ?_, Message.ofPayload_tooDeep hpayload hordered⟩
  · intro limit s more hlimit hready
    obtain ⟨hread, hrest, -⟩ := Frame.read_of_carries hcarries hlimit hready
    exact ⟨hread, hrest⟩
  · intro hheight
    exact ⟨Message.ofPayload_of_payload hpayload hordered hheight, eqv_self_of_parse h hcue hm⟩

/-- A field with 63 levels below it is not too deep, in a frame of two chunks that arrives in
two pieces. -/
theorem message_survives_deep :
    parse (deepText 63) = .ok (deepScript 63) ∧
      Cue.hear ⟨1, deepReset 63⟩ ∈ (deepScript 63).cues ∧
      Frame.ofMessage ⟨3, 0⟩ .client 50 (deepReset 63) =
        .ok (Frame.ofPayload 50 (deepPayload 63)) ∧
      (Frame.read 66 [.deliver ((Frame.ofPayload 50 (deepPayload 63)).take 9),
        .deliver ((Frame.ofPayload 50 (deepPayload 63)).drop 9)]).result =
          .ok (some (deepPayload 63)) ∧
      Message.ofPayload ⟨3, 0⟩ .client (deepPayload 63) = .ok (deepReset 63) := by
  have hparse := parse_deep (show 63 < Literal.maxNesting by decide)
  obtain ⟨payload, hpayload, hread, hsurvives, -⟩ :=
    message_survives hparse (mem_cues_deep 63) rfl (frame_deep 50 63)
  obtain rfl := Except.ok.inj ((payload_deep 63).symm.trans hpayload)
  have hheight : ∀ field ∈ (deepReset 63).fields, field.height ≤ 63 := by
    intro field hfield
    rw [List.mem_singleton.mp hfield]
    exact Nat.le_of_eq (Value.height_nest 63)
  refine ⟨hparse, mem_cues_deep 63, frame_deep 50 63, ?_, (hsurvives hheight).1⟩
  apply (hread 66 _ [] (by decide) _).1
  simp [Source.ready]

/-- A field with 64 levels below it can be spelled and is written, but what is written is not read
as a message. -/
theorem message_lost_deep :
    parse (deepText 64) = .ok (deepScript 64) ∧
      Cue.hear ⟨1, deepReset 64⟩ ∈ (deepScript 64).cues ∧
      Frame.ofMessage ⟨3, 0⟩ .client 8192 (deepReset 64) =
        .ok (Frame.ofPayload 8192 (deepPayload 64)) ∧
      (Frame.readMessage ⟨3, 0⟩ .client Frame.defaultMaxMessageSize
        [.deliver (Frame.ofPayload 8192 (deepPayload 64))]).result =
          .error (.protocol (.decode .tooDeep)) := by
  have hparse := parse_deep (show 64 < Literal.maxNesting by decide)
  have hheight : ∃ field ∈ (deepReset 64).fields, 63 < field.height :=
    ⟨_, List.mem_singleton.mpr rfl, Nat.lt_of_lt_of_eq (by decide) (Value.height_nest 64).symm⟩
  have htooDeep := Message.ofPayload_tooDeep (payload_deep 64)
    (ordered_of_parse hparse (mem_cues_deep 64) rfl) hheight
  have hcarries := Frame.carries_ofPayload 0 8192 (Message.ne_nil_of_payload (payload_deep 64))
  have hready : Source.ready [.deliver (Frame.ofPayload 8192 (deepPayload 64))] =
      Frame.keepAlives 0 ++ Frame.ofPayload 8192 (deepPayload 64) ++ [] := by
    simp [Source.ready, Frame.keepAlives]
  obtain ⟨hread, -⟩ := Frame.read_of_carries hcarries
    (show (deepPayload 64).length ≤ Frame.defaultMaxMessageSize by decide) hready
  refine ⟨hparse, mem_cues_deep 64, frame_deep 8192 64, ?_⟩
  simp only [Frame.readMessage, hread, htooDeep]
  rfl

end Script

end ScriptedBolt
