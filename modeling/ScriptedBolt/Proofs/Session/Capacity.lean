import ScriptedBolt.Proofs.Session.Completion
import ScriptedBolt.Proofs.Wire.Capacity

/-!
# Runs whose sink fills up

A client that does everything right may still stop taking what it is sent. Wherever that is, it has
got the beginning of what there is to write, as long as it had room for. If that is all, the run
completes; if it is less than the reply, the handshake fails; otherwise the run fails with the first
action that does not fit, and no message for a line behind that action is read.
-/

namespace ScriptedBolt.Session

variable {ctx : Context} {v : Version} {script : Script} {link : Link} {cues : List Cue}
  {frames : List Bytes} {more : Bytes} {room : Nat}

/-- Whether an action is the first one of some cues for which `room` bytes are too few, with
`before` in front of it. -/
structure Chokes (settings : Settings) (v : Version) (cues : List Cue) (room : Nat)
    (before : List Cue) (r : Reply) : Prop where
  next : ∃ behind, cues = before ++ .perform r :: behind
  fits : (spoken settings v before).length ≤ room
  exceeds : room < (spoken settings v (before ++ [.perform r])).length

/-- How a session ends that has room to write `room` bytes: with all cues behind it, or with the
action that chokes it. The messages for the lines behind that action are still to be read. -/
inductive WrittenUpTo (settings : Settings) (v : Version) (cues : List Cue) (frames : List Bytes)
    (more : Bytes) (room : Nat) : State → Source → Prop
  | whole {rest : Source} (h : (spoken settings v cues).length ≤ room) :
    WrittenUpTo settings v cues frames more room .completed rest
  | part {before : List Cue} {r : Reply} {reason : String} {rest : Source}
    (h : Chokes settings v cues room before r)
    (hready : rest.ready = (frames.drop (Cue.expects before).length).flatten ++ more) :
    WrittenUpTo settings v cues frames more room (.failed (.writeError reason)) rest

/-! ### Cues in front of others -/

/-- An action chokes a session behind a cue if it does so once the bytes of that cue are written. -/
theorem Chokes.cons {cue : Cue} {bytes : Bytes} {before : List Cue} {r : Reply}
    (hb : lineBytes ctx.settings v cue = .ok bytes) (hle : bytes.length ≤ room)
    (h : Chokes ctx.settings v cues (room - bytes.length) before r) :
    Chokes ctx.settings v (cue :: cues) room (cue :: before) r := by
  obtain ⟨⟨behind, rfl⟩, hfits, hexceeds⟩ := h
  refine ⟨⟨behind, rfl⟩, ?_, ?_⟩
  · rw [spoken_cons hb, List.length_append]
    omega
  · rw [List.cons_append, spoken_cons hb, List.length_append]
    omega

/-- A session that is choked has no room for all its cues. -/
theorem Chokes.lt_length {before : List Cue} {r : Reply}
    (h : Chokes ctx.settings v cues room before r) :
    room < (spoken ctx.settings v cues).length := by
  obtain ⟨⟨behind, rfl⟩, -, hexceeds⟩ := h
  rw [List.append_cons, spoken_append, List.length_append]
  exact Nat.lt_add_right _ hexceeds

/-- A session that is to hear a message first ends as it does behind that message. -/
theorem WrittenUpTo.hear {state : State} {rest : Source}
    (h : WrittenUpTo ctx.settings v cues frames more room state rest) (e : Expect) (frame : Bytes) :
    WrittenUpTo ctx.settings v (.hear e :: cues) (frame :: frames) more room state rest := by
  have hnothing : lineBytes ctx.settings v (.hear e) = .ok [] := rfl
  cases h with
  | whole hle =>
    apply WrittenUpTo.whole
    rw [spoken_cons hnothing]
    exact hle
  | part hchokes hready => exact .part (hchokes.cons hnothing (Nat.zero_le _)) hready

/-- A session that has room for its first action ends as it does behind that action with the room
that is left. -/
theorem WrittenUpTo.perform {state : State} {rest : Source} {r : Reply} {bytes : Bytes}
    (hb : lineBytes ctx.settings v (.perform r) = .ok bytes) (hle : bytes.length ≤ room)
    (h : WrittenUpTo ctx.settings v cues frames more (room - bytes.length) state rest) :
    WrittenUpTo ctx.settings v (.perform r :: cues) frames more room state rest := by
  cases h with
  | whole hfits =>
    apply WrittenUpTo.whole
    rw [spoken_cons hb, List.length_append]
    omega
  | part hchokes hready => exact .part (hchokes.cons hb hle) hready

/-! ### Steps -/

/-- An action for which there is room is performed, and the room is less by its bytes. -/
theorem take_of_room {r : Reply} {bytes : Bytes} (left : Nat) (hx : (Cue.perform r).isExit = false)
    (hb : lineBytes ctx.settings v (.perform r) = .ok bytes) (hroom : link.sink.HasRoom room)
    (hle : bytes.length ≤ room) :
    ∃ sink : Sink, take ctx v script left link (.perform r) = .ok { link with sink } ∧
      sink.HasRoom (room - bytes.length) ∧
      sink.output.toList = link.sink.output.toList ++ bytes := by
  rcases take_of_lineBytes ctx v script left link hx hb with ⟨rfl, ht⟩ | ht
  · exact ⟨link.sink, ht, hroom, (List.append_nil _).symm⟩
  · have hsent := Sink.sent_of_room hroom bytes
    rw [ht]
    generalize link.sink.send bytes = sent at *
    cases hsent with
    | fits _ hafter hout => exact ⟨_, rfl, hafter, hout⟩
    | exceeds hlt => exact absurd hle (Nat.not_le_of_lt hlt)

/-- An action for which there is no room ends the session, and fills the room. -/
theorem take_of_no_room {r : Reply} {bytes : Bytes} (left : Nat)
    (hx : (Cue.perform r).isExit = false)
    (hb : lineBytes ctx.settings v (.perform r) = .ok bytes) (hroom : link.sink.HasRoom room)
    (hlt : room < bytes.length) :
    ∃ (sink : Sink) (reason : String), take ctx v script left link (.perform r) =
        .error (.failed (.writeError reason), { link with sink }) ∧
      sink.output.toList = link.sink.output.toList ++ bytes.take room := by
  rcases take_of_lineBytes ctx v script left link hx hb with ⟨rfl, -⟩ | ht
  · exact absurd hlt (Nat.not_lt_zero _)
  · have hsent := Sink.sent_of_room hroom bytes
    rw [ht]
    generalize link.sink.send bytes = sent at *
    cases hsent with
    | fits hle => exact absurd hle (Nat.not_le_of_lt hlt)
    | exceeds _ _ hout => exact ⟨_, _, rfl, hout⟩

/-- A client whose messages match is followed as far as there is room to write. -/
theorem follow_of_room (link : Link)
    (hall : ∀ cue ∈ cues.takeWhile (!·.isExit), speakable ctx.settings v cue = true)
    (hsent : List.Forall₂ (Matching v script ctx.settings.maxMessageSize)
      (Cue.expects (cues.takeWhile (!·.isExit))) frames)
    (hready : link.source.ready = frames.flatten ++ more) (hroom : link.sink.HasRoom room) :
    let ended := follow ctx v script cues link
    WrittenUpTo ctx.settings v (cues.takeWhile (!·.isExit)) frames more room ended.1
        ended.2.source ∧
      ended.2.sink.output.toList = link.sink.output.toList ++
        (spoken ctx.settings v (cues.takeWhile (!·.isExit))).take room := by
  dsimp only
  -- Without a cue ahead, the session completes and writes nothing.
  have stops (link : Link) (frames : List Bytes) (room : Nat) {left : List Cue} (h : left = []) :
      WrittenUpTo ctx.settings v left frames more room .completed link.source ∧
        link.sink.output.toList =
          link.sink.output.toList ++ (spoken ctx.settings v left).take room := by
    rw [h]
    exact ⟨.whole (Nat.zero_le _), by simp [spoken]⟩
  induction cues generalizing link frames room with
  | nil => exact stops link frames room rfl
  | cons cue cues ih =>
    rw [follow]
    cases hx : cue.isExit with
    | true =>
      rw [take_of_isExit ctx v script (cues.length + 1) link hx]
      exact stops link frames room (List.takeWhile_cons_of_neg (by simp [hx]))
    | false =>
      rw [List.takeWhile_cons_of_pos (by simp [hx])] at hall hsent ⊢
      have hrest := fun cue hc ↦ hall cue (List.mem_cons_of_mem _ hc)
      cases cue with
      | hear e =>
        cases hsent with
        | cons hframe hframes =>
          rw [List.flatten_cons, List.append_assoc] at hready
          obtain ⟨rest, ht, hready, -⟩ := take_of_matching (cues.length + 1) hframe hready
          rw [ht]
          have h := ih { link with source := rest } hrest hframes hready hroom
          rw [spoken_cons rfl]
          exact ⟨h.1.hear e _, h.2⟩
      | perform r =>
        obtain ⟨bytes, hb⟩ := speakable_iff.mp (hall _ List.mem_cons_self)
        rw [spoken_cons hb]
        by_cases hle : bytes.length ≤ room
        · obtain ⟨sink, ht, hroom, hout⟩ := take_of_room (cues.length + 1) hx hb hroom hle
          rw [ht]
          have h := ih { link with sink } hrest hsent hready hroom
          refine ⟨h.1.perform hb hle, ?_⟩
          rw [List.take_append, List.take_of_length_le hle, ← List.append_assoc, ← hout]
          exact h.2
        · have hlt := Nat.lt_of_not_le hle
          obtain ⟨sink, reason, ht, hout⟩ := take_of_no_room (cues.length + 1) hx hb hroom hlt
          rw [ht]
          have hchokes :
              Chokes ctx.settings v (.perform r :: cues.takeWhile (!·.isExit)) room [] r := by
            refine ⟨⟨_, rfl⟩, Nat.zero_le _, ?_⟩
            rw [List.nil_append, spoken_cons hb, List.length_append]
            exact Nat.lt_add_right _ hlt
          refine ⟨.part hchokes hready, ?_⟩
          rw [List.take_append_of_le_length (Nat.le_of_lt hlt)]
          exact hout

/-! ### Runs -/

variable {p : Handshake.Proposals}

/-- A run that has no room for its reply fails with the handshake, and reads no message. -/
theorem run_of_no_room_for_reply (hlines : script.blocks ≠ [])
    (hn : Handshake.negotiate p script.version? = .ok v)
    (hready : link.source.ready = Handshake.magic ++ p.bytes ++ more)
    (hroom : link.sink.HasRoom room) (hlt : room < (script.answerTo v).length) :
    let ended := run ctx script link
    (∃ reason, ended.conversation.state = .failed (.handshake reason)) ∧
      ended.link.source.ready = more ∧
      ended.link.sink.output.toList =
        link.sink.output.toList ++ (script.answerTo v).take room := by
  dsimp only
  obtain ⟨ho, hdrop⟩ := Handshake.opening?_of_ready hready
  obtain ⟨rest, hrest, -, hafter, herr, -⟩ := shakeHands_of_agreed ctx ho hn
  have hsent := Sink.sent_of_room hroom (script.answerTo v)
  generalize link.sink.send (script.answerTo v) = sent at *
  cases hsent with
  | fits hle => exact absurd hle (Nat.not_le_of_lt hlt)
  | @exceeds f after _ htimeout hout =>
    have hshaken := herr f rfl
    have hkind : failureOf ctx.settings .handshake (.io f) = .handshake (Error.io f).reason :=
      if_neg (ne_true_of_eq_false htimeout)
    refine ⟨⟨_, (state_of_refused hlines hshaken).trans (congrArg State.failed hkind)⟩, ?_⟩
    rw [(run_of_refused hshaken).2.1, hafter]
    exact ⟨hrest.trans hdrop, hout⟩

/-- A run that has room for its reply goes on as far as there is room left. -/
theorem run_of_room_for_reply (hfull : script.Full)
    (hn : Handshake.negotiate p script.version? = .ok v)
    (hsent : List.Forall₂ (Matching v script ctx.settings.maxMessageSize)
      (Cue.expects script.beforeExit) frames)
    (hall : ∀ cue ∈ script.beforeExit, speakable ctx.settings v cue = true)
    (hready : link.source.ready = Handshake.magic ++ p.bytes ++ (frames.flatten ++ more))
    (hroom : link.sink.HasRoom room) (hle : (script.answerTo v).length ≤ room) :
    let ended := run ctx script link
    let left := room - (script.answerTo v).length
    WrittenUpTo ctx.settings v script.beforeExit frames more left ended.conversation.state
        ended.link.source ∧
      ended.link.sink.output.toList = link.sink.output.toList ++
        (script.answerTo v ++ (spoken ctx.settings v script.beforeExit).take left) := by
  dsimp only
  obtain ⟨ho, hdrop⟩ := Handshake.opening?_of_ready hready
  obtain ⟨rest, hrest, -, hafter, -, hok⟩ := shakeHands_of_agreed ctx ho hn
  have hreply := Sink.sent_of_room hroom (script.answerTo v)
  generalize link.sink.send (script.answerTo v) = sent at *
  cases hreply with
  | exceeds hlt => exact absurd hle (Nat.not_le_of_lt hlt)
  | @fits after _ hleft hout =>
    obtain ⟨hstate, hlink, -⟩ := run_of_agreed hfull (hok rfl)
    rw [hstate, hlink, hafter]
    have h := follow_of_room ⟨rest, after⟩ hall hsent (hrest.trans hdrop) hleft
    refine ⟨h.1, ?_⟩
    rw [← List.append_assoc, ← hout]
    exact h.2

/-- A run against a client whose messages match, with a sink that has room for `room` bytes, writes
the first `room` bytes of what it writes in full on a sink that takes everything. It completes if
that is all of it. If the room is too small for the reply, the handshake fails and no message is
read. Otherwise the run fails with the action that chokes it, and no message behind it is read. -/
theorem run_of_room (link : Link) {text : String} (hparse : Script.parse text = .ok script)
    (hlines : script.blocks ≠ []) (hn : Handshake.negotiate p script.version? = .ok v)
    (hsent : List.Forall₂ (Matching v script ctx.settings.maxMessageSize)
      (Cue.expects script.beforeExit) frames)
    (hall : ∀ cue ∈ script.beforeExit, speakable ctx.settings v cue = true)
    (hready : link.source.ready = Handshake.magic ++ p.bytes ++ frames.flatten ++ more)
    {whole : Sink} (hsteady : whole.Steady) (hempty : whole.output = #[])
    (hroom : link.sink.HasRoom room) :
    let full := (run ctx script { link with sink := whole }).link.sink.output.toList
    let reply := script.answerTo v
    let ended := run ctx script link
    ended.link.sink.output.toList = link.sink.output.toList ++ full.take room ∧
      reply <+: full ∧
      (full.length ≤ room → ended.conversation.state = .completed) ∧
      (room < reply.length →
        (∃ reason, ended.conversation.state = .failed (.handshake reason)) ∧
          ended.link.source.ready = frames.flatten ++ more) ∧
      (reply.length ≤ room → room < full.length → ∃ before r,
        Chokes ctx.settings v script.beforeExit (room - reply.length) before r ∧
          (∃ reason, ended.conversation.state = .failed (.writeError reason)) ∧
          ended.link.source.ready =
            (frames.drop (Cue.expects before).length).flatten ++ more) := by
  have hprefix : Handshake.magic ++ p.bytes ++ frames.flatten <+: link.source.ready :=
    ⟨more, hready.symm⟩
  obtain ⟨-, hwhole⟩ :=
    run_of_matching { link with sink := whole } hparse hn hsent hall hprefix hsteady
  dsimp only at hwhole ⊢
  rw [hempty, List.append_assoc, List.nil_append] at hwhole
  rw [hwhole]
  rw [List.append_assoc _ frames.flatten] at hready
  -- What is written in full starts with the reply, so the room is spent on the reply first.
  by_cases hle : (script.answerTo v).length ≤ room
  · obtain ⟨hwritten, hout⟩ :=
      run_of_room_for_reply (Script.full_of_parse hparse) hn hsent hall hready hroom hle
    generalize run ctx script link = ended at *
    rw [hout, List.take_append, List.take_of_length_le hle, List.length_append]
    refine ⟨rfl, List.prefix_append .., ?_⟩
    generalize ended.conversation.state = state at *
    generalize ended.link.source = source at *
    cases hwritten with
    | whole hfits =>
      refine ⟨fun _ ↦ rfl, fun hlt ↦ absurd hle (Nat.not_le_of_lt hlt), fun _ hlt ↦ ?_⟩
      omega
    | part hchokes hleft =>
      refine ⟨fun hfits ↦ ?_, fun hlt ↦ absurd hle (Nat.not_le_of_lt hlt),
        fun _ _ ↦ ⟨_, _, hchokes, ⟨_, rfl⟩, hleft⟩⟩
      have hshort := hchokes.lt_length
      omega
  · have hlt := Nat.lt_of_not_le hle
    obtain ⟨hstate, hleft, hout⟩ := run_of_no_room_for_reply hlines hn hready hroom hlt
    rw [hout, List.take_append_of_le_length (Nat.le_of_lt hlt), List.length_append]
    refine ⟨rfl, List.prefix_append .., fun hfits ↦ ?_, fun _ ↦ ⟨hstate, hleft⟩,
      fun hreply ↦ absurd hreply hle⟩
    omega

/-- A sink with room for the reply and a byte more lets a client that resets see that much of a
keep-alive. -/
theorem run_of_room_resetter :
    let crowded : Sink := .bounded (some 5) (some 2) (some ⟨.brokenPipe, "gone"⟩) none
    let ended := run modest Script.dialogue { resetter with sink := crowded }
    ended.link.sink.output.toList = [0, 0, 0, 1, 0] ∧
      ∃ reason, ended.conversation.state = .failed (.writeError reason) := by
  intro crowded ended
  have hmatching := faithful_resetter.imp fun _ _ h ↦ h.matching
  have hready : resetter.source.ready = Handshake.magic ++
      (⟨1, 0, 0, 0⟩ : Handshake.Proposals).bytes ++ [resetFrame].flatten ++ [] := rfl
  have hroom : crowded.HasRoom 5 := by
    apply Sink.hasRoom_bounded 5 (by decide)
    rintro f ⟨⟩
    decide
  have hfull : (run modest Script.dialogue
      { { resetter with sink := crowded } with sink := .unbounded }).link.sink.output.toList =
      [0, 0, 0, 1, 0, 0] :=
    (run_of_matching resetter Script.parse_dialogue negotiate_resetter hmatching
      speakable_dialogue ready_resetter Sink.steady_unbounded).2
  obtain ⟨hout, -, -, -, hchoked⟩ := run_of_room { resetter with sink := crowded }
    Script.parse_dialogue (List.cons_ne_nil _ _) negotiate_resetter hmatching speakable_dialogue
    hready Sink.steady_unbounded rfl hroom
  rw [hfull] at hout hchoked
  obtain ⟨-, -, -, hstate, -⟩ := hchoked (by decide) (by decide)
  exact ⟨hout, hstate⟩

end ScriptedBolt.Session
