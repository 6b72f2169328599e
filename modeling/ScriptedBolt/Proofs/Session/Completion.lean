import ScriptedBolt.Proofs.Session.Passage
import ScriptedBolt.Proofs.Session.Run

/-!
# Completion

A run completes for the right reason only: the client has proposed a version that was chosen, and
has sent a message for each of its lines before the first exit, while the server has written its
reply and each of its actions. In the other direction every client that does so completes the
run, however its messages are cut into chunks and whatever follows them, as long as the sink
takes what it is offered.
-/

namespace ScriptedBolt.Session

/-- Bytes that a client may send for a line: a message that matches it, within the limit on its
size and the bound on its depth, in chunks of any size and behind any number of keep-alives. The
maps in it have their keys in order, as maps are kept. -/
inductive Faithful (v : Version) (script : Script) (limit : Nat) (e : Expect) : Bytes → Prop
  | sent {m : Message} {payload : Bytes} (count chunkSize : Nat)
    (hm : script.matchesLine e m = true) (hp : m.payload v .client = .ok payload)
    (hl : payload.length ≤ limit) (ho : Value.OrderedItems m.fields)
    (hd : ∀ field ∈ m.fields, field.height ≤ 63) :
    Faithful v script limit e (Frame.keepAlives count ++ Frame.ofPayload chunkSize payload)

variable {ctx : Context} {v : Version} {script : Script} {link : Link}

/-! ### Steps of a faithful client -/

/-- Whether bytes are a frame within the limit on its size, with a message that matches a line. -/
def Matching (v : Version) (script : Script) (limit : Nat) (e : Expect) (frame : Bytes) : Prop :=
  ∃ payload m, Frame.Carries frame payload ∧ payload.length ≤ limit ∧
    Message.ofPayload v .client payload = .ok m ∧ script.matchesLine e m = true

/-- What a faithful client sends matches the line it is for. -/
theorem Faithful.matching {limit : Nat} {e : Expect} {frame : Bytes}
    (h : Faithful v script limit e frame) : Matching v script limit e frame := by
  cases h with
  | @sent m payload count chunkSize hm hp hl ho hd =>
    exact ⟨payload, m, Frame.carries_ofPayload count chunkSize (Message.ne_nil_of_payload hp), hl,
      Message.ofPayload_of_payload hp ho hd, hm⟩

/-- A message that matches a line is heard as that line. -/
theorem take_of_matching {e : Expect} {frame more : Bytes} (left : Nat)
    (h : Matching v script ctx.settings.maxMessageSize e frame)
    (hready : link.source.ready = frame ++ more) :
    ∃ rest : Source, take ctx v script left link (.hear e) = .ok { link with source := rest } ∧
      rest.ready = more ∧ rest.stop? = link.source.stop? := by
  obtain ⟨payload, m, hcarries, hlimit, hread, hmatch⟩ := h
  obtain ⟨hresult, hrest⟩ := Frame.readMessage_of_carries hcarries hread hlimit hready
  refine ⟨_, ?_, hrest⟩
  simp only [take, hresult, hmatch, ↓reduceIte]

/-- An action that has bytes is performed in full on a sink that takes what it is offered. -/
theorem take_of_steady {r : Reply} (left : Nat) (hx : (Cue.perform r).isExit = false)
    (hb : speakable ctx.settings v (.perform r) = true) (hsteady : link.sink.Steady) :
    ∃ sink : Sink, take ctx v script left link (.perform r) = .ok { link with sink } ∧
      sink.Steady := by
  obtain ⟨bytes, hbytes⟩ := speakable_iff.mp hb
  rcases take_of_lineBytes ctx v script left link hx hbytes with ⟨-, ht⟩ | ht
  · exact ⟨link.sink, ht, hsteady⟩
  · obtain ⟨hsend, hafter⟩ := Sink.send_of_steady hsteady bytes
    refine ⟨_, ?_, hafter⟩
    rw [ht]
    generalize link.sink.send bytes = sent at hsend
    obtain ⟨result, sink⟩ := sent
    obtain rfl : result = .ok () := hsend
    rfl

/-- A client whose messages match is followed to the exit or the end of the cues. -/
theorem follow_of_matching {cues : List Cue} {frames : List Bytes} {more : Bytes}
    (hall : ∀ cue ∈ cues.takeWhile (!·.isExit), speakable ctx.settings v cue = true)
    (hsent : List.Forall₂ (Matching v script ctx.settings.maxMessageSize)
      (Cue.expects (cues.takeWhile (!·.isExit))) frames)
    (hready : link.source.ready = frames.flatten ++ more) (hsteady : link.sink.Steady) :
    (follow ctx v script cues link).1 = .completed := by
  induction cues generalizing link frames with
  | nil => rfl
  | cons cue cues ih =>
    rw [follow]
    cases hx : cue.isExit with
    | true => rw [take_of_isExit ctx v script (cues.length + 1) link hx]
    | false =>
      rw [List.takeWhile_cons_of_pos (by simp [hx])] at hall hsent
      have hrest := fun cue hc ↦ hall cue (List.mem_cons_of_mem _ hc)
      cases cue with
      | hear e =>
        cases hsent with
        | cons hframe hframes =>
          rw [List.flatten_cons, List.append_assoc] at hready
          obtain ⟨rest, ht, hready, -⟩ := take_of_matching (cues.length + 1) hframe hready
          rw [ht]
          exact ih hrest hframes hready hsteady
      | perform r =>
        obtain ⟨sink, ht, hsteady⟩ :=
          take_of_steady (cues.length + 1) hx (hall _ List.mem_cons_self) hsteady
        rw [ht]
        exact ih hrest hsent hready hsteady

/-! ### Runs -/

/-- Whether a run went through its script: a version was chosen among those proposed, the rest of
what was consumed is a matching message for each line of the client before the exit, and what was
written is the reply and each action before the exit. -/
structure Played (ctx : Context) (script : Script) (link : Link) (p : Handshake.Proposals)
    (v : Version) (frames : List Bytes) : Prop where
  chosen : Handshake.negotiate p script.version? = .ok v
  source : link.source.bytes = Handshake.magic ++ p.bytes ++ frames.flatten ++
    (run ctx script link).link.source.bytes
  heard : List.Forall₂ (Heard v script) (Cue.expects script.beforeExit) frames
  speakable : ∀ cue ∈ script.beforeExit, speakable ctx.settings v cue = true
  output : (run ctx script link).link.sink.output.toList = link.sink.output.toList ++
    script.answerTo v ++ spoken ctx.settings v script.beforeExit

/-- After a handshake, a run that completes went through its script. -/
theorem played_of_agreed (hfull : script.Full) (hs : (shakeHands ctx script link).1 = .ok v)
    (h : (run ctx script link).conversation.state = .completed) :
    ∃ p frames, Played ctx script link p v frames := by
  obtain ⟨p, after, -, hn, hbytes, hout, hfollow, -⟩ := follow_of_agreed hfull hs
  rw [h] at hfollow
  obtain ⟨hall, frames, hp⟩ := passage_of_completed hfollow
  refine ⟨p, frames, hn, ?_, hp.heard, hall, ?_⟩
  · have hsource := hp.source
    rw [List.append_nil] at hsource
    rw [hbytes, hsource]
    simp only [List.append_assoc]
  · rw [hp.output, List.append_nil, hout]
    rfl

/-- A client that proposes a version and then sends a matching message for each of its lines
before the exit completes the run. -/
theorem completed_of_matching (hfull : script.Full) {p : Handshake.Proposals}
    (hn : Handshake.negotiate p script.version? = .ok v) {frames : List Bytes}
    (hsent : List.Forall₂ (Matching v script ctx.settings.maxMessageSize)
      (Cue.expects script.beforeExit) frames)
    (hall : ∀ cue ∈ script.beforeExit, speakable ctx.settings v cue = true)
    (hready : Handshake.magic ++ p.bytes ++ frames.flatten <+: link.source.ready)
    (hsteady : link.sink.Steady) :
    (shakeHands ctx script link).1 = .ok v ∧
      (run ctx script link).conversation.state = .completed := by
  obtain ⟨more, hready⟩ := hready
  rw [List.append_assoc _ frames.flatten] at hready
  obtain ⟨ho, hdrop⟩ := Handshake.opening?_of_ready hready.symm
  obtain ⟨rest, hrest, -, hafter, -, hok⟩ := shakeHands_of_agreed ctx ho hn
  obtain ⟨hw, hsteady⟩ := Sink.send_of_steady hsteady (script.answerTo v)
  obtain ⟨hstate, -, -⟩ := run_of_agreed hfull (hok hw)
  refine ⟨hok hw, ?_⟩
  rw [hstate, hafter]
  exact follow_of_matching hall hsent (hrest.trans hdrop) hsteady

/-- A run of a script with lines that completes went through its script. -/
theorem run_completed_sound {text : String} (hparse : Script.parse text = .ok script)
    (hlines : script.blocks ≠ [])
    (h : (run ctx script link).conversation.state = .completed) :
    ∃ p v frames, Played ctx script link p v frames := by
  cases hs : (shakeHands ctx script link).1 with
  | error e =>
    rw [state_of_refused hlines hs] at h
    simp at h
  | ok v =>
    obtain ⟨p, frames, hplayed⟩ := played_of_agreed (Script.full_of_parse hparse) hs h
    exact ⟨p, v, frames, hplayed⟩

/-- A client whose messages match completes the run, and the server writes its reply and all its
actions before the exit. -/
theorem run_of_matching (link : Link) {text : String} (hparse : Script.parse text = .ok script)
    {p : Handshake.Proposals} (hn : Handshake.negotiate p script.version? = .ok v)
    {frames : List Bytes}
    (hsent : List.Forall₂ (Matching v script ctx.settings.maxMessageSize)
      (Cue.expects script.beforeExit) frames)
    (hall : ∀ cue ∈ script.beforeExit, speakable ctx.settings v cue = true)
    (hready : Handshake.magic ++ p.bytes ++ frames.flatten <+: link.source.ready)
    (hsteady : link.sink.Steady) :
    (run ctx script link).conversation.state = .completed ∧
      (run ctx script link).link.sink.output.toList = link.sink.output.toList ++
        script.answerTo v ++ spoken ctx.settings v script.beforeExit := by
  have hfull := Script.full_of_parse hparse
  obtain ⟨hs, hcompleted⟩ := completed_of_matching hfull hn hsent hall hready hsteady
  obtain ⟨p, frames, hplayed⟩ := played_of_agreed hfull hs hcompleted
  exact ⟨hcompleted, hplayed.output⟩

/-- A faithful client completes the run, and the server writes its reply and all its actions
before the exit. -/
theorem run_completed_of_faithful {text : String} (hparse : Script.parse text = .ok script)
    {p : Handshake.Proposals} (hn : Handshake.negotiate p script.version? = .ok v)
    {frames : List Bytes}
    (hsent : List.Forall₂ (Faithful v script ctx.settings.maxMessageSize)
      (Cue.expects script.beforeExit) frames)
    (hall : ∀ cue ∈ script.beforeExit, speakable ctx.settings v cue = true)
    (hready : Handshake.magic ++ p.bytes ++ frames.flatten <+: link.source.ready)
    (hsteady : link.sink.Steady) :
    (run ctx script link).conversation.state = .completed ∧
      (run ctx script link).link.sink.output.toList = link.sink.output.toList ++
        script.answerTo v ++ spoken ctx.settings v script.beforeExit :=
  run_of_matching link hparse hn (hsent.imp fun _ _ h ↦ h.matching) hall hready hsteady

/-! ### A faithful client -/

/-- Settings that allow for messages of two bytes. -/
def modest : Context := ⟨Settings.default.withMaxMessageSize 2, "peer"⟩

/-- The frame of a reset in chunks of one byte, behind a keep-alive. -/
def resetFrame : Bytes := Frame.keepAlives 1 ++ Frame.ofPayload 1 [0xB0, 0x0F]

/-- A client that proposes version 1.0 and resets. -/
def resetter : Link where
  source := [.deliver (Handshake.magic ++ (⟨1, 0, 0, 0⟩ : Handshake.Proposals).bytes ++
    [resetFrame].flatten)]
  sink := .unbounded

/-- The version that is proposed is chosen. -/
theorem negotiate_resetter :
    Handshake.negotiate ⟨1, 0, 0, 0⟩ Script.dialogue.version? = .ok ⟨1, 0⟩ := rfl

/-- A client that resets is faithful to a script that expects just that. -/
theorem faithful_resetter :
    List.Forall₂ (Faithful ⟨1, 0⟩ Script.dialogue modest.settings.maxMessageSize)
      (Cue.expects Script.dialogue.beforeExit) [resetFrame] :=
  .cons (.sent (m := ⟨"RESET", []⟩) 1 1 rfl rfl (Nat.le_refl 2) trivial (by simp)) .nil

/-- A keep-alive can be written. -/
theorem speakable_dialogue :
    ∀ cue ∈ Script.dialogue.beforeExit, speakable modest.settings ⟨1, 0⟩ cue = true := by
  intro cue hc
  change cue ∈ [.hear ⟨1, ⟨"RESET", []⟩⟩, .perform ⟨2, .keepAlive⟩] at hc
  simp only [List.mem_cons, List.not_mem_nil, or_false] at hc
  rcases hc with rfl | rfl
  · rfl
  · rfl

/-- The opening of a client that resets is ready, and then its message. -/
theorem ready_resetter :
    Handshake.magic ++ (⟨1, 0, 0, 0⟩ : Handshake.Proposals).bytes ++ [resetFrame].flatten <+:
      resetter.source.ready :=
  List.prefix_append ..

/-- The completed run of a client that resets went through its script: the version was answered, and
the keep-alive behind the reset was written. -/
theorem run_completed_sound_resetter :
    Script.parse "C: RESET\nS: <NOOP>" = .ok Script.dialogue ∧ Script.dialogue.blocks ≠ [] ∧
      (run modest Script.dialogue resetter).conversation.state = .completed ∧
      (run modest Script.dialogue resetter).link.sink.output.toList = [0, 0, 0, 1, 0, 0] ∧
      ∃ p v frames, Played modest Script.dialogue resetter p v frames := by
  have hlines : Script.dialogue.blocks ≠ [] := List.cons_ne_nil _ _
  have hmatching := faithful_resetter.imp fun _ _ h ↦ h.matching
  obtain ⟨hcompleted, hout⟩ := run_of_matching resetter Script.parse_dialogue negotiate_resetter
    hmatching speakable_dialogue ready_resetter Sink.steady_unbounded
  exact ⟨Script.parse_dialogue, hlines, hcompleted, hout,
    run_completed_sound Script.parse_dialogue hlines hcompleted⟩

/-- A client that resets completes a script of a reset and a keep-alive. -/
theorem run_completed_of_resetter :
    (run modest Script.dialogue resetter).conversation.state = .completed ∧
      (run modest Script.dialogue resetter).link.sink.output.toList = [0, 0, 0, 1, 0, 0] :=
  run_completed_of_faithful Script.parse_dialogue negotiate_resetter faithful_resetter
    speakable_dialogue ready_resetter Sink.steady_unbounded

end ScriptedBolt.Session
