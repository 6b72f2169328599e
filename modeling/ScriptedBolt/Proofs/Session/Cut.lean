import ScriptedBolt.Proofs.Frame.Cut
import ScriptedBolt.Proofs.Session.Completion

/-!
# Clients that are cut off

What comes of a client that does everything right, but whose bytes end too early. In the opening
that is a failure of the handshake. After it, what is left of a message tells how the run ends: with
not a byte of it the script is incomplete, with some bytes of it the frame is cut. In both cases the
server has performed its actions up to the line whose message is missing, and none after it.
-/

namespace ScriptedBolt.Session

/-- Bytes that a client may send for a line when it sends no keep-alives. -/
inductive Prompt (v : Version) (script : Script) (limit : Nat) (e : Expect) : Bytes → Prop
  | sent {m : Message} {payload : Bytes} (chunkSize : Nat)
    (hm : script.matchesLine e m = true) (hp : m.payload v .client = .ok payload)
    (hl : payload.length ≤ limit) (ho : Value.OrderedItems m.fields)
    (hd : ∀ field ∈ m.fields, field.height ≤ 63) :
    Prompt v script limit e (Frame.ofPayload chunkSize payload)

/-- How a run ends when its client leaves behind `inside` bytes of a message, with `left` lines of
the script from that message on. -/
def cutOff (inside left : Nat) : State :=
  if inside = 0 then .failed (.incomplete left)
  else .failed (.protocol ProtocolCause.frameCut.message)

/-- Whether a client that is cut off leaves a session with `before` done, and with `inside` bytes of
the message for the next cue. -/
structure Stranded (cues : List Cue) (frames : List Bytes) (cut : Nat) (before : List Cue)
    (inside : Nat) : Prop where
  cutAt : Frame.CutAt frames cut (Cue.expects before).length inside
  next : ∃ e behind, cues = before ++ .hear e :: behind

variable {ctx : Context} {v : Version} {script : Script} {link : Link} {cues before : List Cue}
  {frames : List Bytes} {cut inside : Nat}

/-! ### Cues behind others -/

/-- A session is stranded behind a message that it has heard. -/
theorem Stranded.hear (h : Stranded cues frames cut before inside) (e : Expect) (frame : Bytes) :
    Stranded (.hear e :: cues) (frame :: frames) (frame.length + cut) (.hear e :: before)
      inside := by
  obtain ⟨⟨hcut, hinside⟩, expected, behind, rfl⟩ := h
  refine ⟨⟨?_, hinside⟩, expected, behind, rfl⟩
  show frame.length + cut =
    (frame :: frames.take (Cue.expects before).length).flatten.length + inside
  rw [hcut, List.flatten_cons, List.length_append, Nat.add_assoc]

/-- A session is stranded behind an action that it has performed. -/
theorem Stranded.perform (h : Stranded cues frames cut before inside) (r : Reply) :
    Stranded (.perform r :: cues) frames cut (.perform r :: before) inside := by
  obtain ⟨hcut, expected, behind, rfl⟩ := h
  exact ⟨hcut, expected, behind, rfl⟩

private theorem eq_nil_of_next {before more behind rest : List Cue} {e : Expect}
    (h : .hear e :: behind = more ++ rest)
    (hlen : (Cue.expects before).length = (Cue.expects (before ++ more)).length) : more = [] := by
  cases more with
  | nil => rfl
  | cons cue more =>
    obtain ⟨rfl, -⟩ := List.cons.inj h
    simp [Cue.expects, Cue.expect?] at hlen

/-- A session is stranded in one place. -/
theorem Stranded.unique {before' : List Cue} {inside' : Nat}
    (h : Stranded cues frames cut before inside) (h' : Stranded cues frames cut before' inside') :
    before = before' ∧ inside = inside' := by
  obtain ⟨hcut, e, behind, hcues⟩ := h
  obtain ⟨hcut', e', behind', hcues'⟩ := h'
  obtain ⟨hlen, hinside⟩ := hcut.unique hcut'
  refine ⟨?_, hinside⟩
  rcases List.append_eq_append_iff.mp (hcues.symm.trans hcues') with
    ⟨more, rfl, hmore⟩ | ⟨more, rfl, hmore⟩
  · rw [eq_nil_of_next hmore hlen, List.append_nil]
  · rw [eq_nil_of_next hmore hlen.symm, List.append_nil]

/-! ### Steps -/

/-- A client that sends no keep-alives is a faithful one. -/
theorem Prompt.faithful {limit : Nat} {e : Expect} {frame : Bytes}
    (h : Prompt v script limit e frame) : Faithful v script limit e frame := by
  cases h with
  | sent chunkSize hm hp hl ho hd => exact .sent 0 chunkSize hm hp hl ho hd

/-- A cue whose message is cut off ends the session. -/
theorem take_of_cut {e : Expect} {frame more missing : Bytes} (left : Nat)
    (h : Prompt v script ctx.settings.maxMessageSize e frame)
    (hready : link.source.ready ++ missing = frame ++ more)
    (hlt : link.source.ready.length < frame.length) (hstop : link.source.stop? = none) :
    ∃ rest : Source, take ctx v script left link (.hear e) =
      .error (cutOff link.source.ready.length left, { link with source := rest }) := by
  obtain ⟨behind, hcut, -⟩ := Frame.exists_behind hready.symm hlt.le
  have hbehind : behind ≠ [] := by
    rintro rfl
    simp [hcut] at hlt
  cases h with
  | sent chunkSize hm hp hl ho hd =>
    have hread := Frame.read_of_cut hl hbehind hcut.symm hstop
    refine ⟨(Frame.read ctx.settings.maxMessageSize link.source).rest, ?_⟩
    by_cases hnil : link.source.ready = []
    · rw [if_pos hnil] at hread
      simp only [take, Frame.readMessage, hread, hnil]
      rfl
    · have hpos : link.source.ready.length ≠ 0 := mt List.length_eq_zero_iff.mp hnil
      rw [if_neg hnil] at hread
      simp only [take, Frame.readMessage, hread, cutOff, if_neg hpos]
      rfl

/-- A client that is cut off is followed to the message that it leaves behind. -/
theorem follow_of_cut (link : Link) {missing : Bytes}
    (hall : ∀ cue ∈ cues.takeWhile (!·.isExit), speakable ctx.settings v cue = true)
    (hsent : List.Forall₂ (Prompt v script ctx.settings.maxMessageSize)
      (Cue.expects (cues.takeWhile (!·.isExit))) frames)
    (hne : missing ≠ []) (hready : link.source.ready ++ missing = frames.flatten)
    (hstop : link.source.stop? = none) (hsteady : link.sink.Steady) :
    ∃ before inside,
      Stranded (cues.takeWhile (!·.isExit)) frames link.source.ready.length before inside ∧
      (follow ctx v script cues link).1 = cutOff inside (cues.length - before.length) ∧
      (follow ctx v script cues link).2.sink.output.toList =
        link.sink.output.toList ++ spoken ctx.settings v before := by
  -- A client with no messages left to send cannot have been cut off.
  have sends {s : Source} (h : s.ready ++ missing = ([] : List Bytes).flatten) : False :=
    hne (List.append_eq_nil_iff.mp h).2
  induction cues generalizing link frames with
  | nil =>
    cases hsent
    exact (sends hready).elim
  | cons cue cues ih =>
    cases hx : cue.isExit with
    | true =>
      rw [List.takeWhile_cons_of_neg (by simp [hx])] at hsent
      cases hsent
      exact (sends hready).elim
    | false =>
      rw [List.takeWhile_cons_of_pos (by simp [hx])] at hall hsent ⊢
      have hrest := fun cue hc ↦ hall cue (List.mem_cons_of_mem _ hc)
      rw [follow]
      cases cue with
      | hear e =>
        cases hsent with
        | @cons _ frame _ frames hframe hframes =>
          rw [List.flatten_cons] at hready
          by_cases hlt : link.source.ready.length < frame.length
          · obtain ⟨rest, ht⟩ := take_of_cut (cues.length + 1) hframe hready hlt hstop
            rw [ht]
            refine ⟨[], _, ⟨⟨(Nat.zero_add _).symm, frame, rfl, hlt⟩, e, _, rfl⟩, rfl, ?_⟩
            simp [spoken]
          · obtain ⟨behind, hsplit, hmore⟩ := Frame.exists_behind hready (Nat.le_of_not_lt hlt)
            obtain ⟨rest, ht, hready', hstop'⟩ :=
              take_of_matching (cues.length + 1) hframe.faithful.matching hsplit
            rw [ht]
            obtain ⟨before, inside, hstranded, hstate, hout⟩ :=
              ih { link with source := rest } hrest hframes (hready' ▸ hmore)
                (hstop'.trans hstop) hsteady
            refine ⟨.hear e :: before, inside, ?_, ?_, ?_⟩
            · rw [hsplit, List.length_append, ← hready']
              exact hstranded.hear e frame
            · rw [List.length_cons, List.length_cons, Nat.add_sub_add_right]
              exact hstate
            · rw [spoken_cons rfl]
              exact hout
      | perform r =>
        obtain ⟨sink, ht, hsteady'⟩ :=
          take_of_steady (cues.length + 1) hx (hall _ List.mem_cons_self) hsteady
        have htaken := taken ctx v script (cues.length + 1) link (.perform r)
        rw [ht] at htaken ⊢
        cases htaken with
        | @performed _ bytes _ _ hb ho =>
          obtain ⟨before, inside, hstranded, hstate, hout⟩ :=
            ih { link with sink } hrest hsent hready hstop hsteady'
          refine ⟨.perform r :: before, inside, hstranded.perform r, ?_, ?_⟩
          · rw [List.length_cons, List.length_cons, Nat.add_sub_add_right]
            exact hstate
          · rw [spoken_cons hb, ← List.append_assoc, ← ho]
            exact hout

/-! ### Runs -/

/-- What a session has done with the part of an opening it gets: failed, and written nothing. -/
theorem run_of_cut_opening {p : Handshake.Proposals} {more : Bytes} (hlines : script.blocks ≠ [])
    (hcut : cut < 20)
    (hready : link.source.ready = (Handshake.magic ++ p.bytes ++ more).take cut)
    (hstop : link.source.stop? = none) :
    (run ctx script link).conversation.state =
        .failed (.handshake HandshakeCause.closed.message) ∧
      (run ctx script link).link.sink.output = link.sink.output := by
  have hspoilt := Handshake.spoilt_of_take hcut hready hstop
  obtain ⟨hshaken, hsink⟩ := shakeHands_of_spoilt ctx script hspoilt
  obtain ⟨-, hlink, -⟩ := run_of_refused hshaken
  exact ⟨state_of_refused hlines hshaken, by rw [hlink, hsink]⟩

/-- What a session has done when the opening is there, and the messages of the client up to a
cut. -/
theorem run_of_cut_messages (hfull : script.Full) {p : Handshake.Proposals}
    (hn : Handshake.negotiate p script.version? = .ok v)
    (hsent : List.Forall₂ (Prompt v script ctx.settings.maxMessageSize)
      (Cue.expects script.beforeExit) frames)
    (hall : ∀ cue ∈ script.beforeExit, speakable ctx.settings v cue = true)
    (hcut : cut < frames.flatten.length)
    (hready : link.source.ready = Handshake.magic ++ p.bytes ++ frames.flatten.take cut)
    (hstop : link.source.stop? = none) (hsteady : link.sink.Steady) :
    ∃ before inside, Stranded script.beforeExit frames cut before inside ∧
      (run ctx script link).conversation.state =
        cutOff inside (script.cues.length - before.length) ∧
      (run ctx script link).link.sink.output.toList = link.sink.output.toList ++
        script.answerTo v ++ spoken ctx.settings v before := by
  obtain ⟨ho, hdrop⟩ := Handshake.opening?_of_ready hready
  obtain ⟨rest, hrest, -, hafter, -, hok⟩ := shakeHands_of_agreed ctx ho hn
  have hrestStop := stop?_shakeHands ctx script ho
  obtain ⟨hw, hsteady⟩ := Sink.send_of_steady hsteady (script.answerTo v)
  obtain ⟨accepted, -, hout, haccepted⟩ := Sink.output_send link.sink (script.answerTo v)
  obtain rfl := haccepted hw
  obtain ⟨hstate, hlink, -⟩ := run_of_agreed hfull (hok hw)
  rw [hafter] at hstate hlink hrestStop
  have hlen : rest.ready.length = cut := by
    rw [hrest, hdrop, List.length_take, Nat.min_eq_left hcut.le]
  have hwhole : rest.ready ++ frames.flatten.drop cut = frames.flatten := by
    rw [hrest, hdrop, List.take_append_drop]
  obtain ⟨before, inside, hstranded, hf, houtput⟩ :=
    follow_of_cut ⟨rest, _⟩ hall hsent (mt List.drop_eq_nil_iff.mp (Nat.not_le_of_lt hcut))
      hwhole (hrestStop.trans hstop) hsteady
  refine ⟨before, inside, hlen ▸ hstranded, hstate.trans hf, ?_⟩
  rw [hlink, houtput, hout]

/-- A run whose client is cut off fails: in the opening with the handshake, where a message could
start with as many lines left as are not done, and in a message with the frame that is cut. Up to
the line whose message is missing the server has written all it has to. -/
theorem run_of_cut {text : String} (hparse : Script.parse text = .ok script)
    (hlines : script.blocks ≠ []) {p : Handshake.Proposals}
    (hn : Handshake.negotiate p script.version? = .ok v)
    (hsent : List.Forall₂ (Prompt v script ctx.settings.maxMessageSize)
      (Cue.expects script.beforeExit) frames)
    (hall : ∀ cue ∈ script.beforeExit, speakable ctx.settings v cue = true)
    (hcut : cut < (Handshake.magic ++ p.bytes ++ frames.flatten).length)
    (hready : link.source.ready = (Handshake.magic ++ p.bytes ++ frames.flatten).take cut)
    (hstop : link.source.stop? = none) (hsteady : link.sink.Steady) :
    (cut < 20 → (run ctx script link).conversation.state =
        .failed (.handshake HandshakeCause.closed.message) ∧
      (run ctx script link).link.sink.output = link.sink.output) ∧
    (20 ≤ cut → (∃ before inside, Stranded script.beforeExit frames (cut - 20) before inside) ∧
      ∀ before inside, Stranded script.beforeExit frames (cut - 20) before inside →
        (run ctx script link).conversation.state =
          cutOff inside (script.cues.length - before.length) ∧
        (run ctx script link).link.sink.output.toList = link.sink.output.toList ++
          script.answerTo v ++ spoken ctx.settings v before) := by
  refine ⟨fun hlt ↦ run_of_cut_opening hlines hlt hready hstop, fun hle ↦ ?_⟩
  have hlen : (Handshake.magic ++ p.bytes).length = 20 := by
    rw [List.length_append, Handshake.Proposals.length_bytes]
    rfl
  rw [List.length_append, hlen] at hcut
  rw [List.take_append, hlen, List.take_of_length_le (hlen.trans_le hle)] at hready
  obtain ⟨before, inside, hstranded, hresult⟩ := run_of_cut_messages (Script.full_of_parse hparse)
    hn hsent hall (by omega) hready hstop hsteady
  refine ⟨⟨before, inside, hstranded⟩, fun before' inside' hstranded' ↦ ?_⟩
  obtain ⟨rfl, rfl⟩ := hstranded.unique hstranded'
  exact hresult

/-! ### A client that leaves in a message -/

/-- Settings and a peer. -/
private def usual : Context := ⟨.default, "peer"⟩

/-- The frame of a reset in chunks of one byte. -/
private def cutFrame : Bytes := Frame.ofPayload 1 [0xB0, 0x0F]

private theorem length_cutFrame : cutFrame.length = 8 := by cbv

/-- A client that proposes version 1.0 and resets, and leaves in its second reset. -/
private def leaver : Link where
  source := [.deliver ((Handshake.magic ++ (⟨1, 0, 0, 0⟩ : Handshake.Proposals).bytes ++
    [cutFrame, cutFrame].flatten).take 31)]
  sink := .unbounded

private theorem prompt_leaver :
    List.Forall₂ (Prompt ⟨1, 0⟩ Script.encore usual.settings.maxMessageSize)
      (Cue.expects Script.encore.beforeExit) [cutFrame, cutFrame] := by
  have prompt (line : Nat) : Prompt ⟨1, 0⟩ Script.encore usual.settings.maxMessageSize
      ⟨line, ⟨"RESET", []⟩⟩ cutFrame :=
    .sent (m := ⟨"RESET", []⟩) 1 rfl rfl (by decide) trivial (by simp)
  exact .cons (prompt 1) (.cons (prompt 3) .nil)

private theorem usual_speakable :
    ∀ cue ∈ Script.encore.beforeExit, speakable usual.settings ⟨1, 0⟩ cue = true := by
  decide

private theorem ready_leaver : leaver.source.ready =
    (Handshake.magic ++ (⟨1, 0, 0, 0⟩ : Handshake.Proposals).bytes ++
      [cutFrame, cutFrame].flatten).take 31 :=
  List.append_nil _

private theorem stranded_leaver :
    Stranded Script.encore.beforeExit [cutFrame, cutFrame] (31 - 20)
      [.hear ⟨1, ⟨"RESET", []⟩⟩, .perform ⟨2, .keepAlive⟩] 3 where
  cutAt := ⟨by cbv, cutFrame, rfl, by rw [length_cutFrame]; decide⟩
  next := ⟨_, _, rfl⟩

/-- Three bytes of a second reset are a frame that is cut, and the server has answered the version
and written the keep-alive before it. -/
theorem run_of_cut_leaver :
    (run usual Script.encore leaver).conversation.state =
        .failed (.protocol "Truncated chunk: connection closed mid-message") ∧
      (run usual Script.encore leaver).link.sink.output.toList = [0, 0, 0, 1, 0, 0] := by
  have hcut : 31 < (Handshake.magic ++ (⟨1, 0, 0, 0⟩ : Handshake.Proposals).bytes ++
      [cutFrame, cutFrame].flatten).length := by
    simp only [List.flatten_cons, List.flatten_nil, List.append_nil, List.length_append,
      length_cutFrame]
    decide
  obtain ⟨-, hmessages⟩ := run_of_cut Script.parse_encore (List.cons_ne_nil _ _) rfl
    prompt_leaver usual_speakable hcut ready_leaver rfl Sink.steady_unbounded
  exact (hmessages (by decide)).2 _ 3 stranded_leaver

end ScriptedBolt.Session
