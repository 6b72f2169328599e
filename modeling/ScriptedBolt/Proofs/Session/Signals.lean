import ScriptedBolt.Proofs.Frame.Reading
import ScriptedBolt.Proofs.Session.Completion
import ScriptedBolt.Proofs.Wire.Signals

/-!
# Sessions on connections that are cut differently

Two runs of a script have the same outcome if their sources have the same signals and both their
sinks take what they are offered, in writes of whatever size. Everything that a session does with
a connection keeps two connections alike in this sense, and gives the same result on both.
-/

namespace ScriptedBolt

/-! ### Openings and frames -/

/-- The opening of a client is read the same however it is cut. -/
theorem Handshake.indifferent_read : Source.Indifferent Handshake.read := by
  intro s s' hs
  unfold Handshake.read
  obtain ⟨first, rest, rest', h, h', hrest⟩ := Source.indifferent_readExact 4 _ _ hs
  rw [h, h']
  cases first with
  | error f => exact ⟨_, _, _, rfl, rfl, hrest⟩
  | ok bytes =>
    dsimp only
    split
    · obtain ⟨second, rest, rest', h, h', hrest⟩ := Source.indifferent_readExact 16 _ _ hrest
      rw [h, h']
      cases second with
      | error f => exact ⟨_, _, _, rfl, rfl, hrest⟩
      | ok bytes => exact ⟨_, _, _, rfl, rfl, hrest⟩
    · exact ⟨_, _, _, rfl, rfl, hrest⟩

namespace Frame

/-- The length of a chunk is read the same however it is cut. -/
theorem indifferent_readLength (atStart : Bool) : Source.Indifferent (readLength atStart) := by
  intro s s' hs
  unfold readLength
  cases atStart with
  | false =>
    obtain ⟨result, rest, rest', h, h', hrest⟩ := Source.indifferent_readExact 2 _ _ hs
    simp only [Bool.false_eq_true, ↓reduceIte]
    rw [h, h']
    cases result with
    | error f => exact ⟨_, _, _, rfl, rfl, hrest⟩
    | ok bytes => exact ⟨_, _, _, rfl, rfl, hrest⟩
  | true =>
    obtain ⟨first, rest, rest', h, h', hrest⟩ := Source.indifferent_readByte _ _ hs
    simp only [↓reduceIte]
    rw [h, h']
    match first with
    | .error f => exact ⟨_, _, _, rfl, rfl, hrest⟩
    | .ok none => exact ⟨_, _, _, rfl, rfl, hrest⟩
    | .ok (some high) =>
      obtain ⟨second, rest, rest', h, h', hrest⟩ := Source.indifferent_readExact 1 _ _ hrest
      dsimp only
      rw [h, h']
      cases second with
      | error f => exact ⟨_, _, _, rfl, rfl, hrest⟩
      | ok low => exact ⟨_, _, _, rfl, rfl, hrest⟩

/-- Whether the same was received from two sources, and the same is left of them. -/
structure Received.Alike {α : Type} (received received' : Received α) : Prop where
  result : received.result = received'.result
  keepAlives : received.keepAlives = received'.keepAlives
  rest : received.rest.signals = received'.rest.signals

/-- The chunks of a frame are read the same however they are cut. -/
theorem readChunks_alike (limit keepAlives : Nat) (chunks : List Bytes) (size : Nat)
    (s s' : Source) (hs : s.signals = s'.signals) :
    (readChunks limit keepAlives chunks size s).Alike
      (readChunks limit keepAlives chunks size s') := by
  rw [readChunks_eq limit keepAlives chunks size s, readChunks_eq limit keepAlives chunks size s']
  obtain ⟨length, rest, rest', h, h', hrest⟩ := indifferent_readLength chunks.isEmpty s s' hs
  rw [h, h']
  match length with
  | .error e => exact ⟨rfl, rfl, hrest⟩
  | .ok none => exact ⟨rfl, rfl, hrest⟩
  | .ok (some 0) =>
    have := bytes_readLength h
    dsimp only
    split
    · exact readChunks_alike limit (keepAlives + 1) [] 0 rest rest' hrest
    · exact ⟨rfl, rfl, hrest⟩
  | .ok (some (n + 1)) =>
    have := bytes_readLength h
    dsimp only
    split
    · exact ⟨rfl, rfl, hrest⟩
    · obtain ⟨chunk, after, after', hx, hx', hafter⟩ :=
        Source.indifferent_readExact (n + 1) rest rest' hrest
      rw [hx, hx']
      cases chunk with
      | error f => exact ⟨rfl, rfl, hafter⟩
      | ok chunk =>
        have := Source.bytes_readExact hx
        exact readChunks_alike limit keepAlives (chunk :: chunks) (size + (n + 1)) after after'
          hafter
termination_by s.bytes.length
decreasing_by
  · assumption
  · simp_all only [List.length_append]
    omega

/-- A message is read the same however it is cut. -/
theorem readMessage_alike (v : Version) (role : Role) (limit : Nat) {s s' : Source}
    (hs : s.signals = s'.signals) :
    (readMessage v role limit s).Alike (readMessage v role limit s') := by
  obtain ⟨hresult, hcount, hrest⟩ := readChunks_alike limit 0 [] 0 s s' hs
  refine ⟨?_, hcount, hrest⟩
  simp only [readMessage, read, hresult]

end Frame

/-! ### Sessions -/

namespace Session

/-- Whether two connections differ in nothing but how bytes are cut on them. -/
structure Link.Alike (link link' : Link) : Prop where
  source : link.source.signals = link'.source.signals
  output : link.sink.output = link'.sink.output
  steady : link.sink.Steady
  steady' : link'.sink.Steady

/-- Whether two sessions are at the same point of a conversation, with the same notes, on
connections that are alike. -/
structure Progress.Alike (progress progress' : Progress) : Prop where
  conversation : progress.conversation = progress'.conversation
  link : progress.link.Alike progress'.link
  notes : progress.notes = progress'.notes

variable (ctx : Context) (v : Version) {link link' : Link}

/-- Bytes are sent on both of two connections that are alike. -/
theorem send_alike (h : link.Alike link') (bytes : Bytes) :
    ∃ sink sink' : Sink, link.sink.send bytes = (.ok (), sink) ∧
      link'.sink.send bytes = (.ok (), sink') ∧
      Link.Alike { link with sink } { link' with sink := sink' } := by
  have sent {sink : Sink} (hsteady : sink.Steady) : ∃ after : Sink,
      sink.send bytes = (.ok (), after) ∧ after.Steady ∧
        after.output.toList = sink.output.toList ++ bytes := by
    obtain ⟨hsend, hafter⟩ := Sink.send_of_steady hsteady bytes
    obtain ⟨accepted, -, hout, hall⟩ := Sink.output_send sink bytes
    rw [hall hsend] at hout
    exact ⟨_, Prod.ext hsend rfl, hafter, hout⟩
  obtain ⟨sink, hsend, hsteady, hout⟩ := sent h.steady
  obtain ⟨sink', hsend', hsteady', hout'⟩ := sent h.steady'
  refine ⟨sink, sink', hsend, hsend', h.source, ?_, hsteady, hsteady'⟩
  apply Array.toList_inj.mp
  rw [hout, hout', h.output]

/-- The turn of the client goes the same on connections that are alike. -/
theorem hear_alike (c : Conversation) (h : link.Alike link') :
    (hear ctx v c link).Alike (hear ctx v c link') := by
  obtain ⟨hresult, hcount, hrest⟩ :=
    Frame.readMessage_alike v .client ctx.settings.maxMessageSize h.source
  unfold hear
  dsimp only
  rw [hresult, hcount]
  exact ⟨rfl, ⟨hrest, h.output, h.steady, h.steady'⟩, rfl⟩

/-- What comes of an action on connections that are alike. -/
private inductive Performed : Except Progress Link → Except Progress Link → Prop
  | going {link link' : Link} (h : link.Alike link') : Performed (.ok link) (.ok link')
  | ended {progress progress' : Progress} (h : progress.Alike progress') :
    Performed (.error progress) (.error progress')

private theorem performed_alike (c : Conversation) (h : link.Alike link') (r : Reply) :
    Performed (perform ctx v c link r) (perform ctx v c link' r) := by
  obtain ⟨line, action⟩ := r
  unfold perform
  cases action with
  | exit => exact .ended ⟨rfl, h, rfl⟩
  | _ =>
    dsimp only
    split
    · exact .ended ⟨rfl, h, rfl⟩
    · exact .going h
    · next bytes _ =>
      obtain ⟨sink, sink', hsend, hsend', hafter⟩ := send_alike h bytes
      rw [write, write, hsend, hsend']
      exact .going hafter

/-- The turn of the server goes the same on connections that are alike. -/
theorem speak_alike (c : Conversation) (replies : List Reply) (h : link.Alike link') :
    (speak ctx v c link replies).Alike (speak ctx v c link' replies) := by
  induction replies generalizing link link' with
  | nil =>
    rw [speak_nil, speak_nil]
    exact ⟨rfl, h, rfl⟩
  | cons r replies ih =>
    have hperformed := performed_alike ctx v c h r
    rw [speak_cons, speak_cons]
    generalize perform ctx v c link r = performed at *
    generalize perform ctx v c link' r = performed' at *
    cases hperformed with
    | ended hended => exact hended
    | going hafter =>
      obtain ⟨hconversation, hlink, hnotes⟩ := ih hafter
      exact ⟨hconversation, hlink, congrArg (_ :: ·) hnotes⟩

/-- A conversation goes the same on connections that are alike. -/
theorem converse_alike (c : Conversation) (link link' : Link) (h : link.Alike link') :
    (converse ctx v c link).Alike (converse ctx v c link') := by
  -- The turn is that of the conversation, which is the same on both connections.
  rw [converse_eq ctx v c link, converse_eq ctx v c link']
  cases ht : c.turn with
  | done => exact ⟨rfl, h, rfl⟩
  | hear e =>
    have := ahead_hear_lt ctx v link ht
    obtain ⟨hstep, hlink, hnotes⟩ := hear_alike ctx v c h
    have hafter := converse_alike (hear ctx v c link).conversation _ _ hlink
    dsimp only
    rw [← hstep, ← hnotes]
    exact ⟨hafter.conversation, hafter.link, congrArg (_ ++ ·) hafter.notes⟩
  | speak replies =>
    have := ahead_speak_lt ctx v link ht
    obtain ⟨hstep, hlink, hnotes⟩ := speak_alike ctx v c replies h
    have hafter := converse_alike (speak ctx v c link replies).conversation _ _ hlink
    dsimp only
    rw [← hstep, ← hnotes]
    exact ⟨hafter.conversation, hafter.link, congrArg (_ ++ ·) hafter.notes⟩
termination_by c.ahead

/-- A handshake has the same result on connections that are alike. -/
theorem shakeHands_alike (script : Script) (h : link.Alike link') :
    ∃ result after after' notes, shakeHands ctx script link = (result, after, notes) ∧
      shakeHands ctx script link' = (result, after', notes) ∧ Link.Alike after after' := by
  obtain ⟨opening, rest, rest', hr, hr', hrest⟩ := Handshake.indifferent_read _ _ h.source
  have hread : Link.Alike { link with source := rest } { link' with source := rest' } :=
    ⟨hrest, h.output, h.steady, h.steady'⟩
  unfold shakeHands
  rw [hr, hr']
  cases opening with
  | error e => exact ⟨_, _, _, _, rfl, rfl, hread⟩
  | ok p =>
    dsimp only
    cases Handshake.negotiate p script.version? with
    | error e =>
      obtain ⟨sink, sink', hsend, hsend', hafter⟩ := send_alike hread [0, 0, 0, 0]
      simp only [Handshake.sendReply, hsend, hsend']
      exact ⟨_, _, _, _, rfl, rfl, hafter⟩
    | ok v =>
      obtain ⟨sink, sink', hsend, hsend', hafter⟩ :=
        send_alike hread (script.reply?.getD (Handshake.wordBytes v.toWord))
      simp only [answer, Handshake.sendReply, hsend, hsend']
      exact ⟨_, _, _, _, rfl, rfl, hafter⟩

/-- A run goes the same on connections that are alike. -/
theorem run_alike (script : Script) (h : link.Alike link') :
    (run ctx script link).Alike (run ctx script link') := by
  obtain ⟨result, after, after', notes, hs, hs', hafter⟩ := shakeHands_alike ctx script h
  rw [run_eq, run_eq, hs, hs']
  cases result with
  | error e => exact ⟨rfl, hafter, rfl⟩
  | ok v =>
    have hended := converse_alike ctx v (.start script) after after' hafter
    exact ⟨hended.conversation, hended.link, congrArg (_ ++ ·) hended.notes⟩

/-- Nothing about a run depends on how the bytes to and from the client are cut, or on how many
reads are interrupted: neither its conversation nor what it notes and writes, nor how many bytes
it reads. -/
theorem run_of_signals (script : Script)
    (hsource : link.source.signals = link'.source.signals)
    (houtput : link.sink.output = link'.sink.output) (hsteady : link.sink.Steady)
    (hsteady' : link'.sink.Steady) :
    let ended := run ctx script link
    let ended' := run ctx script link'
    ended.conversation = ended'.conversation ∧ ended.notes = ended'.notes ∧
      ended.link.sink.output = ended'.link.sink.output ∧
      link.source.remaining - ended.link.source.remaining =
        link'.source.remaining - ended'.link.source.remaining := by
  have remaining_eq {s s' : Source} (h : s.signals = s'.signals) : s.remaining = s'.remaining := by
    rw [Source.remaining_eq, Source.bytes_of_signals h, ← Source.remaining_eq]
  have h := run_alike ctx script ⟨hsource, houtput, hsteady, hsteady'⟩
  refine ⟨h.conversation, h.notes, h.link.output, ?_⟩
  rw [remaining_eq hsource, remaining_eq h.link.source]

/-- A client that resets in pieces, between interruptions, and takes one byte at a time. -/
private def stammerer : Link where
  source := [.fail ⟨.interrupted, "signal"⟩, .deliver [0x60], .deliver [0x60, 0xB0],
    .fail ⟨.interrupted, "signal"⟩, .fail ⟨.interrupted, "again"⟩,
    .deliver (0x17 :: (⟨1, 0, 0, 0⟩ : Handshake.Proposals).bytes.take 5),
    .deliver ((⟨1, 0, 0, 0⟩ : Handshake.Proposals).bytes.drop 5 ++ [0]), .deliver [0, 0, 1, 0xB0],
    .fail ⟨.interrupted, "signal"⟩, .deliver [0, 1, 0x0F, 0], .deliver [], .deliver [0]]
  sink := .bounded none (some 1) none none

private theorem steady_stammerer : stammerer.sink.Steady where
  takes call taken offered hpos := by
    obtain ⟨n, rfl⟩ := Nat.exists_eq_succ_of_ne_zero (Nat.ne_of_gt hpos)
    exact ⟨0, congrArg WriteAnswer.take (Nat.min_eq_left (Nat.le_add_left 1 n))⟩
  flushes _ _ := rfl

/-- A client that resets in pieces completes the run as one that does so at once. -/
theorem run_of_signals_stammerer :
    resetter.source.signals = stammerer.source.signals ∧
      (run modest Script.dialogue stammerer).conversation.state = .completed ∧
      (run modest Script.dialogue stammerer).link.sink.output = #[0, 0, 0, 1, 0, 0] := by
  have hsignals : resetter.source.signals = stammerer.source.signals := by cbv
  obtain ⟨hcompleted, hout⟩ := run_of_matching resetter Script.parse_dialogue negotiate_resetter
    (faithful_resetter.imp fun _ _ h ↦ h.matching) speakable_dialogue ready_resetter
    Sink.steady_unbounded
  obtain ⟨hconversation, -, houtput, -⟩ :=
    run_of_signals modest Script.dialogue hsignals rfl Sink.steady_unbounded steady_stammerer
  refine ⟨hsignals, ?_, ?_⟩
  · rw [← hconversation, hcompleted]
  · rw [← houtput]
    exact Array.toList_inj.mp hout

end Session

end ScriptedBolt
