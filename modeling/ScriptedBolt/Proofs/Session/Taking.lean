import ScriptedBolt.Proofs.Message.Wire
import ScriptedBolt.Proofs.Session.Follow
import ScriptedBolt.Proofs.Wire.Acceptance

/-!
# Taking a cue

All that can come of a cue, in terms of the bytes that the source still delivers and those that
the sink has accepted: `Taken` has a case for each. What a session does with many cues follows
from it by induction on the cues. Which bytes an action has is said by the table `wireBytes`, and an
action that is performed has written exactly these (`perform_writes`).
-/

namespace ScriptedBolt.Session

/-- The bytes of an action on the wire: the frame of its message, the bytes that the script gives, or
an empty chunk. A pause and an exit have none. -/
def wireBytes (settings : Settings) (v : Version) : Action → Except Error Bytes
  | .send m => Frame.ofMessage v .server settings.maxChunkSize m
  | .raw bytes => .ok bytes
  | .keepAlive => .ok [0, 0]
  | .sleep _ => .ok []
  | .exit => .ok []

/-- What is written for an action, if anything, are its bytes on the wire. -/
theorem map_bytesOf (settings : Settings) (v : Version) (a : Action) :
    (bytesOf settings v a).map (·.getD []) = wireBytes settings v a := by
  cases a with
  | send m =>
    rw [bytesOf, wireBytes]
    cases Frame.ofMessage v .server settings.maxChunkSize m with
    | error e => rfl
    | ok bytes => rfl
  | raw bytes => rfl
  | keepAlive => rfl
  | sleep d => rfl
  | exit => rfl

/-- The bytes that are to be written at a cue; none where a message is heard. -/
def lineBytes (settings : Settings) (v : Version) : Cue → Except Error Bytes
  | .hear _ => .ok []
  | .perform r => wireBytes settings v r.action

/-- Whether the bytes of a cue can be written at all. -/
def speakable (settings : Settings) (v : Version) (cue : Cue) : Bool :=
  (lineBytes settings v cue).isOk

/-- A cue can be spoken if and only if it has bytes. -/
theorem speakable_iff {settings : Settings} {v : Version} {cue : Cue} :
    speakable settings v cue = true ↔ ∃ bytes, lineBytes settings v cue = .ok bytes := by
  unfold speakable
  cases lineBytes settings v cue with
  | error e => simp [Except.isOk, Except.toBool]
  | ok bytes => simp [Except.isOk, Except.toBool]

/-- The bytes that are to be written at cues. -/
def spoken (settings : Settings) (v : Version) (cues : List Cue) : Bytes :=
  cues.flatMap fun cue ↦ (lineBytes settings v cue).toOption.getD []

/-- An exit completes the conversation, and does nothing else. -/
theorem take_of_isExit (ctx : Context) (v : Version) (script : Script) (left : Nat) (link : Link)
    {cue : Cue} (hx : cue.isExit = true) :
    take ctx v script left link cue = .error (.completed, link) := by
  unfold Cue.isExit at hx
  split at hx
  · rfl
  · simp at hx

/-- What becomes of sending the bytes of an action is what comes of its cue. -/
def afterSend (link : Link) : Except Fault Unit × Sink → Except (State × Link) Link
  | (.ok (), sink) => .ok { link with sink }
  | (.error f, sink) => .error (.failed (.writeError (Error.io f).message), { link with sink })

/-- An action with bytes is performed by sending them. -/
theorem take_of_bytesOf (ctx : Context) (v : Version) (script : Script) (left : Nat) (link : Link)
    {r : Reply} {bytes : Bytes} (hb : bytesOf ctx.settings v r.action = .ok (some bytes)) :
    take ctx v script left link (.perform r) = afterSend link (link.sink.send bytes) := by
  obtain ⟨line, action⟩ := r
  unfold take write
  cases action with
  | exit => simp [bytesOf] at hb
  | _ =>
    dsimp only at hb ⊢
    rw [hb]
    dsimp only
    cases link.sink.send bytes with
    | mk result sink => cases result <;> rfl

/-- An action that has bytes is performed by sending them, and one that writes none at once. -/
theorem take_of_lineBytes (ctx : Context) (v : Version) (script : Script) (left : Nat) (link : Link)
    {r : Reply} {bytes : Bytes} (hx : (Cue.perform r).isExit = false)
    (hb : lineBytes ctx.settings v (.perform r) = .ok bytes) :
    (bytes = [] ∧ take ctx v script left link (.perform r) = .ok link) ∨
      take ctx v script left link (.perform r) = afterSend link (link.sink.send bytes) := by
  have hmap := (map_bytesOf ctx.settings v r.action).trans hb
  match hbytes : bytesOf ctx.settings v r.action with
  | .error e => simp [hbytes, Except.map] at hmap
  | .ok none =>
    obtain ⟨line, action⟩ := r
    rw [hbytes] at hmap
    refine .inl ⟨(Except.ok.inj hmap).symm, ?_⟩
    unfold take
    cases action with
    | exit => simp [Cue.isExit] at hx
    | _ =>
      dsimp only at hbytes ⊢
      rw [hbytes]
  | .ok (some bytes') =>
    rw [hbytes] at hmap
    obtain rfl : bytes' = bytes := Except.ok.inj hmap
    exact .inr (take_of_bytesOf ctx v script left link hbytes)

/-- What comes of a cue that is taken. -/
inductive Taken (ctx : Context) (v : Version) (script : Script) (link : Link) :
    Cue → Except (State × Link) Link → Prop
  /-- The message that is heard is the one expected. -/
  | matched {e : Expect} {m : Message} {frame : Bytes} {rest : Source}
    (hb : Frame.Brings v .client frame m) (hs : link.source.bytes = frame ++ rest.bytes)
    (hm : script.matchesLine e m = true) :
    Taken ctx v script link (.hear e) (.ok { link with source := rest })
  /-- Another message is heard. -/
  | mismatched {e : Expect} {m : Message} {frame : Bytes} {rest : Source}
    (hb : Frame.Brings v .client frame m) (hs : link.source.bytes = frame ++ rest.bytes)
    (hm : script.matchesLine e m = false) :
    Taken ctx v script link (.hear e)
      (.error (.failed (.mismatch e m), { link with source := rest }))
  /-- No message is heard. -/
  | unheard {e : Expect} {failure : Failure} {rest : Source}
    (hs : rest.bytes <:+ link.source.bytes) (hf : ∀ e m, failure ≠ .mismatch e m) :
    Taken ctx v script link (.hear e) (.error (.failed failure, { link with source := rest }))
  /-- An action is performed in full. -/
  | performed {r : Reply} {bytes : Bytes} {sink : Sink} (hx : (Cue.perform r).isExit = false)
    (hb : lineBytes ctx.settings v (.perform r) = .ok bytes)
    (ho : sink.output.toList = link.sink.output.toList ++ bytes) :
    Taken ctx v script link (.perform r) (.ok { link with sink })
  /-- The script exits. -/
  | exited {r : Reply} (hx : (Cue.perform r).isExit = true) :
    Taken ctx v script link (.perform r) (.error (.completed, link))
  /-- An action has no bytes. -/
  | unspeakable {r : Reply} {e : Error} {reason : String}
    (hx : (Cue.perform r).isExit = false)
    (hb : lineBytes ctx.settings v (.perform r) = .error e) :
    Taken ctx v script link (.perform r) (.error (.failed (.protocol reason), link))
  /-- The sink refuses, with a part of the bytes or with all of them accepted. -/
  | refused {r : Reply} {bytes part : Bytes} {sink : Sink} {reason : String}
    (hx : (Cue.perform r).isExit = false)
    (hb : lineBytes ctx.settings v (.perform r) = .ok bytes) (hp : part <+: bytes)
    (ho : sink.output.toList = link.sink.output.toList ++ part) :
    Taken ctx v script link (.perform r)
      (.error (.failed (.writeError reason), { link with sink }))

private theorem failureOf_protocol_ne (settings : Settings) (error : Error) (e : Expect)
    (m : Message) : failureOf settings .protocol error ≠ .mismatch e m := by
  unfold failureOf
  split <;> simp

/-- Nothing else comes of a cue. -/
theorem taken (ctx : Context) (v : Version) (script : Script) (left : Nat) (link : Link)
    (cue : Cue) : Taken ctx v script link cue (take ctx v script left link cue) := by
  cases cue with
  | hear e =>
    have hsuf :=
      Frame.bytes_readMessage_suffix v .client ctx.settings.maxMessageSize link.source
    unfold take
    dsimp only
    split
    · next m hr =>
      obtain ⟨frame, hb, hs⟩ := Frame.brings_of_readMessage hr
      cases hm : script.matchesLine e m with
      | true => exact .matched hb hs hm
      | false => exact .mismatched hb hs hm
    · exact .unheard hsuf (by simp)
    · next error _ =>
      split
      · exact .unheard hsuf (by simp)
      · exact .unheard hsuf (failureOf_protocol_ne ctx.settings error)
  | perform r =>
    obtain ⟨line, action⟩ := r
    have hbytes (a : Action) : lineBytes ctx.settings v (.perform ⟨line, a⟩) =
        (bytesOf ctx.settings v a).map (·.getD []) := (map_bytesOf ctx.settings v a).symm
    unfold take
    cases action with
    | exit => exact .exited rfl
    | _ =>
      dsimp only
      split
      · next he => exact .unspeakable rfl (by rw [hbytes, he]; rfl)
      · next he => exact .performed rfl (by rw [hbytes, he]; rfl) (List.append_nil _).symm
      · next bytes he =>
        obtain ⟨part, hp, ho, hall⟩ := Sink.output_send link.sink bytes
        unfold write
        cases hw : link.sink.send bytes with
        | mk result sink =>
          rw [hw] at ho hall
          cases result with
          | ok u =>
            obtain rfl := hall rfl
            exact .performed rfl (by rw [hbytes, he]; rfl) ho
          | error f => exact .refused rfl (by rw [hbytes, he]; rfl) hp ho

/-- An action that is performed has written its bytes on the wire, all of them and nothing else. One
that is not has written the beginning of them, if it has any. Neither reads anything. -/
theorem perform_writes (ctx : Context) (v : Version) {c : Conversation}
    (hc : c.isTerminal = false) (link : Link) (r : Reply) :
    (∀ after, perform ctx v c link r = .ok after → after.source = link.source ∧
      ∃ bytes, wireBytes ctx.settings v r.action = .ok bytes ∧
        after.sink.output.toList = link.sink.output.toList ++ bytes) ∧
    ∀ ended, perform ctx v c link r = .error ended → ended.link.source = link.source ∧
      ∃ part, part <+: (wireBytes ctx.settings v r.action).toOption.getD [] ∧
        ended.link.sink.output.toList = link.sink.output.toList ++ part := by
  have htaken := taken ctx v c.script 0 link (.perform r)
  rcases perform_takes ctx v hc c.script 0 link r with ⟨after, hp, ht⟩ | ⟨ended, hp, -, ht⟩
  · rw [hp]
    refine ⟨?_, nofun⟩
    rintro _ ⟨⟩
    rw [ht] at htaken
    cases htaken with
    | performed hx hb ho => exact ⟨rfl, _, hb, ho⟩
  · rw [hp]
    refine ⟨nofun, ?_⟩
    rintro _ ⟨⟩
    rw [ht] at htaken
    generalize ended.link = after at htaken
    generalize ended.conversation.state = state at htaken
    cases htaken with
    | exited hx => exact ⟨rfl, [], List.nil_prefix, (List.append_nil _).symm⟩
    | unspeakable hx hb => exact ⟨rfl, [], List.nil_prefix, (List.append_nil _).symm⟩
    | refused hx hb hpart ho =>
      rw [lineBytes] at hb
      exact ⟨rfl, _, by rw [hb]; exact hpart, ho⟩

end ScriptedBolt.Session
