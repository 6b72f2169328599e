import Mathlib.Data.List.Forall2
import ScriptedBolt.Proofs.Session.Run
import ScriptedBolt.Proofs.Session.Taking

/-!
# What is done in a session

The deeds of a session are told without its log: along the cues, from what the source delivers and
what the sink takes. `deeds` lists them in order. They account for every byte that is read and
written (`account_deeds`), and they are the deeds that the notes of a conversation tell of
(`deeds_of_converse`).
-/

namespace ScriptedBolt

/-- Something that is done in a session. -/
inductive Deed where
  /-- The client keeps the connection alive. -/
  | kept
  /-- A message is read and given to the conversation; with `auto` it matches, and its name is
  enough. -/
  | told (auto : Bool) (m : Message)
  /-- An action is performed in full. -/
  | done (a : Action)

namespace Deed

/-- The message that is given to the conversation. -/
def message? : Deed → Option Message
  | told _ m => some m
  | _ => none

/-- The action that is performed. -/
def action? : Deed → Option Action
  | done a => some a
  | _ => none

end Deed

/-- The deed that a note tells of. -/
def Note.deed? : Note → Option Deed
  | keptAlive => some .kept
  | heard auto m => some (.told auto m)
  | performed a => some (.done a)
  | _ => none

namespace Session

/-- What is done by an action, which is performed in full if it has nothing to write or all of it
is written. -/
def performance (ctx : Context) (v : Version) (link : Link) (a : Action) : List Deed :=
  match bytesOf ctx.settings v a with
  | .error _ => []
  | .ok none => [.done a]
  | .ok (some bytes) =>
    match (write bytes link).1 with
    | .ok () => [.done a]
    | .error _ => []

/-- What is done at a cue. -/
def deedsAt (ctx : Context) (v : Version) (script : Script) (link : Link) : Cue → List Deed
  | .hear expected =>
    let received := Frame.readMessage v .client ctx.settings.maxMessageSize link.source
    List.replicate received.keepAlives .kept ++
      match received.result with
      | .ok (some m) => [.told (script.matchesLine expected m && script.isAuto m.name) m]
      | _ => []
  | .perform r => performance ctx v link r.action

/-- What is done at cues, up to the one that ends the conversation. -/
def deeds (ctx : Context) (v : Version) (script : Script) : List Cue → Link → List Deed
  | [], _ => []
  | cue :: cues, link =>
    deedsAt ctx v script link cue ++
      match take ctx v script (cues.length + 1) link cue with
      | .ok link => deeds ctx v script cues link
      | .error _ => []

variable (ctx : Context) (v : Version) {c : Conversation}

/-! ### The deeds that are noted -/

/-- The turn of the client notes what is done at its cue. -/
theorem deeds_of_hear {expected : Expect} (ht : c.turn = .hear expected) (link : Link) :
    (hear ctx v c link).notes.filterMap Note.deed? =
      deedsAt ctx v c.script link (.hear expected) := by
  have failed (c : Conversation) :
      (close ctx c).2.filterMap Note.deed? = [] := by
    simp only [close, List.filterMap_cons, Note.deed?]
    split
    · rfl
    · rfl
  simp only [hear, deedsAt, List.filterMap_append, List.filterMap_replicate]
  generalize Frame.readMessage v .client ctx.settings.maxMessageSize link.source = received
  obtain ⟨result, count, rest⟩ := received
  congr 1
  rcases result with e | _ | m
  · rw [tellResult]
    cases e.isDisconnect with
    | true => exact failed c
    | false => rfl
  · exact failed c
  · simp only [tellResult, tell, Conversation.noteOf, ht, List.filterMap_append]
    split
    · rfl
    · rfl

/-- An action that does not end the turn is performed in full, and one that does is noted exactly
if it is. -/
theorem deeds_of_perform (c : Conversation) (link : Link) (r : Reply) :
    (∀ after, perform ctx v c link r = .ok after →
        performance ctx v link r.action = [.done r.action]) ∧
      ∀ ended, perform ctx v c link r = .error ended →
        performance ctx v link r.action = ended.notes.filterMap Note.deed? := by
  obtain ⟨line, action⟩ := r
  unfold perform performance
  cases action with
  | exit => exact ⟨nofun, fun ended h ↦ Except.error.inj h ▸ rfl⟩
  | _ =>
    dsimp only
    generalize bytesOf ctx.settings v _ = result
    rcases result with e | _ | bytes
    · exact ⟨nofun, fun ended h ↦ Except.error.inj h ▸ rfl⟩
    · exact ⟨fun _ _ ↦ rfl, nofun⟩
    · dsimp only
      generalize write bytes link = sent
      rcases sent with ⟨e | _, after⟩
      · exact ⟨nofun, fun ended h ↦ Except.error.inj h ▸ rfl⟩
      · exact ⟨fun _ _ ↦ rfl, nofun⟩

/-- The turn of the server notes what is done at the cues of its block. -/
theorem deeds_of_speak (hc : c.isTerminal = false) (script : Script) (replies : List Reply)
    (rest : List Cue) (link : Link) :
    let step := speak ctx v c link replies
    let cues := replies.map .perform ++ rest
    (step.conversation = c.repliesSent ∧ deeds ctx v script cues link =
      step.notes.filterMap Note.deed? ++ deeds ctx v script rest step.link) ∨
    (step.conversation.isTerminal = true ∧
      deeds ctx v script cues link = step.notes.filterMap Note.deed?) := by
  induction replies generalizing link with
  | nil =>
    rw [speak_nil]
    exact .inl ⟨rfl, rfl⟩
  | cons r replies ih =>
    have hcue :=
      perform_takes ctx v hc script ((replies.map Cue.perform ++ rest).length + 1) link r
    obtain ⟨hdone, hended⟩ := deeds_of_perform ctx v c link r
    simp only [List.map_cons, List.cons_append, speak_cons, deeds, deedsAt]
    rcases hcue with ⟨after, hp, ht⟩ | ⟨ended, hp, hend, ht⟩
    · rw [hp, ht, hdone after hp]
      rcases ih after with ⟨hs, hd⟩ | ⟨hs, hd⟩
      · exact .inl ⟨hs, congrArg (Deed.done r.action :: ·) hd⟩
      · exact .inr ⟨hs, congrArg (Deed.done r.action :: ·) hd⟩
    · rw [hp, ht, hended ended hp, List.append_nil]
      exact .inr ⟨hend, rfl⟩

/-- A conversation whose cursor is in its place notes what is done at the cues from the cursor
on. -/
theorem deeds_of_converse (hfull : c.script.Full) (h : c.Placed)
    (hgo : ∀ failure, c.state ≠ .failed failure) (link : Link) :
    (converse ctx v c link).notes.filterMap Note.deed? =
      deeds ctx v c.script c.pending link := by
  generalize hn : c.ahead = n
  induction n using Nat.strongRecOn generalizing c link with
  | ind n ih =>
    cases hs : c.state with
    | awaitingClient =>
      obtain ⟨expected, rest, ht, hp⟩ := Conversation.hears_of_awaiting h hs
      have hless := ahead_hear_lt ctx v link ht
      have hdeeds := deeds_of_hear ctx v ht link
      rw [converse_eq, ht, hp, deeds]
      dsimp only
      rw [List.filterMap_append, hdeeds]
      rcases hear_takes ctx v hfull h ht hp link with
        ⟨htake, hplaced, hpending, hscript, hgo⟩ | ⟨htake, hend⟩
      · rw [htake, ih _ (hn ▸ hless) (hscript ▸ hfull) hplaced hgo _ rfl, hpending, hscript]
      · rw [htake, (converse_of_terminal ctx v hend _).1]
        rfl
    | sendingServer =>
      obtain ⟨replies, ht, hp, hplaced, hscript, hgo⟩ := Conversation.speaks_of_sending hfull h hs
      have hless := ahead_speak_lt ctx v link ht
      have hgoing : c.isTerminal = false := by
        rw [Conversation.isTerminal, hs]
        rfl
      rw [converse_eq, ht, hp]
      dsimp only
      rw [List.filterMap_append]
      rcases deeds_of_speak ctx v hgoing c.script replies c.repliesSent.pending link with
        ⟨hsent, hd⟩ | ⟨hend, hd⟩
      · rw [hsent] at hless ⊢
        rw [hd, ih _ (hn ▸ hless) (hscript ▸ hfull) hplaced hgo _ rfl, hscript]
      · rw [hd, (converse_of_terminal ctx v hend _).1]
        exact List.append_nil _
    | completed =>
      have hend := Conversation.isTerminal_of_completed hs
      rw [(converse_of_terminal ctx v hend link).1, Conversation.pending_of_completed h hs]
      rfl
    | failed failure => exact absurd hs (hgo failure)

/-! ### The bytes that deeds account for -/

/-- The bytes of an action on the wire, none if it has no bytes. -/
def bytesDone (settings : Settings) (v : Version) (a : Action) : Bytes :=
  (wireBytes settings v a).toOption.getD []

/-- Whether deeds account for what was read and written from one connection to another, but for
bytes that were read to no avail and a part of an action. -/
structure Account (ctx : Context) (v : Version) (link : Link) (done : List Deed)
    (frames : List Bytes) (lost part : Bytes) (after : Link) : Prop where
  heard : List.Forall₂ (Frame.Brings v .client) frames (done.filterMap Deed.message?)
  source : link.source.bytes = frames.flatten ++ lost ++ after.source.bytes
  output : after.sink.output.toList = link.sink.output.toList ++
    (done.filterMap Deed.action?).flatMap (bytesDone ctx.settings v) ++ part

/-- Whether deeds account for what comes of a cue: for all of it, if the cue does not end the
conversation. -/
def Accounted (ctx : Context) (v : Version) (link : Link) (done : List Deed) :
    Except (State × Link) Link → Prop
  | .ok after => ∃ frames, Account ctx v link done frames [] [] after
  | .error ended => ∃ frames lost part, Account ctx v link done frames lost part ended.2

variable {ctx v} {script : Script} {link : Link}

/-- Keep-alives account for nothing of their own, and what is only read writes nothing. -/
private theorem account_of_read {told : List Deed} {frames : List Bytes} {lost : Bytes}
    {rest : Source} (count : Nat) (ha : told.filterMap Deed.action? = [])
    (hh : List.Forall₂ (Frame.Brings v .client) frames (told.filterMap Deed.message?))
    (hs : link.source.bytes = frames.flatten ++ lost ++ rest.bytes) :
    Account ctx v link (List.replicate count .kept ++ told) frames lost []
      { link with source := rest } where
  heard := by rwa [List.filterMap_append, List.filterMap_replicate]
  source := hs
  output := by simp [List.filterMap_append, List.filterMap_replicate, ha, Deed.action?]

/-- What is done where a message is heard accounts for what is read there. -/
theorem accounted_of_hear (left : Nat) (e : Expect) :
    Accounted ctx v link (deedsAt ctx v script link (.hear e))
      (take ctx v script left link (.hear e)) := by
  obtain ⟨lost, hlost⟩ :=
    Frame.bytes_readMessage_suffix v .client ctx.settings.maxMessageSize link.source
  simp only [take, deedsAt]
  cases hr : (Frame.readMessage v .client ctx.settings.maxMessageSize link.source).result with
  | error error =>
    dsimp only
    split
    · exact ⟨_, _, _, account_of_read _ rfl .nil hlost.symm⟩
    · exact ⟨_, _, _, account_of_read _ rfl .nil hlost.symm⟩
  | ok message =>
    cases message with
    | none => exact ⟨_, _, _, account_of_read _ rfl .nil hlost.symm⟩
    | some m =>
      obtain ⟨frame, hb, hs⟩ := Frame.brings_of_readMessage hr
      have hsource : link.source.bytes = [frame].flatten ++ [] ++
          (Frame.readMessage v .client ctx.settings.maxMessageSize link.source).rest.bytes := by
        simpa using hs
      have hbrings : List.Forall₂ (Frame.Brings v .client) [frame] [m] := .cons hb .nil
      dsimp only
      cases script.matchesLine e m with
      | true => exact ⟨_, account_of_read _ rfl hbrings hsource⟩
      | false => exact ⟨_, _, _, account_of_read _ rfl hbrings hsource⟩

/-- What is only written reads nothing. -/
private theorem account_of_written {done : List Deed} {part : Bytes} {sink : Sink}
    (hm : done.filterMap Deed.message? = [])
    (ho : sink.output.toList = link.sink.output.toList ++
      (done.filterMap Deed.action?).flatMap (bytesDone ctx.settings v) ++ part) :
    Account ctx v link done [] [] part { link with sink } where
  heard := by
    rw [hm]
    exact .nil
  source := rfl
  output := ho

/-- The bytes that an action has on the wire are those that are written for it. -/
private theorem bytesDone_of_bytesOf {settings : Settings} {a : Action} {bytes : Option Bytes}
    (h : bytesOf settings v a = .ok bytes) : bytesDone settings v a = bytes.getD [] := by
  rw [bytesDone, ← map_bytesOf, h]
  rfl

/-- What is done by an action accounts for what is written there. -/
theorem accounted_of_perform (left : Nat) (r : Reply) :
    Accounted ctx v link (deedsAt ctx v script link (.perform r))
      (take ctx v script left link (.perform r)) := by
  obtain ⟨line, action⟩ := r
  have nothing : Account ctx v link [] [] [] [] link := account_of_written rfl (by simp)
  have silent (h : bytesOf ctx.settings v action = .ok none) :
      Account ctx v link [.done action] [] [] [] link :=
    account_of_written rfl (by simp [Deed.action?, bytesDone_of_bytesOf h])
  simp only [take, deedsAt, performance]
  cases action with
  | exit => exact ⟨_, _, _, silent rfl⟩
  | _ =>
    dsimp only
    generalize hb : bytesOf ctx.settings v _ = result at silent ⊢
    rcases result with e | _ | bytes
    · exact ⟨_, _, _, nothing⟩
    · exact ⟨_, silent rfl⟩
    · obtain ⟨part, -, ho, hall⟩ := Sink.output_send link.sink bytes
      simp only [write, Except.mapError]
      cases hw : link.sink.send bytes with
      | mk result sink =>
        rw [hw] at ho hall
        cases result with
        | error f => exact ⟨_, _, _, account_of_written rfl (by simpa using ho)⟩
        | ok u =>
          obtain rfl := hall rfl
          exact ⟨_, account_of_written rfl (by simpa [Deed.action?, bytesDone_of_bytesOf hb] using ho)⟩

/-- What is done at a cue accounts for what comes of it. -/
theorem accounted_of_cue (left : Nat) (cue : Cue) :
    Accounted ctx v link (deedsAt ctx v script link cue) (take ctx v script left link cue) := by
  cases cue with
  | hear e => exact accounted_of_hear left e
  | perform r => exact accounted_of_perform left r

/-- What is done at cues accounts for what is read and written while they are followed. -/
theorem account_deeds (cues : List Cue) (link : Link) :
    ∃ frames lost part, Account ctx v link (deeds ctx v script cues link) frames lost part
      (follow ctx v script cues link).2 := by
  induction cues generalizing link with
  | nil => exact ⟨[], [], [], .nil, rfl, by simp [deeds, follow]⟩
  | cons cue cues ih =>
    have hcue : Accounted ctx v link (deedsAt ctx v script link cue)
        (take ctx v script (cues.length + 1) link cue) := accounted_of_cue (cues.length + 1) cue
    rw [deeds, follow]
    cases ht : take ctx v script (cues.length + 1) link cue with
    | error ended =>
      rw [ht] at hcue
      rw [List.append_nil]
      exact hcue
    | ok next =>
      rw [ht] at hcue
      obtain ⟨first, hheard, hsource, houtput⟩ := hcue
      obtain ⟨frames, lost, part, hheard', hsource', houtput'⟩ := ih next
      refine ⟨first ++ frames, lost, part, ?_, ?_, ?_⟩
      · rw [List.filterMap_append]
        exact List.rel_append hheard hheard'
      · rw [hsource, hsource']
        simp only [List.append_nil, List.flatten_append, List.append_assoc]
      · rw [houtput', houtput, List.filterMap_append, List.flatMap_append]
        simp only [List.append_nil, List.append_assoc]

end Session

end ScriptedBolt
