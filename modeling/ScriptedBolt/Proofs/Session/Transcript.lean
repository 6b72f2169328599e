import ScriptedBolt.Proofs.Message.Names
import ScriptedBolt.Proofs.Session.Completion
import ScriptedBolt.Proofs.Session.Deeds
import ScriptedBolt.Proofs.Value.Spelling

/-!
# The log as a transcript

The lines of a log that start with the mark of a side tell what that side did. After the handshake,
and but for the line that tells that the client has closed its side, they are the lines of the deeds
of the session, each once and in order (`run_transcript`). A reader of the log can therefore take it
for what went over the connection.
-/

namespace ScriptedBolt

/-- Whether a text starts with another one. -/
def Text.startsWith (front text : String) : Bool := front.toList.isPrefixOf text.toList

/-- Whether a note is a line of the transcript: one for debugging that starts with the mark of a
side, other than the one that tells of a closed side. -/
def Note.isEntry (n : Note) : Bool :=
  n.level = .debug && (Text.startsWith "C: " n.text || Text.startsWith "S: " n.text) &&
    !Text.startsWith "C: <CLOSE> " n.text

namespace Deed

/-- The level at which a deed is logged. -/
def level : Deed → Level
  | kept => .trace
  | told .. => .debug
  | done _ => .debug

/-- The line of a deed. -/
def text : Deed → String
  | kept => "C: <NOOP>"
  | told true m => "C: (AUTO) " ++ m.text
  | told false m => "C: " ++ m.text
  | done a => "S: " ++ a.text

end Deed

/-- A note has the line and the level of the deed that it tells of. -/
theorem Note.shown_of_deed? {n : Note} {d : Deed} (h : n.deed? = some d) :
    n.text = d.text ∧ n.level = d.level := by
  cases n with
  | keptAlive => exact Option.some.inj h ▸ ⟨rfl, rfl⟩
  | heard auto m =>
    cases auto with
    | true => exact Option.some.inj h ▸ ⟨rfl, rfl⟩
    | false => exact Option.some.inj h ▸ ⟨rfl, rfl⟩
  | performed a => exact Option.some.inj h ▸ ⟨rfl, rfl⟩
  | _ => exact absurd h nofun

/-! ### The lines of a conversation -/

/-- The text of a message starts with a letter or an underscore if its name does. -/
theorem Message.exists_text_eq_cons {m : Message} (h : IsName m.name) :
    ∃ c more, m.text.toList = c :: more ∧ Script.isNameChar c = true := by
  obtain ⟨hne, hall⟩ := h
  rw [Message.toList_text]
  cases hname : m.name.toList with
  | nil => exact absurd hname hne
  | cons c more =>
    rw [hname, List.all_cons, Bool.and_eq_true] at hall
    exact ⟨c, _, rfl, hall.1⟩

/-- What is noted in a conversation. A message that is heard has the name of a tag. -/
inductive Note.InConversation : Note → Prop
  | keptAlive : InConversation .keptAlive
  | heard (auto : Bool) {m : Message} (h : IsName m.name) : InConversation (.heard auto m)
  | performed (a : Action) : InConversation (.performed a)
  | clientClosed (peer : String) : InConversation (.clientClosed peer)
  | peerGone (e : Error) : InConversation (.peerGone e)
  | failed (failure : Failure) : InConversation (.failed failure)

/-- A text that is put together starts as its parts do. -/
private theorem startsWith_append (front first rest : String) :
    Text.startsWith front (first ++ rest) =
      front.toList.isPrefixOf (first.toList ++ rest.toList) := by
  rw [Text.startsWith, String.toList_append]

/-- The text of a message is no command in brackets. -/
private theorem startsWith_command {m : Message} (h : IsName m.name) {front : String}
    {more : List Char} (hf : front.toList = 'C' :: ':' :: ' ' :: '<' :: more) :
    Text.startsWith front ("C: " ++ m.text) = false := by
  obtain ⟨c, rest, htext, hc⟩ := Message.exists_text_eq_cons h
  have hne : ('<' == c) = false := by
    rw [beq_eq_false_iff_ne]
    rintro rfl
    exact absurd hc (by decide)
  rw [startsWith_append, hf, htext]
  show ('<' == c && _) = false
  rw [hne, Bool.false_and]

/-- A line of a conversation belongs to the transcript if it tells of a deed for debugging. -/
theorem Note.InConversation.isEntry_eq {n : Note} (h : n.InConversation) :
    n.isEntry = n.deed?.any (·.level = .debug) := by
  cases h with
  | keptAlive => rfl
  | @heard auto m hname =>
    cases auto with
    | true =>
      show (true && (Text.startsWith "C: " ("C: (AUTO) " ++ m.text) || _) &&
        !Text.startsWith "C: <CLOSE> " ("C: (AUTO) " ++ m.text)) = true
      rw [startsWith_append, startsWith_append]
      rfl
    | false =>
      show (true && (Text.startsWith "C: " ("C: " ++ m.text) || _) &&
        !Text.startsWith "C: <CLOSE> " ("C: " ++ m.text)) = true
      rw [startsWith_append, startsWith_command hname rfl]
      rfl
  | performed a =>
    show (true && (Text.startsWith "C: " ("S: " ++ a.text) ||
      Text.startsWith "S: " ("S: " ++ a.text)) &&
        !Text.startsWith "C: <CLOSE> " ("S: " ++ a.text)) = true
    rw [startsWith_append, startsWith_append, startsWith_append]
    rfl
  | clientClosed peer =>
    show (true && _ && !Text.startsWith "C: <CLOSE> " ("C: <CLOSE> " ++ peer)) = false
    rw [startsWith_append]
    exact Bool.and_false _
  | peerGone e => rfl
  | failed failure => rfl

/-- A line of a conversation is for tracing if it tells of a deed for tracing. -/
theorem Note.InConversation.isTrace_eq {n : Note} (h : n.InConversation) :
    decide (n.level = .trace) = n.deed?.any (·.level = .trace) := by
  cases h with
  | _ => rfl

/-- A line for debugging does not tell that the connection is kept alive. -/
theorem Note.InConversation.text_ne {n : Note} (h : n.InConversation) (hlevel : n.level = .debug) :
    n.text ≠ "C: <NOOP>" := by
  -- Each of these texts starts as the text of a keep-alive does not.
  have differs {front text : String} (ht : Text.startsWith front text = true)
      (hn : Text.startsWith front "C: <NOOP>" = false) : text ≠ "C: <NOOP>" := by
    rintro rfl
    rw [ht] at hn
    exact Bool.noConfusion hn
  cases h with
  | keptAlive => exact absurd hlevel nofun
  | @heard auto m hname =>
    cases auto with
    | true => exact differs (startsWith_append "C: (AUTO) " _ m.text) rfl
    | false =>
      intro he
      have hnot : Text.startsWith "C: <NOOP>" ("C: " ++ m.text) = false :=
        startsWith_command hname rfl
      rw [show "C: " ++ m.text = "C: <NOOP>" from he] at hnot
      exact Bool.noConfusion hnot
  | performed a => exact differs (startsWith_append "S: " _ a.text) rfl
  | clientClosed peer => exact differs (startsWith_append "C: <CLOSE> " _ peer) rfl
  | peerGone e => exact absurd hlevel nofun
  | failed failure => exact absurd hlevel nofun

/-- Lines that tell of deeds are the lines of these deeds. -/
private theorem texts_of_deeds {p : Note → Bool} {q : Deed → Bool} {notes : List Note}
    (h : ∀ n ∈ notes, p n = n.deed?.any q) : (notes.filter p).map Note.text =
      ((notes.filterMap Note.deed?).filter q).map Deed.text := by
  induction notes with
  | nil => rfl
  | cons n notes ih =>
    have hn := h n List.mem_cons_self
    have hrest := ih fun other ho ↦ h other (List.mem_cons_of_mem _ ho)
    cases hd : n.deed? with
    | none =>
      rw [hd] at hn
      rw [List.filter_cons_of_neg (by simp [hn]), List.filterMap_cons_none hd, hrest]
    | some d =>
      rw [hd, Option.any_some] at hn
      rw [List.filterMap_cons_some hd]
      cases hq : q d with
      | true =>
        rw [List.filter_cons_of_pos (by rw [hn, hq]), List.filter_cons_of_pos hq, List.map_cons,
          List.map_cons, hrest, (Note.shown_of_deed? hd).1]
      | false =>
        rw [List.filter_cons_of_neg (by simp [hn, hq]), List.filter_cons_of_neg (by simp [hq]),
          hrest]

namespace Session

variable {ctx : Context} {v : Version} {script : Script} {link : Link} {c : Conversation}

/-- Telling a conversation what became of reading a message notes nothing else. -/
private theorem notes_of_tellResult {result : Except Error (Option Message)} {n : Note}
    (hm : ∀ m, result = .ok (some m) → IsName m.name) (h : n ∈ (tellResult ctx c result).2) :
    n.InConversation := by
  have closed (h : n ∈ (close ctx c).2) : n.InConversation := by
    rw [close] at h
    rcases List.mem_cons.mp h with rfl | h
    · exact .clientClosed _
    · split at h
      · exact List.mem_singleton.mp h ▸ .failed _
      · exact absurd h List.not_mem_nil
  rcases result with e | _ | m
  · rw [tellResult] at h
    split at h
    · exact closed h
    · exact List.mem_singleton.mp h ▸ .failed _
  · exact closed h
  · rw [tellResult, tell, Conversation.noteOf] at h
    rcases List.mem_append.mp h with h | h
    · split at h
      · exact List.mem_singleton.mp h ▸ .heard _ (hm m rfl)
      · exact absurd h List.not_mem_nil
    · split at h
      · exact List.mem_singleton.mp h ▸ .failed _
      · exact absurd h List.not_mem_nil

/-- The turn of the client notes nothing else. -/
theorem notes_of_hear {n : Note} (h : n ∈ (hear ctx v c link).notes) : n.InConversation := by
  rcases List.mem_append.mp h with h | h
  · exact List.eq_of_mem_replicate h ▸ .keptAlive
  · refine notes_of_tellResult ?_ h
    intro m hm
    obtain ⟨frame, hb, -⟩ := Frame.brings_of_readMessage hm
    exact hb.isName

/-- An action that ends the turn notes nothing else. -/
private theorem notes_of_perform {r : Reply} {ended : Progress} {n : Note}
    (hp : perform ctx v c link r = .error ended) (h : n ∈ ended.notes) : n.InConversation := by
  unfold perform at hp
  split at hp
  · rw [← Except.error.inj hp] at h
    exact List.mem_singleton.mp h ▸ .performed _
  · split at hp
    · rw [← Except.error.inj hp] at h
      exact List.mem_singleton.mp h ▸ .failed _
    · exact absurd hp nofun
    · split at hp
      · exact absurd hp nofun
      · rw [← Except.error.inj hp] at h
        exact List.mem_singleton.mp h ▸ .peerGone _

/-- The turn of the server notes nothing else. -/
theorem notes_of_speak {replies : List Reply} {n : Note}
    (h : n ∈ (speak ctx v c link replies).notes) : n.InConversation := by
  induction replies generalizing link with
  | nil =>
    rw [speak_nil] at h
    exact absurd h List.not_mem_nil
  | cons r replies ih =>
    rw [speak_cons] at h
    cases hp : perform ctx v c link r with
    | error ended =>
      rw [hp] at h
      exact notes_of_perform hp h
    | ok next =>
      rw [hp] at h
      rcases List.mem_cons.mp h with rfl | h
      · exact .performed _
      · exact ih h

/-- A conversation notes nothing else. -/
theorem notes_of_converse {n : Note} (h : n ∈ (converse ctx v c link).notes) :
    n.InConversation := by
  generalize hn : c.ahead = n
  induction n using Nat.strongRecOn generalizing c link with
  | ind n ih =>
    rw [converse_eq] at h
    cases ht : c.turn with
    | done =>
      rw [ht] at h
      exact absurd h List.not_mem_nil
    | hear expected =>
      rw [ht] at h
      rcases List.mem_append.mp h with h | h
      · exact notes_of_hear h
      · exact ih _ (hn ▸ ahead_hear_lt ctx v link ht) h rfl
    | speak replies =>
      rw [ht] at h
      rcases List.mem_append.mp h with h | h
      · exact notes_of_speak h
      · exact ih _ (hn ▸ ahead_speak_lt ctx v link ht) h rfl

/-- The log of a run whose handshake succeeds is a transcript. After the lines of the handshake, the
lines for debugging that start with the mark of a side, but for the one that tells that the client
has closed its side, are those of the messages that were read and given to the conversation and of
the actions that were performed in full, in the order in which this was done. The lines for tracing
are those of the keep-alives of the client, which no line for debugging tells of. The deeds account
for what was read and written. -/
theorem run_transcript {text : String} (hparse : Script.parse text = .ok script)
    (hs : (shakeHands ctx script link).1 = .ok v) :
    let met := (shakeHands ctx script link).2
    let did := deeds ctx v script script.cues met.1
    ∃ later, (run ctx script link).notes = met.2 ++ later ∧
      (later.filter Note.isEntry).map Note.text =
        (did.filter (·.level = .debug)).map Deed.text ∧
      (later.filter (·.level = .trace)).map Note.text =
        (did.filter (·.level = .trace)).map Deed.text ∧
      (∀ n ∈ later, n.level = .debug → n.text ≠ "C: <NOOP>") ∧
      ∃ frames lost part, Account ctx v met.1 did frames lost part (run ctx script link).link := by
  have hfull := Script.full_of_parse hparse
  obtain ⟨-, hlink, -⟩ := run_of_agreed hfull hs
  have hdeeds := deeds_of_converse ctx v hfull (Conversation.placed_start hfull)
    (Conversation.stateAt_ne_failed script 0) (shakeHands ctx script link).2.1
  have hnotes : (run ctx script link).notes = (shakeHands ctx script link).2.2 ++
      (converse ctx v (.start script) (shakeHands ctx script link).2.1).notes := by
    rw [run_eq]
    generalize shakeHands ctx script link = shaken at *
    obtain ⟨result, after, notes⟩ := shaken
    obtain rfl : result = .ok v := hs
    rfl
  dsimp only
  refine ⟨_, hnotes, ?_, ?_, ?_, ?_⟩
  · rw [texts_of_deeds fun n hn ↦ (notes_of_converse hn).isEntry_eq, hdeeds]
    rfl
  · rw [texts_of_deeds fun n hn ↦ (notes_of_converse hn).isTrace_eq, hdeeds]
    rfl
  · intro n hn
    exact (notes_of_converse hn).text_ne
  · rw [hlink]
    exact account_deeds script.cues _

/-- The connection of a client that resets, once hands are shaken. -/
def resetting : Link where
  source := [.deliver resetFrame]
  sink := { Sink.unbounded with calls := 1, output := #[0, 0, 0, 1] }

/-- Hands are shaken with that client in its version. -/
theorem shakeHands_resetter : shakeHands modest Script.dialogue resetter =
    (.ok ⟨1, 0⟩, resetting, [.readMagic, .readProposals ⟨1, 0, 0, 0⟩, .replied [0, 0, 0, 1],
      .negotiated ⟨1, 0⟩ "peer"]) := by
  cbv

/-- Its keep-alive and its reset are read, and a keep-alive is written. -/
theorem deeds_resetting : deeds modest ⟨1, 0⟩ Script.dialogue Script.dialogue.cues resetting =
    [.kept, .told false ⟨"RESET", []⟩, .done .keepAlive] := by
  have hframe : Frame.read modest.settings.maxMessageSize resetting.source =
      ⟨.ok (some [0xB0, 0x0F]), 1, [.deliver []]⟩ := by cbv
  have hmessage : Frame.readMessage ⟨1, 0⟩ .client modest.settings.maxMessageSize
      resetting.source = ⟨.ok (some ⟨"RESET", []⟩), 1, [.deliver []]⟩ := by
    rw [Frame.readMessage, hframe]
    rfl
  show deeds modest ⟨1, 0⟩ Script.dialogue
    [.hear ⟨1, ⟨"RESET", []⟩⟩, .perform ⟨2, .keepAlive⟩] resetting = _
  simp only [deeds, deedsAt, take, hmessage]
  cbv

/-- The log of a client that keeps the connection alive and resets tells of the reset and of the
keep-alive of the server for debugging. -/
theorem run_transcript_resetter :
    ∃ later, (run modest Script.dialogue resetter).notes =
        (shakeHands modest Script.dialogue resetter).2.2 ++ later ∧
      (later.filter Note.isEntry).map Note.text = ["C: RESET", "S: <NOOP>"] ∧
      (later.filter (·.level = .trace)).map Note.text = ["C: <NOOP>"] := by
  have hs : (shakeHands modest Script.dialogue resetter).1 = .ok ⟨1, 0⟩ := by
    rw [shakeHands_resetter]
  have hdid : deeds modest ⟨1, 0⟩ Script.dialogue Script.dialogue.cues
      (shakeHands modest Script.dialogue resetter).2.1 =
        [.kept, .told false ⟨"RESET", []⟩, .done .keepAlive] := by
    rw [shakeHands_resetter]
    exact deeds_resetting
  obtain ⟨later, hnotes, hentries, htraces, -⟩ := run_transcript Script.parse_dialogue hs
  rw [hdid] at hentries htraces
  exact ⟨later, hnotes, hentries, htraces⟩

end Session

end ScriptedBolt
