import ScriptedBolt.Proofs.Conversation.Events
import ScriptedBolt.Proofs.Script.Survival
import ScriptedBolt.Proofs.Value.Zeros

/-!
# Expectations that can be met

An expectation with a NaN in it would match no message, not even itself. A script that is read has
none: its values are plain, at any depth. So whenever the client has its turn, the message that is
expected, once it comes, takes its line away, whatever the conversation has been told before.
-/

namespace ScriptedBolt

namespace Value

/-- What occurs in a plain value is plain. -/
theorem plain_of_occurs {w v : Value} (h : w.Occurs v) (hv : v.Plain) : w.Plain := by
  induction h with
  | here => exact hv
  | item hmem _ ih => exact ih (plainItems_iff.mp hv _ hmem)
  | entry hmem _ ih => exact ih (plainEntries_iff.mp hv.2 _ hmem)
  | field => exact hv.elim

end Value

namespace Conversation

variable {c : Conversation} {script : Script}

/-- The cues from the cursor on are cues of the script. -/
theorem mem_cues_of_mem_pending {cue : Cue} (h : cue ∈ c.pending) : cue ∈ c.script.cues := by
  obtain ⟨block, hblock, hcue⟩ := List.mem_flatMap.mp (List.mem_of_mem_drop h)
  exact List.mem_flatMap.mpr ⟨block, List.mem_of_mem_drop hblock, hcue⟩

/-- A message of a script that is read is the one expected where it is expected. -/
theorem matchesLine_self {text : String} (hparse : Script.parse text = .ok script) {e : Expect}
    (he : .hear e ∈ script.cues) : script.matchesLine e e.message = true := by
  have heqv := Script.eqv_self_of_parse hparse he rfl
  rw [Message.eqv, Bool.and_eq_true] at heqv
  rw [Script.matchesLine, heqv.1, heqv.2, Bool.or_true, Bool.and_self]

/-- In the turn of the client the message that is expected takes the first cue away. -/
theorem Kept.receive_expected {text : String} (hparse : Script.parse text = .ok script)
    (h : Kept script c) (hs : c.state = .awaitingClient) :
    ∃ e, c.expected? = some e ∧ (∀ failure, (c.receive e.message).state ≠ .failed failure) ∧
      c.pending = .hear e :: (c.receive e.message).pending := by
  obtain ⟨rfl, hplaced, -⟩ := h
  obtain ⟨e, rest, ht, hp⟩ := hears_of_awaiting hplaced hs
  have hmem : .hear e ∈ c.pending := by
    rw [hp]
    exact List.mem_cons_self
  have hmatches := matchesLine_self hparse (mem_cues_of_mem_pending hmem)
  have hfull := Script.full_of_parse hparse
  obtain ⟨-, hnext, -, hgo⟩ := receive_of_matches hfull hplaced ht hp hmatches
  refine ⟨e, (expected?_of_turn ht).2, hgo, ?_⟩
  rw [hp, hnext]

/-- All floats in the messages of a script that is read are finite, and no structure is among their
fields or in them. So whatever a conversation has been told, if it awaits a message then one is
expected, and that message does not end it with a failure but takes exactly its line away. -/
theorem after_start_meets_expectation {text : String} (hparse : Script.parse text = .ok script) :
    (∀ cue ∈ script.cues, ∀ role m, cue.message? = some (role, m) →
      ∀ field ∈ m.fields, ∀ w : Value, w.Occurs field →
        (∀ x, w = .float x → x.isFinite = true) ∧ ∀ tag fields, w ≠ .struct tag fields) ∧
    ∀ events, let c := (start script).after events
      c.state = .awaitingClient → ∃ e, c.expected? = some e ∧
        (∀ failure, (c.receive e.message).state ≠ .failed failure) ∧
        c.pending = .hear e :: (c.receive e.message).pending ∧
        (c.receive e.message).remaining + 1 = c.remaining := by
  constructor
  · intro cue hcue role m hm field hfield w hw
    have hplain := Value.plain_of_occurs hw (Script.plain_of_parse hparse hcue hm field hfield)
    constructor
    · rintro x rfl
      exact hplain
    · rintro tag fields rfl
      exact hplain
  · intro events c hs
    have hfull := Script.full_of_parse hparse
    obtain ⟨hkept, -, -⟩ := (kept_start hfull).after hfull events
    obtain ⟨e, he, hgo, hp⟩ := hkept.receive_expected hparse hs
    refine ⟨e, he, hgo, hp, ?_⟩
    rw [remaining_eq, remaining_eq, hp, List.length_cons]

/-- A message with a negative zero in a list. -/
def signedReset : Message := ⟨"RESET", [.list [.float Binary64.negativeZero]]⟩

/-- A script whose only line expects a negative zero in a list. -/
def signedScript : Script := ⟨[.client [⟨1, signedReset⟩]], []⟩

/-- The text of a script that expects a negative zero in a list. -/
theorem parse_signed : Script.parse "C: RESET [-0.0]" = .ok signedScript := by
  have hbody : "RESET [-0.0]".toList = "RESET".toList ++ ' ' :: "[-0.0]".toList := by rfl
  have hsplit : Text.splitWord "RESET [-0.0]".toList = ("RESET".toList, "[-0.0]".toList) := by rfl
  have hvalues : Literal.values "[-0.0]".toList = .ok [.list [.float Binary64.negativeZero]] := by
    rfl
  have hread : Script.readClient "RESET [-0.0]".toList = .ok signedReset := by
    rw [Script.readClient_eq_ok_iff, hsplit]
    refine ⟨by decide, ?_⟩
    rw [Script.readMessage, if_neg (by decide), hvalues]
    rfl
  have hline : Text.IsLine "RESET [-0.0]".toList := by
    rw [hbody]
    exact (Text.IsLine.of_isGraphic (by decide) (by decide)).append
      (.of_isGraphic (by decide) (by decide))
  have hspoken := Script.parse_mark hline (.expect hread) (by rintro role name ⟨⟩; rfl)
  exact hspoken

/-- The negative zero is met by itself, and then no line remains. -/
theorem after_start_meets_expectation_signed :
    let c := (start signedScript).after [.repliesSent]
    c.state = .awaitingClient ∧ c.remaining = 1 ∧ c.expected? = some ⟨1, signedReset⟩ ∧
      (c.receive signedReset).remaining = 0 := by
  intro c
  have hs : c.state = .awaitingClient := rfl
  have he : c.expected? = some ⟨1, signedReset⟩ := rfl
  have hone : c.remaining = 1 := rfl
  obtain ⟨-, hmeets⟩ := after_start_meets_expectation parse_signed
  obtain ⟨e, he', -, -, hremaining⟩ := hmeets [.repliesSent] hs
  obtain rfl : e = ⟨1, signedReset⟩ := Option.some.inj (he'.symm.trans he)
  refine ⟨hs, hone, he, ?_⟩
  exact Nat.succ.inj (hremaining.trans hone)

end Conversation

end ScriptedBolt
