import ScriptedBolt.Proofs.Literal.Values
import ScriptedBolt.Proofs.Script.Cues
import ScriptedBolt.Proofs.Script.Form

/-!
# The messages of a script

The cues of a script that is read are the items of its lines, in order: blocks lose and add none.
A message in a cue was spelled in a line, its fields by literals, so its fields are plain values.
-/

namespace ScriptedBolt

/-- The message of a line, with the role that sends it; an action may be none. -/
def Cue.message? : Cue → Option (Role × Message)
  | hear expected => some (.client, expected.message)
  | perform ⟨_, .send m⟩ => some (.server, m)
  | perform _ => none

namespace Script

/-- The cue that an item adds to a script; a directive adds none. -/
def cue? : Nat × Item → Option Cue
  | (line, .expect m) => some (.hear ⟨line, m⟩)
  | (line, .reply a) => some (.perform ⟨line, a⟩)
  | (_, .directive _) => none

/-- An item comes before the cues of the blocks that it is put before. -/
theorem cues_addToBlocks (item : Nat × Item) (blocks : List Block) :
    (addToBlocks item blocks).flatMap Block.cues =
      (cue? item).toList ++ blocks.flatMap Block.cues := by
  unfold addToBlocks
  split
  · split
    · rfl
    · rfl
  · split
    · rfl
    · rfl
  · rfl

/-- The cues of a script are those of its items, in order. -/
theorem cues_ofItems (items : Items) : (ofItems items).cues = items.filterMap cue? := by
  show (items.foldr addToBlocks []).flatMap Block.cues = items.filterMap cue?
  induction items with
  | nil => rfl
  | cons item items ih =>
    rw [List.foldr_cons, cues_addToBlocks, ih, List.filterMap_cons]
    cases cue? item <;> rfl

/-! ### Messages in lines -/

/-- A line of the client is no command, and is read as the message that is spelled in it. -/
theorem readClient_eq_ok_iff {body : List Char} {m : Message} : readClient body = .ok m ↔
    ¬isCommand (Text.splitWord body).1 = true ∧
      readMessage (Text.splitWord body).1 (Text.splitWord body).2 = .ok m := by
  unfold readClient
  dsimp only
  split
  · next hcommand => simp [hcommand]
  · next hcommand => rw [and_iff_right hcommand]

/-- What the server does in a line is a command, or to send the message that is spelled in it. -/
theorem readServer_cases {body : List Char} {a : Action} (h : readServer body = .ok a) :
    (isCommand (Text.splitWord body).1 = true ∧ ∀ m, a ≠ .send m) ∨
      ¬isCommand (Text.splitWord body).1 = true ∧ ∃ m, a = .send m ∧
        readMessage (Text.splitWord body).1 (Text.splitWord body).2 = .ok m := by
  unfold readServer at h
  dsimp only at h
  generalize (Text.splitWord body).1 = word at *
  split at h
  · next hword =>
    obtain rfl := Except.ok.inj h
    exact .inl ⟨by rw [hword]; rfl, by simp⟩
  split at h
  · next hword =>
    obtain rfl := Except.ok.inj h
    exact .inl ⟨by rw [hword]; rfl, by simp⟩
  split at h
  · next hword =>
    obtain ⟨bytes, -, rfl⟩ := map_eq_ok_iff.mp h
    exact .inl ⟨by rw [hword]; rfl, by simp⟩
  split at h
  · next hword =>
    obtain ⟨d, -, rfl⟩ := map_eq_ok_iff.mp h
    exact .inl ⟨by rw [hword]; rfl, by simp⟩
  split at h
  · simp at h
  · next hcommand =>
    obtain ⟨m, hread, rfl⟩ := map_eq_ok_iff.mp h
    exact .inr ⟨hcommand, m, rfl, hread⟩

/-- The fields of a message that is spelled are plain. -/
theorem plain_of_readMessage {name rest : List Char} {m : Message}
    (h : readMessage name rest = .ok m) : ∀ field ∈ m.fields, field.Plain := by
  unfold readMessage at h
  split at h
  · simp at h
  · split at h
    · next fields hvalues =>
      obtain rfl := Except.ok.inj h
      exact Literal.plain_of_values hvalues
    · simp at h

/-- The fields of a message that a role sends in a line are plain. -/
theorem plain_of_spoken {spoke role : Role} {body : List Char} {item : Item} {line : Nat}
    {cue : Cue} {m : Message} (h : Spoken spoke body item) (hcue : cue? (line, item) = some cue)
    (hm : cue.message? = some (role, m)) : ∀ field ∈ m.fields, field.Plain := by
  cases h with
  | @expect _ m' hbody =>
    obtain rfl := Option.some.inj hcue
    obtain ⟨-, rfl⟩ : _ ∧ m' = m := by simpa [Cue.message?] using hm
    exact plain_of_readMessage (readClient_eq_ok_iff.mp hbody).2
  | reply hbody =>
    obtain rfl := Option.some.inj hcue
    rcases readServer_cases hbody with ⟨-, hsend⟩ | ⟨-, m', rfl, hread⟩
    · unfold Cue.message? at hm
      split at hm
      · next heq => cases heq
      · next heq =>
        obtain ⟨-, rfl⟩ := Reply.mk.inj (Cue.perform.inj heq)
        exact absurd rfl (hsend _)
      · simp at hm
    · obtain ⟨-, rfl⟩ : _ ∧ m' = m := by simpa [Cue.message?] using hm
      exact plain_of_readMessage hread

/-- The fields of every message in a script that is read are plain. -/
theorem plain_of_parse {text : String} {s : Script} (h : parse text = .ok s) {cue : Cue}
    (hcue : cue ∈ s.cues) {role : Role} {m : Message} (hm : cue.message? = some (role, m)) :
    ∀ field ∈ m.fields, field.Plain := by
  obtain ⟨items, hitems, rfl, -⟩ := parse_eq_ok_iff.mp h
  rw [cues_ofItems, List.mem_filterMap] at hcue
  obtain ⟨⟨line, item⟩, hmem, hcue⟩ := hcue
  obtain ⟨p, -, hyields⟩ := yields_of_mem hitems hmem
  cases hyields with
  | directive => simp [cue?] at hcue
  | marked _ _ hspoken => exact plain_of_spoken hspoken hcue hm
  | unmarked _ _ _ hspoken => exact plain_of_spoken hspoken hcue hm

end Script

end ScriptedBolt
