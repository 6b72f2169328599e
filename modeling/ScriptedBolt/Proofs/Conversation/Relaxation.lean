import Mathlib.Data.List.Induction
import Mathlib.Data.List.Sort
import ScriptedBolt.Note
import ScriptedBolt.Proofs.Conversation.Events

/-!
# What AUTO changes

Two scripts with the same blocks can be followed side by side: the conversation of the one is the
conversation of the other with the script exchanged (`under`), until a message comes that only one
of them takes for the one expected. When one script makes a name enough that the other does not,
such a message has that name, and it is the other script that does not take it. So AUTO forgives
mismatches of its own name and does nothing else.
-/

namespace ScriptedBolt

/-! ### The names that are enough -/

namespace Script

variable {s s' : Script} {name : String}

/-- A name is enough when a directive says so. -/
theorem isAuto_iff : s.isAuto name = true ↔ .auto name ∈ s.directives := by
  simp only [isAuto, List.any_eq_true]
  constructor
  · rintro ⟨directive, hm, h⟩
    split at h
    · rwa [← eq_of_beq h]
    · exact absurd h Bool.false_ne_true
  · intro h
    exact ⟨_, h, beq_self_eq_true name⟩

/-- A script with the blocks of another that makes a name enough, by any number of directives for
it anywhere between the directives of the other. -/
structure Relaxes (name : String) (s s' : Script) : Prop where
  blocks_eq : s'.blocks = s.blocks
  auto_mem : .auto name ∈ s'.directives
  others_eq : s'.directives.filter (· ≠ .auto name) = s.directives.filter (· ≠ .auto name)

/-- The directives of a script that make no name enough. -/
def settings (s : Script) : List Directive :=
  s.directives.filter fun
    | .auto _ => false
    | _ => true

/-- A script that differs from another only in how often and where its directives make the same
names enough. -/
structure Rearranges (s s' : Script) : Prop where
  blocks_eq : s'.blocks = s.blocks
  auto_mem_iff : ∀ name, .auto name ∈ s'.directives ↔ .auto name ∈ s.directives
  settings_eq : s'.settings = s.settings

/-- No other name is made enough. -/
theorem Relaxes.isAuto_eq (h : Relaxes name s s') {other : String} (hne : other ≠ name) :
    s'.isAuto other = s.isAuto other := by
  have hmem {t : Script} :
      .auto other ∈ t.directives.filter (· ≠ .auto name) ↔ .auto other ∈ t.directives := by
    simp [hne]
  rw [Bool.eq_iff_iff, isAuto_iff, isAuto_iff, ← hmem, h.others_eq, hmem]

/-- A message with another name matches the same lines. -/
theorem Relaxes.matchesLine_eq (h : Relaxes name s s') (expected : Expect) {m : Message}
    (hne : m.name ≠ name) : s'.matchesLine expected m = s.matchesLine expected m := by
  rw [matchesLine, matchesLine, h.isAuto_eq hne]

/-- A message that matches a line still does. -/
theorem Relaxes.matchesLine_of (h : Relaxes name s s') {expected : Expect} {m : Message}
    (hm : s.matchesLine expected m = true) : s'.matchesLine expected m = true := by
  by_cases hname : m.name = name
  · have hauto : s'.isAuto m.name = true := isAuto_iff.mpr (hname ▸ h.auto_mem)
    rw [matchesLine, Bool.and_eq_true] at hm
    rw [matchesLine, hm.1, hauto]
    rfl
  · rwa [h.matchesLine_eq expected hname]

/-- The same names are enough. -/
theorem Rearranges.isAuto_eq (h : Rearranges s s') (name : String) :
    s'.isAuto name = s.isAuto name := by
  rw [Bool.eq_iff_iff, isAuto_iff, isAuto_iff, h.auto_mem_iff]

/-- Messages match the same lines. -/
theorem Rearranges.matchesLine_eq (h : Rearranges s s') (expected : Expect) (m : Message) :
    s'.matchesLine expected m = s.matchesLine expected m := by
  rw [matchesLine, matchesLine, h.isAuto_eq]

/-- What is looked up in the directives from the last one on, and not in those that make a name
enough, is found among the others. -/
private theorem findSome?_settings {α : Type} {f : Directive → Option α}
    (hauto : ∀ name, f (.auto name) = none) (s : Script) :
    s.settings.reverse.findSome? f = s.directives.reverse.findSome? f := by
  rw [settings, ← List.filter_reverse, ← List.head?_filterMap, ← List.head?_filterMap,
    List.filterMap_filter]
  congr 2
  funext directive
  cases directive with
  | version v => rfl
  | auto name => exact (hauto name).symm
  | handshake reply => rfl

/-- The same version is asked for. -/
theorem Rearranges.version?_eq (h : Rearranges s s') : s'.version? = s.version? := by
  rw [version?, ← findSome?_settings (fun _ ↦ rfl), h.settings_eq,
    findSome?_settings (fun _ ↦ rfl), version?]

/-- The handshake is answered with the same bytes. -/
theorem Rearranges.reply?_eq (h : Rearranges s s') : s'.reply? = s.reply? := by
  rw [reply?, ← findSome?_settings (fun _ ↦ rfl), h.settings_eq,
    findSome?_settings (fun _ ↦ rfl), reply?]

/-- The names listed are those that a directive makes enough. -/
theorem mem_autoNames : name ∈ s.autoNames ↔ .auto name ∈ s.directives := by
  rw [autoNames, Entries.key_mem_sort, List.map_filterMap, List.mem_filterMap]
  constructor
  · rintro ⟨directive, hm, h⟩
    cases directive with
    | auto other => exact Option.some.inj h ▸ hm
    | version v => exact absurd h nofun
    | handshake reply => exact absurd h nofun
  · intro h
    exact ⟨_, h, rfl⟩

/-- The same names are listed. -/
theorem Rearranges.autoNames_eq (h : Rearranges s s') : s'.autoNames = s.autoNames := by
  have hirrefl : Std.Irrefl fun a b : String ↦ a < b := ⟨String.lt_irrefl⟩
  apply List.Pairwise.eq_of_mem_iff (Entries.ascending_sort _) (Entries.ascending_sort _)
  intro name
  exact mem_autoNames.trans ((h.auto_mem_iff name).trans mem_autoNames.symm)

end Script

/-! ### Events, whatever the script -/

namespace Conversation

variable {c : Conversation} {s s' : Script}

/-- An event does not exchange the script. -/
theorem script_on (c : Conversation) (event : Event) : (c.on event).script = c.script := by
  cases event with
  | message m =>
    rw [on, receive]
    split
    · split
      · dsimp only
        split
        · rfl
        · rfl
      · rfl
    · rfl
  | repliesSent =>
    rw [on, repliesSent]
    split
    · rfl
    · rfl
  | exit =>
    rw [on, exit]
    split
    · rfl
    · rfl
  | disconnected =>
    rw [on, disconnected]
    split
    · rfl
    · split
      · rfl
      · rfl
  | failure failure =>
    rw [on, fail]
    split
    · rfl
    · rfl

/-- Nor do any events. -/
theorem script_after (c : Conversation) (events : List Event) :
    (c.after events).script = c.script := by
  induction events generalizing c with
  | nil => rfl
  | cons event events ih => exact (ih (c.on event)).trans (script_on c event)

/-- Nothing happens after the end. -/
theorem on_of_terminal (h : c.isTerminal = true) (event : Event) : c.on event = c := by
  cases event with
  | message m =>
    rw [on, receive]
    split
    · next hs _ => simp [isTerminal, State.isTerminal, hs] at h
    · rfl
  | repliesSent =>
    rw [on, repliesSent]
    split
    · next hs => simp [isTerminal, State.isTerminal, hs] at h
    · rfl
  | exit => exact if_pos h
  | disconnected => exact if_pos h
  | failure failure => exact if_pos h

/-- Nothing that happens after the end changes anything. -/
theorem after_of_terminal (h : c.isTerminal = true) (events : List Event) :
    c.after events = c := by
  induction events with
  | nil => rfl
  | cons event events ih => rwa [after, List.foldl_cons, on_of_terminal h]

/-- Events come one after the other. -/
theorem after_append (c : Conversation) (events more : List Event) :
    c.after (events ++ more) = (c.after events).after more := List.foldl_append

/-- After one event. -/
theorem after_singleton (c : Conversation) (event : Event) : c.after [event] = c.on event := rfl

/-! ### The same conversation under another script -/

/-- The conversation at the same place and in the same state, with another script. -/
def under (c : Conversation) (script : Script) : Conversation := { c with script }

@[simp] theorem script_under (c : Conversation) : (c.under s').script = s' := rfl

@[simp] theorem state_under (c : Conversation) : (c.under s').state = c.state := rfl

@[simp] theorem isTerminal_under (c : Conversation) : (c.under s').isTerminal = c.isTerminal := rfl

/-- The same line is expected where the blocks are the same. -/
theorem expected?_under (hb : s'.blocks = c.script.blocks) :
    (c.under s').expected? = c.expected? := by
  simp only [expected?, under, hb]

/-- The same actions are to be performed where the blocks are the same. -/
theorem replies?_under (hb : s'.blocks = c.script.blocks) :
    (c.under s').replies? = c.replies? := by
  simp only [replies?, under, hb]

/-- As many lines are left where the blocks are the same. -/
theorem remaining_under (hb : s'.blocks = c.script.blocks) :
    (c.under s').remaining = c.remaining := by
  simp only [remaining, under, hb]

/-- The same is next where the blocks are the same. -/
theorem turn_under (hb : s'.blocks = c.script.blocks) : (c.under s').turn = c.turn := by
  simp only [turn, expected?_under hb, replies?_under hb, state_under]

/-- The next block starts in the same way. -/
theorem advance_under (hb : s'.blocks = c.script.blocks) :
    (c.under s').advance = c.advance.under s' := by
  simp only [advance, under, stateAt, hb]

/-- A message does the same under another script that agrees on whether it is the one expected. -/
theorem receive_under (hb : s'.blocks = c.script.blocks) {m : Message}
    (hm : ∀ expected, c.turn = .hear expected →
      s'.matchesLine expected m = c.script.matchesLine expected m) :
    (c.under s').receive m = (c.receive m).under s' := by
  cases hs : c.state with
  | awaitingClient =>
    cases he : c.expected? with
    | none =>
      simp only [receive, expected?_under hb, he, state_under, hs]
    | some expected =>
      have hagree := hm expected (by simp only [turn, hs, he])
      simp only [receive, expected?_under hb, he, state_under, hs]
      rw [advance_under hb]
      simp only [under, hb, hagree]
      split
      · split
        · rfl
        · rfl
      · rfl
  | sendingServer => simp only [receive, state_under, hs]
  | completed => simp only [receive, state_under, hs]
  | failed failure => simp only [receive, state_under, hs]

/-- So does every event, when the two scripts agree on the messages. -/
theorem on_under (hb : s'.blocks = c.script.blocks) {event : Event}
    (hm : ∀ m expected, event = .message m → c.turn = .hear expected →
      s'.matchesLine expected m = c.script.matchesLine expected m) :
    (c.under s').on event = (c.on event).under s' := by
  by_cases hend : c.isTerminal = true
  · have hend' : (c.under s').isTerminal = true := hend
    rw [on_of_terminal hend, on_of_terminal hend']
  cases event with
  | message m => exact receive_under hb fun expected ↦ hm m expected rfl
  | repliesSent =>
    simp only [on, repliesSent, state_under]
    cases c.state with
    | sendingServer => exact advance_under hb
    | awaitingClient => rfl
    | completed => rfl
    | failed failure => rfl
  | exit =>
    simp only [on, exit, isTerminal_under, hend]
    simp only [under, hb, Bool.false_eq_true, if_false]
  | disconnected =>
    simp only [on, disconnected, isTerminal_under, hend, remaining_under hb, Bool.false_eq_true,
      if_false]
    split
    · rfl
    · rfl
  | failure failure =>
    simp only [on, fail, isTerminal_under, hend, Bool.false_eq_true, if_false]
    rfl

/-- Scripts with the same blocks start in the same way. -/
theorem start_under (hb : s'.blocks = s.blocks) : start s' = (start s).under s' := by
  simp only [start, under, stateAt, hb]

/-! ### The first mismatch -/

/-- Whether the conversation of a script, after events that have not ended it, fails on a message
because it is not the one expected. -/
def MismatchesAt (script : Script) (events : List Event) (m : Message) : Prop :=
  let c := (start script).after events
  c.isTerminal = false ∧ ∃ expected, (c.receive m).state = .failed (.mismatch expected m)

/-- A message is not heard out of turn. -/
theorem receive_of_not_hear (h : ∀ expected, c.turn ≠ .hear expected) (m : Message) :
    c.receive m = c := by
  rw [receive]
  split
  · next expected hs he => exact absurd (by simp only [turn, hs, he]) (h expected)
  · rfl

/-- A conversation that goes on fails on a message when it expects another one. -/
theorem mismatch_iff (hgoing : c.isTerminal = false) {m : Message} :
    (∃ expected, (c.receive m).state = .failed (.mismatch expected m)) ↔
      ∃ expected, c.turn = .hear expected ∧ c.script.matchesLine expected m = false := by
  constructor
  · rintro ⟨expected, h⟩
    by_contra hnone
    rw [not_exists] at hnone
    by_cases hhear : ∃ line, c.turn = .hear line
    · obtain ⟨line, ht⟩ := hhear
      obtain ⟨hs, he⟩ := expected?_of_turn ht
      have hm := Bool.not_eq_false _ ▸ not_and.mp (hnone line) ht
      simp only [receive, hs, he, hm, if_true] at h
      split at h
      · exact stateAt_ne_failed _ _ _ h
      · simp at h
    · rw [receive_of_not_hear (not_exists.mp hhear)] at h
      rw [isTerminal_of_failed h] at hgoing
      exact Bool.noConfusion hgoing
  · rintro ⟨expected, ht, hm⟩
    exact ⟨expected, receive_of_mismatch ht hm⟩

/-- A script that relaxes another is followed like it, unless the other one has failed on a message
before. -/
theorem after_under_or_mismatch {name : String} (h : s.Relaxes name s') (events : List Event) :
    (start s').after events = ((start s).after events).under s' ∨
      ∃ earlier m, earlier ++ [.message m] <+: events ∧ MismatchesAt s earlier m := by
  induction events using List.reverseRecOn with
  | nil => exact .inl (start_under h.blocks_eq)
  | append_singleton events event ih =>
    rcases ih with heq | ⟨earlier, m, hpre, hmis⟩
    · have hscript : ((start s).after events).script = s := script_after _ _
      by_cases hmis : ∃ m expected, event = .message m ∧
          ((start s).after events).turn = .hear expected ∧ s.matchesLine expected m = false
      · obtain ⟨m, expected, rfl, ht, hm⟩ := hmis
        have hgoing : ((start s).after events).isTerminal = false := by
          rw [Bool.eq_false_iff]
          intro hend
          rw [turn_of_terminal hend] at ht
          exact Turn.noConfusion ht
        refine .inr ⟨events, m, List.prefix_rfl, hgoing, ?_⟩
        exact (mismatch_iff hgoing).mpr ⟨expected, ht, by rwa [hscript]⟩
      · left
        rw [after_append, after_append, heq]
        apply on_under (by rw [hscript, h.blocks_eq])
        intro m expected hevent ht
        rw [hscript]
        have hm : s.matchesLine expected m = true := by
          by_contra hm
          exact hmis ⟨m, expected, hevent, ht, Bool.eq_false_iff.mpr hm⟩
        rw [hm, h.matchesLine_of hm]
    · exact .inr ⟨earlier, m, hpre.trans (List.prefix_append _ _), hmis⟩

/-- Scripts with the same blocks that take the same messages for those expected are followed
alike. -/
theorem after_under (hb : s'.blocks = s.blocks)
    (hm : ∀ expected m, s'.matchesLine expected m = s.matchesLine expected m)
    (events : List Event) : (start s').after events = ((start s).after events).under s' := by
  induction events using List.reverseRecOn with
  | nil => exact start_under hb
  | append_singleton events event ih =>
    have hscript : ((start s).after events).script = s := script_after _ _
    rw [after_append, after_append, ih]
    apply on_under (by rw [hscript, hb])
    intro m expected _ _
    rw [hscript, hm]

/-- Scripts that are rearranged are followed alike. -/
theorem after_under_of_rearranges (h : s.Rearranges s') (events : List Event) :
    (start s').after events = ((start s).after events).under s' :=
  after_under h.blocks_eq h.matchesLine_eq events

/-- A message is noted alike under another script that agrees on it. -/
theorem noteOf_under (hb : s'.blocks = c.script.blocks) {m : Message}
    (hauto : s'.isAuto m.name = c.script.isAuto m.name) :
    (c.under s').noteOf m = c.noteOf m := by
  simp only [noteOf, turn_under hb, script_under, Script.matchesLine, hauto]

/-- After a message on which a script has failed, it stays failed. -/
theorem MismatchesAt.state_after {earlier events : List Event} {m : Message}
    (h : MismatchesAt s earlier m) (hpre : earlier ++ [.message m] <+: events) :
    ∃ expected, ((start s).after events).state = .failed (.mismatch expected m) := by
  obtain ⟨hgoing, expected, hs⟩ := h
  obtain ⟨more, rfl⟩ := hpre
  refine ⟨expected, ?_⟩
  have hend : (((start s).after earlier).on (.message m)).isTerminal = true :=
    isTerminal_of_failed hs
  rw [after_append, after_append, after_singleton, after_of_terminal hend]
  exact hs

/-- Making a name enough only forgives. As long as a script has not failed on a message, the script
that makes a name enough as well is in the same state and at the same line; it fails on a message
only when the other has failed on that message or an earlier one; and at the same place it takes
every message with another name alike, and notes it alike. How often and where the directives make
a name enough is of no account. -/
theorem relaxes_only_mismatches {name : String} (h : s.Relaxes name s') :
    (∀ events, let c := (start s).after events
      (∀ expected m, c.state ≠ .failed (.mismatch expected m)) →
        ((start s').after events).state = c.state ∧
          ((start s').after events).cursor = c.cursor) ∧
    (∀ events m, MismatchesAt s' events m →
      ∃ earlier m', earlier ++ [.message m'] <+: events ++ [.message m] ∧
        MismatchesAt s earlier m') ∧
    (∀ (c : Conversation) (m : Message), c.script = s → m.name ≠ name →
      (c.under s').receive m = (c.receive m).under s' ∧ (c.under s').noteOf m = c.noteOf m) ∧
    ∀ t t' : Script, t.Rearranges t' →
      t'.version? = t.version? ∧ t'.reply? = t.reply? ∧ t'.autoNames = t.autoNames ∧
        ∀ events, (start t').after events = ((start t).after events).under t' ∧
          ∀ m, ((start t').after events).noteOf m = ((start t).after events).noteOf m := by
  refine ⟨?_, ?_, ?_, ?_⟩
  · intro events c hgoing
    rcases after_under_or_mismatch h events with heq | ⟨earlier, m, hpre, hmis⟩
    · rw [heq]
      exact ⟨rfl, rfl⟩
    · obtain ⟨expected, hs⟩ := hmis.state_after hpre
      exact absurd hs (hgoing expected m)
  · rintro events m ⟨hgoing, hmis⟩
    rcases after_under_or_mismatch h events with heq | ⟨earlier, m', hpre, hmis'⟩
    · have hscript : ((start s).after events).script = s := script_after _ _
      have hblocks : s'.blocks = ((start s).after events).script.blocks := by
        rw [hscript, h.blocks_eq]
      rw [mismatch_iff hgoing, heq, turn_under hblocks] at hmis
      obtain ⟨expected, ht, hm⟩ := hmis
      rw [heq, isTerminal_under] at hgoing
      refine ⟨events, m, List.prefix_rfl, hgoing, ?_⟩
      refine (mismatch_iff hgoing).mpr ⟨expected, ht, ?_⟩
      rw [hscript, Bool.eq_false_iff]
      intro hmatch
      rw [← Bool.not_eq_true] at hm
      exact hm (h.matchesLine_of hmatch)
    · exact ⟨earlier, m', hpre.trans (List.prefix_append _ _), hmis'⟩
  · rintro c m rfl hne
    exact ⟨receive_under h.blocks_eq fun expected _ ↦ h.matchesLine_eq expected hne,
      noteOf_under h.blocks_eq (h.isAuto_eq hne)⟩
  · intro t t' ht
    refine ⟨ht.version?_eq, ht.reply?_eq, ht.autoNames_eq, ?_⟩
    intro events
    have heq := after_under_of_rearranges ht events
    have hscript : ((start t).after events).script = t := script_after _ _
    refine ⟨heq, ?_⟩
    intro m
    rw [heq]
    apply noteOf_under (by rw [hscript, ht.blocks_eq])
    rw [hscript, ht.isAuto_eq]

/-- A client that sends RESET with a field fails the script that expects it without, and not the one
that makes RESET enough; another message fails both. -/
theorem relaxes_only_mismatches_dialogue :
    let s := Script.dialogue
    let s' : Script := ⟨s.blocks, [.auto "RESET", .auto "RESET"]⟩
    s.Relaxes "RESET" s' ∧ MismatchesAt s [] ⟨"RESET", [.null]⟩ ∧
      ¬ MismatchesAt s' [] ⟨"RESET", [.null]⟩ ∧
      ((start s').after [.message ⟨"RESET", []⟩]).state = .sendingServer ∧
      MismatchesAt s' [] ⟨"GOODBYE", []⟩ ∧
      (∃ earlier m, earlier ++ [.message m] <+: [.message ⟨"GOODBYE", []⟩] ∧
        MismatchesAt s earlier m) ∧
      ((start s).under s').receive ⟨"GOODBYE", []⟩ =
        ((start s).receive ⟨"GOODBYE", []⟩).under s' := by
  intro s s'
  have h : s.Relaxes "RESET" s' := ⟨rfl, List.mem_cons_self, rfl⟩
  obtain ⟨hfollow, hmis, hother, -⟩ := relaxes_only_mismatches h
  have hgoodbye : MismatchesAt s' [] ⟨"GOODBYE", []⟩ := ⟨rfl, _, rfl⟩
  refine ⟨h, ⟨rfl, _, rfl⟩, ?_, ?_, hgoodbye, hmis _ _ hgoodbye, ?_⟩
  · rintro ⟨-, expected, hs⟩
    exact State.noConfusion hs
  · exact (hfollow [.message ⟨"RESET", []⟩] (fun _ _ ↦ nofun)).1
  · exact (hother (start s) ⟨"GOODBYE", []⟩ rfl (by decide)).1

end Conversation

end ScriptedBolt
