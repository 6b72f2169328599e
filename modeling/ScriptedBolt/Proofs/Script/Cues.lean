import ScriptedBolt.Script.Parse

/-!
# The cues of a script

Blocks only group lines. A script is played in the order of its lines whatever block they are
in, so most of what is said about a run is said about the row of its cues: the messages to hear
and the actions to perform, up to the first exit.
-/

namespace ScriptedBolt

/-- A line of a script, with the side whose line it is. -/
inductive Cue where
  /-- The client has to send a message. -/
  | hear (expected : Expect)
  /-- The server performs an action. -/
  | perform (reply : Reply)

namespace Cue

/-- Whether the conversation ends here. -/
def isExit : Cue → Bool
  | perform ⟨_, .exit⟩ => true
  | _ => false

/-- The line of the client, if it is one. -/
def expect? : Cue → Option Expect
  | hear expected => some expected
  | perform _ => none

/-- The lines of the client among cues. -/
def expects (cues : List Cue) : List Expect := cues.filterMap expect?

end Cue

/-- The lines of a block. -/
def Block.cues : Block → List Cue
  | client lines => lines.map .hear
  | server lines => lines.map .perform

/-- A block has as many cues as lines. -/
@[simp]
theorem Block.length_cues (block : Block) : block.cues.length = block.length := by
  cases block <;> simp [cues, length]

/-- The lines of blocks are counted. -/
theorem Block.countLines_eq (blocks : List Block) :
    countLines blocks = (blocks.flatMap cues).length := by
  induction blocks with
  | nil => rfl
  | cons block blocks ih =>
    rw [List.flatMap_cons, List.length_append, length_cues, ← ih]
    rfl

namespace Script

/-- The lines of a script in order. -/
def cues (s : Script) : List Cue := s.blocks.flatMap Block.cues

/-- The lines of a script that can be reached: those before the first exit. -/
def beforeExit (s : Script) : List Cue := s.cues.takeWhile (!·.isExit)

/-- Whether no block is empty. -/
def Full (s : Script) : Prop := ∀ block ∈ s.blocks, 0 < block.length

private theorem addToBlocks_full (item : Nat × Item) {blocks : List Block}
    (h : ∀ block ∈ blocks, 0 < block.length) :
    ∀ block ∈ addToBlocks item blocks, 0 < block.length := by
  have hcons {block : Block} {others : List Block} (hpos : 0 < block.length)
      (hothers : ∀ other ∈ others, 0 < other.length) :
      ∀ other ∈ block :: others, 0 < other.length :=
    List.forall_mem_cons.mpr ⟨hpos, hothers⟩
  unfold addToBlocks
  split
  · split
    · exact hcons (Nat.succ_pos _) (List.forall_mem_cons.mp h).2
    · exact hcons (Nat.succ_pos _) h
  · split
    · exact hcons (Nat.succ_pos _) (List.forall_mem_cons.mp h).2
    · exact hcons (Nat.succ_pos _) h
  · exact h

/-- A script that is read is that of the items of its lines, all of whose names are known. -/
theorem parse_eq_ok_iff {text : String} {s : Script} :
    parse text = .ok s ↔ ∃ items, readLines 1 none (Text.lines text.toList) = .ok items ∧
      s = ofItems items ∧ unknownName? s.version? items = none := by
  unfold parse
  constructor
  · intro h
    split at h
    · simp at h
    · next items hitems =>
      dsimp only at h
      split at h
      · simp at h
      · next hnames =>
        obtain rfl := Except.ok.inj h
        exact ⟨items, hitems, rfl, hnames⟩
  · rintro ⟨items, hitems, rfl, hnames⟩
    simp only [hitems, hnames]

/-- No block of a script that is read is empty. -/
theorem full_of_parse {text : String} {s : Script} (h : parse text = .ok s) : s.Full := by
  obtain ⟨items, -, rfl, -⟩ := parse_eq_ok_iff.mp h
  clear h
  show ∀ block ∈ items.foldr addToBlocks [], 0 < block.length
  induction items with
  | nil => simp
  | cons item items ih => exact addToBlocks_full item ih

/-- A script of one line, which is the server's. -/
def pulse : Script := ⟨[.server [⟨1, .keepAlive⟩]], []⟩

/-- The text of a script of one line. -/
theorem parse_pulse : parse "S: <NOOP>" = .ok pulse := by rfl

/-- A script with a line for each side. -/
def dialogue : Script := ⟨[.client [⟨1, ⟨"RESET", []⟩⟩], .server [⟨2, .keepAlive⟩]], []⟩

/-- The text of a script with a line for each side. -/
theorem parse_dialogue : parse "C: RESET\nS: <NOOP>" = .ok dialogue := by rfl

/-- A script in which the client goes on after the server. -/
def encore : Script :=
  ⟨[.client [⟨1, ⟨"RESET", []⟩⟩], .server [⟨2, .keepAlive⟩], .client [⟨3, ⟨"RESET", []⟩⟩]], []⟩

/-- The text of a script in which the client goes on after the server. -/
theorem parse_encore : parse "C: RESET\nS: <NOOP>\nC: RESET" = .ok encore := by rfl

end Script

end ScriptedBolt
