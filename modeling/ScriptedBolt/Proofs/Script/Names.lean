import ScriptedBolt.Proofs.Frame.Writing
import ScriptedBolt.Proofs.Script.Structure
import ScriptedBolt.Session

/-!
# The names in a script

A text is a script if its lines are read, and if every name in them is one that its role can send
in the version that the text pins, wherever in it that is, or else in some version. The names are
then there in the version that is spoken, as far as the server is concerned in any case, so no
message of the server is without a tag when its time comes. Only the number of its fields can keep
it from being written.
-/

namespace ScriptedBolt

/-- The names in a catalogue. -/
def Catalogue.names (c : Catalogue) : List String := c.map Prod.fst

/-- Exactly the names in a catalogue have a tag. -/
theorem Catalogue.isSome_tag?_iff {c : Catalogue} {name : String} :
    (c.tag? name).isSome = true ↔ name ∈ c.names := by
  rw [tag?, names, Option.isSome_map, List.find?_isSome, List.mem_map]
  simp only [beq_iff_eq]

/-- Nothing that occurs in a plain value is a structure. -/
theorem Value.not_overfull_of_occurs {w v : Value} (hw : w.Occurs v) (h : v.Plain) :
    ¬w.Overfull := by
  induction hw with
  | here =>
    cases w with
    | struct tag fields => exact h.elim
    | _ => exact id
  | item hmem _ ih => exact ih (plainItems_iff.mp h _ hmem)
  | entry hmem _ ih => exact ih (plainEntries_iff.mp h.2 _ hmem)
  | field _ _ _ => exact h.elim

/-- The version that a directive asks for, if it does. -/
def Directive.version? : Directive → Option Version
  | version v => some v
  | _ => none

namespace Script

/-! ### Names in lines -/

/-- The name of the message that a role sends in a line with content. A command has none. -/
def nameIn? (role : Role) (body : List Char) : Option (Role × String) :=
  let word := (Text.splitWord body).1
  if isCommand word then none else some (role, String.ofList word)

/-- The name that a directive asks to match alone. It is one that the client sends. -/
def autoIn? (body : List Char) : Option (Role × String) :=
  let (keyword, rest) := Text.splitWord body
  if keyword = "AUTO".toList then some (.client, String.ofList (Text.splitWord rest).1) else none

/-- The name on a line among others, with the role that sends it. -/
def nameAt? (lines : List (List Char)) (p : List Char × Nat) : Option (Role × String) :=
  match form p.1 with
  | .silent => none
  | .directive body => autoIn? body
  | .marked role body => if body.isEmpty then none else nameIn? role body
  | .unmarked body => (inForce lines p.2).bind (nameIn? · body)

/-- The version that a directive pins. -/
def versionIn? (body : List Char) : Option Version :=
  match readDirective body with
  | .ok (.version v) => some v
  | _ => none

/-- The version that lines pin; the last directive counts. -/
def pinned? (lines : List (List Char)) : Option Version :=
  (lines.filterMap fun raw ↦ (form raw).directive?.bind versionIn?).getLast?

/-- Whether a role can send a message of this name: in the given version, or without one in some
version that can be spoken. -/
def Available (version : Option Version) (role : Role) (name : String) : Prop :=
  match version with
  | some v => name ∈ (v.catalogue role).names
  | none => ∃ v ∈ Version.supported, name ∈ (v.catalogue role).names

/-- The names that are known are those available. -/
theorem knows_iff {version : Option Version} {role : Role} {name : String} :
    knows version role name = true ↔ Available version role name := by
  cases version with
  | some v => exact Catalogue.isSome_tag?_iff
  | none =>
    show Role.knows role name = true ↔ _
    rw [Role.knows, List.any_eq_true]
    simp only [Version.tag?, Catalogue.isSome_tag?_iff, Available]

private theorem name_of_readMessage {name rest : List Char} {m : Message}
    (h : readMessage name rest = .ok m) : m.name = String.ofList name := by
  unfold readMessage at h
  split at h
  · simp at h
  · split at h
    · obtain rfl := Except.ok.inj h
      rfl
    · simp at h

/-- The name in what a role does is the one that its line has. -/
private theorem nameIn?_of_spoken {role : Role} {body : List Char} {item : Item}
    (h : Spoken role body item) : nameIn? role body = item.name? := by
  unfold nameIn?
  cases h with
  | expect h =>
    obtain ⟨hcommand, hread⟩ := readClient_eq_ok_iff.mp h
    rw [if_neg hcommand, ← name_of_readMessage hread]
    rfl
  | @reply _ a h =>
    rcases readServer_cases h with ⟨hcommand, hsend⟩ | ⟨hcommand, m, rfl, hread⟩
    · rw [if_pos hcommand]
      cases a with
      | send m => exact absurd rfl (hsend m)
      | _ => rfl
    · rw [if_neg hcommand, ← name_of_readMessage hread]
      rfl

private theorem autoIn?_of_readDirective {body : List Char} {d : Directive}
    (h : readDirective body = .ok d) : autoIn? body = (Item.directive d).name? := by
  unfold readDirective at h
  unfold autoIn?
  dsimp only at h ⊢
  split at h
  · next hword =>
    rw [if_pos hword]
    split at h
    · simp at h
    · obtain rfl := Except.ok.inj h
      rfl
  · next hword =>
    rw [if_neg hword]
    split at h
    · split at h
      · simp at h
      · split at h
        · obtain rfl := Except.ok.inj h
          rfl
        · simp at h
    · split at h
      · obtain ⟨bytes, -, rfl⟩ := map_eq_ok_iff.mp h
        rfl
      · split at h <;> simp at h

variable {lines : List (List Char)} {p : List Char × Nat}

/-- The name on a line that is read is that of what it contributes. -/
theorem nameAt?_of_isOk (h : (readAt lines p).isOk = true) :
    nameAt? lines p = (itemAt lines p).bind (·.2.name?) := by
  obtain ⟨item, hitem, hyields⟩ := yields_of_isOk h
  rw [hitem, nameAt?]
  cases hyields with
  | silent hform => rw [hform]; rfl
  | directive hform hread =>
    rw [hform]
    exact autoIn?_of_readDirective hread
  | bare hform => rw [hform]; rfl
  | marked hform hne hspoken =>
    rw [hform]
    exact (if_neg (mt List.isEmpty_iff.mp hne)).trans (nameIn?_of_spoken hspoken)
  | unmarked hform hindented hrole hspoken =>
    rw [hform, hrole]
    exact nameIn?_of_spoken hspoken

/-! ### The version that is pinned -/

private theorem versionIn?_of_isOk (h : (readAt lines p).isOk = true) :
    (itemAt lines p).bind (fun entry ↦ (directive? entry).bind Directive.version?) =
      (form p.1).directive?.bind versionIn? := by
  obtain ⟨item, hitem, hyields⟩ := yields_of_isOk h
  rw [hitem]
  cases hyields with
  | silent hform => rw [hform]; rfl
  | @directive body d hform hread =>
    rw [hform]
    show d.version? = versionIn? body
    rw [versionIn?, hread]
    cases d <;> rfl
  | bare hform => rw [hform]; rfl
  | marked hform _ hspoken =>
    rw [hform]
    cases hspoken <;> rfl
  | unmarked hform _ _ hspoken =>
    rw [hform]
    cases hspoken <;> rfl

/-- A script asks for the last version in its directives. -/
theorem version?_eq (s : Script) :
    s.version? = (s.directives.filterMap Directive.version?).getLast? := by
  rw [← List.head?_reverse, ← List.filterMap_reverse, List.head?_filterMap]
  rfl

/-- The version that a script asks for is the one that its lines pin. -/
theorem version?_eq_pinned? (h : ∀ p ∈ numbered lines, (readAt lines p).isOk = true) :
    (ofItems ((numbered lines).filterMap (itemAt lines))).version? = pinned? lines := by
  have hlines : (numbered lines).map Prod.fst = lines := List.zipIdx_map_fst 1 lines
  rw [version?_eq, directives_ofItems, List.filterMap_filterMap, List.filterMap_filterMap, pinned?]
  conv_rhs => rw [← hlines, List.filterMap_map]
  congr 1
  exact List.filterMap_congr fun p hp ↦ versionIn?_of_isOk (h p hp)

/-! ### Scripts -/

/-- No name is unknown if each name of an item is known. -/
theorem unknownName?_eq_none_iff {version : Option Version} {items : Items} :
    unknownName? version items = none ↔ ∀ entry ∈ items, ∀ role name,
      entry.2.name? = some (role, name) → knows version role name = true := by
  rw [unknownName?, List.findSome?_eq_none_iff]
  apply forall₂_congr
  rintro ⟨line, item⟩ -
  dsimp only
  cases item.name? with
  | none => simp
  | some named =>
    obtain ⟨role, name⟩ := named
    dsimp only
    constructor
    · rintro h role' name' ⟨⟩
      split at h
      · assumption
      · simp at h
    · intro h
      rw [if_pos (h role name rfl)]

/-- A text is read as a script if and only if each of its lines is read at its place, and each name
in it is available in the version that it pins, or else in some version. -/
theorem exists_parse_iff {text : String} :
    let lines := Text.lines text.toList
    (∃ s, parse text = .ok s) ↔ (∀ p ∈ numbered lines, (readAt lines p).isOk = true) ∧
      ∀ p ∈ numbered lines, ∀ role name, nameAt? lines p = some (role, name) →
        Available (pinned? lines) role name := by
  intro lines
  have hnames (hall : ∀ p ∈ numbered lines, (readAt lines p).isOk = true) :
      unknownName? (pinned? lines) ((numbered lines).filterMap (itemAt lines)) = none ↔
        ∀ p ∈ numbered lines, ∀ role name, nameAt? lines p = some (role, name) →
          Available (pinned? lines) role name := by
    rw [unknownName?_eq_none_iff, List.forall_mem_filterMap]
    apply forall₂_congr
    intro p hp
    rw [nameAt?_of_isOk (hall p hp)]
    cases itemAt lines p with
    | none => simp
    | some entry => simp [knows_iff]
  constructor
  · rintro ⟨s, h⟩
    obtain ⟨items, hitems, rfl, hknown⟩ := parse_eq_ok_iff.mp h
    obtain ⟨hall, rfl⟩ := readLines_eq_ok_iff.mp hitems
    rw [version?_eq_pinned? hall] at hknown
    exact ⟨hall, (hnames hall).mp hknown⟩
  · rintro ⟨hall, havailable⟩
    have hknown := (hnames hall).mpr havailable
    rw [← version?_eq_pinned? hall] at hknown
    exact ⟨_, parse_eq_ok_iff.mpr ⟨_, readLines_eq_ok_iff.mpr ⟨hall, rfl⟩, rfl, hknown⟩⟩

variable {text : String} {s : Script}

/-- A script that is read asks for the version that its lines pin. -/
theorem version?_of_parse (h : parse text = .ok s) :
    s.version? = pinned? (Text.lines text.toList) := by
  obtain ⟨items, hitems, rfl, -⟩ := parse_eq_ok_iff.mp h
  obtain ⟨hall, rfl⟩ := readLines_eq_ok_iff.mp hitems
  exact version?_eq_pinned? hall

/-- The name of every message in a script that is read is available. -/
theorem available_of_parse (h : parse text = .ok s) {cue : Cue} (hcue : cue ∈ s.cues) {role : Role}
    {m : Message} (hm : cue.message? = some (role, m)) : Available s.version? role m.name := by
  obtain ⟨items, hitems, rfl, hknown⟩ := parse_eq_ok_iff.mp h
  rw [cues_ofItems, List.mem_filterMap] at hcue
  obtain ⟨⟨line, item⟩, hmem, hcue⟩ := hcue
  have hname : item.name? = some (role, m.name) := by
    cases item with
    | directive d => simp [cue?] at hcue
    | expect m' =>
      obtain rfl := Option.some.inj hcue
      obtain ⟨rfl, rfl⟩ := Prod.mk.inj (Option.some.inj hm)
      rfl
    | reply a =>
      obtain rfl := Option.some.inj hcue
      cases a with
      | send m' =>
        obtain ⟨rfl, rfl⟩ := Prod.mk.inj (Option.some.inj hm)
        rfl
      | _ => simp [Cue.message?] at hm
  exact knows_iff.mp (unknownName?_eq_none_iff.mp hknown _ hmem role m.name hname)

/-! ### The version that is spoken -/

variable {p : Handshake.Proposals} {v : Version}

/-- Whether the items of all lists and maps in a message are counted. -/
def Counted (m : Message) : Prop := ∀ field ∈ m.fields, ∀ w : Value, w.Occurs field → w.Counted

/-- What is available to the server has a tag in every version. -/
theorem tag_of_server {version : Option Version} {name : String}
    (h : Available version .server name) (v : Version) :
    (v.tag? .server name).isSome = true := by
  apply Catalogue.isSome_tag?_iff.mpr
  -- All versions have the same catalogue for the server.
  cases version with
  | some w => exact h
  | none =>
    obtain ⟨w, -, hname⟩ := h
    exact hname

/-- What is available in the version that is asked for has a tag in the one that is spoken. -/
theorem tag_of_pinned {version : Option Version} {role : Role} {name : String}
    (hpinned : version.isSome = true) (hn : Handshake.negotiate p version = .ok v)
    (h : Available version role name) : (v.tag? role name).isSome = true := by
  obtain ⟨w, rfl⟩ := Option.isSome_iff_exists.mp hpinned
  unfold Handshake.negotiate at hn
  dsimp only at hn
  split at hn
  · obtain rfl := Except.ok.inj hn
    exact Catalogue.isSome_tag?_iff.mpr h
  · simp at hn

/-- A message of the server in a script that is read can be sent unless it has too many fields. -/
theorem exists_payload_error_iff_of_parse (h : parse text = .ok s) {cue : Cue} (hcue : cue ∈ s.cues)
    {m : Message} (hm : cue.message? = some (.server, m)) (hcounted : Counted m) (v : Version) :
    (∃ e, m.payload v .server = .error e) ↔ 0xFFFF < m.fields.length := by
  have htag : v.tag? .server m.name ≠ none :=
    Option.isSome_iff_ne_none.mp (tag_of_server (available_of_parse h hcue hm) v)
  have hplain := plain_of_parse h hcue hm
  have hflat : ¬∃ field ∈ m.fields, ∃ w : Value, w.Occurs field ∧ w.Overfull := by
    rintro ⟨field, hfield, w, hw, hover⟩
    exact Value.not_overfull_of_occurs hw (hplain field hfield) hover
  rw [Message.exists_payload_error_iff hcounted, or_iff_right htag, or_iff_left hflat]

/-- An action in a script that is read has bytes unless it sends a message with too many fields. -/
theorem exists_bytesOf_error_iff (h : parse text = .ok s) (settings : Settings) {r : Reply}
    (hr : .perform r ∈ s.cues) (hcounted : ∀ m, r.action = .send m → Counted m) (v : Version) :
    (∃ e, Session.bytesOf settings v r.action = .error e) ↔
      ∃ m, r.action = .send m ∧ 0xFFFF < m.fields.length := by
  obtain ⟨line, action⟩ := r
  cases action with
  | send m =>
    have hsend : (∃ e, Session.bytesOf settings v (.send m) = .error e) ↔
        ∃ e, m.payload v .server = .error e := by
      simp only [Session.bytesOf, Frame.ofMessage]
      cases m.payload v .server <;> simp [Except.map]
    rw [hsend, exists_payload_error_iff_of_parse h hr rfl (hcounted m rfl) v]
    simp
  | _ => simp [Session.bytesOf]

/-- A text is a script exactly if its lines are read and the names in them are available. Whatever
version is spoken then has a tag for every message of the server, and if a version is pinned also
for every message of the client. All that can keep an action from having bytes is the number of
fields of the message that it sends. -/
theorem parse_names (text : String) :
    let lines := Text.lines text.toList
    ((∃ s, parse text = .ok s) ↔ (∀ p ∈ numbered lines, (readAt lines p).isOk = true) ∧
      ∀ p ∈ numbered lines, ∀ role name, nameAt? lines p = some (role, name) →
        Available (pinned? lines) role name) ∧
    ∀ s, parse text = .ok s → s.version? = pinned? lines ∧
      ∀ p v, Handshake.negotiate p s.version? = .ok v →
        (∀ cue ∈ s.cues, ∀ role m, cue.message? = some (role, m) →
          role = .server ∨ s.version?.isSome = true → (v.tag? role m.name).isSome = true) ∧
        ∀ settings r, .perform r ∈ s.cues → (∀ m, r.action = .send m → Counted m) →
          ((∃ e, Session.bytesOf settings v r.action = .error e) ↔
            ∃ m, r.action = .send m ∧ 0xFFFF < m.fields.length) := by
  intro lines
  refine ⟨exists_parse_iff, fun s h ↦ ⟨version?_of_parse h, fun p v hn ↦ ⟨?_, ?_⟩⟩⟩
  · intro cue hcue role m hm hside
    have havailable := available_of_parse h hcue hm
    rcases hside with rfl | hpinned
    · exact tag_of_server havailable v
    · exact tag_of_pinned hpinned hn havailable
  · intro settings r hr hcounted
    exact exists_bytesOf_error_iff h settings hr hcounted v

/-- The message of the server in a text that pins a version can be sent in it, and the name that the
client has to send has a tag in it. -/
theorem parse_names_annotated :
    parse annotatedText = .ok annotated ∧
      Handshake.negotiate ⟨4, 3, 2, 1⟩ annotated.version? = .ok ⟨1, 0⟩ ∧
      (Version.tag? ⟨1, 0⟩ .client "RESET").isSome = true ∧
      ¬∃ e, Session.bytesOf .default ⟨1, 0⟩ (.send ⟨"SUCCESS", []⟩) = .error e := by
  have hn : Handshake.negotiate ⟨4, 3, 2, 1⟩ annotated.version? = .ok ⟨1, 0⟩ := rfl
  obtain ⟨-, hscripts⟩ := parse_names annotatedText
  obtain ⟨-, hspoken⟩ := hscripts annotated parse_annotated
  obtain ⟨htags, hbytes⟩ := hspoken _ _ hn
  have hreset : Cue.hear ⟨3, ⟨"RESET", []⟩⟩ ∈ annotated.cues := .head _
  have hsuccess : Cue.perform ⟨5, .send ⟨"SUCCESS", []⟩⟩ ∈ annotated.cues := .tail _ (.head _)
  refine ⟨parse_annotated, hn, htags _ hreset .client _ rfl (.inr rfl), ?_⟩
  rw [hbytes .default ⟨5, .send ⟨"SUCCESS", []⟩⟩ hsuccess]
  · rintro ⟨m, hm, hover⟩
    obtain rfl := Action.send.inj hm
    simp at hover
  · intro m hm
    obtain rfl := Action.send.inj hm
    simp [Counted]

end Script

end ScriptedBolt
