import ScriptedBolt.Proofs.Literal.Readback
import ScriptedBolt.Proofs.Message.Names
import ScriptedBolt.Proofs.Script.Messages
import ScriptedBolt.Proofs.Script.Names

/-!
# Reading what logs show

Logs show a message as a script line spells it, behind the mark of the role that sends it. Such a
line is a script, and the one message in it is the message that was shown (`parse_text`). So are
the other actions of a server, but for those that take time or write no bytes.

What makes a line come through whole is that it shows at both ends and holds no line feed
(`Text.IsLine`): nothing is trimmed off, and it is not cut. Whatever else stands in the strings of a
message is between quotes, where the reader of literals finds it.
-/

namespace ScriptedBolt

/-! ### Lines -/

namespace Text

/-- Whether a text shows at both ends and holds no line feed. -/
structure IsLine (text : List Char) : Prop where
  starts : ∃ c more, text = c :: more ∧ isGraphic c = true
  ends : ∃ more c, text = more ++ [c] ∧ isGraphic c = true
  whole : '\n' ∉ text

namespace IsLine

variable {text : List Char}

/-- A word of characters that show is a line. -/
theorem of_isGraphic (hne : text ≠ []) (h : text.all isGraphic = true) : IsLine text where
  starts := by
    obtain ⟨c, more, rfl⟩ := List.exists_cons_of_ne_nil hne
    exact ⟨c, more, rfl, List.all_eq_true.mp h c List.mem_cons_self⟩
  ends := ⟨text.dropLast, text.getLast hne, (List.dropLast_concat_getLast hne).symm,
    List.all_eq_true.mp h _ (List.getLast_mem hne)⟩
  whole := fun hmem ↦ absurd (List.all_eq_true.mp h _ hmem) (by decide)

/-- Two lines with a blank between them are a line. -/
theorem append {more : List Char} (h : IsLine text) (hmore : IsLine more) :
    IsLine (text ++ ' ' :: more) where
  starts := by
    obtain ⟨c, rest, rfl, hc⟩ := h.starts
    exact ⟨c, rest ++ ' ' :: more, rfl, hc⟩
  ends := by
    obtain ⟨rest, c, rfl, hc⟩ := hmore.ends
    exact ⟨text ++ ' ' :: rest, c, by rw [List.append_assoc, List.cons_append], hc⟩
  whole := by
    intro hmem
    rcases List.mem_append.mp hmem with hmem | hmem
    · exact h.whole hmem
    · rcases List.mem_cons.mp hmem with heq | hmem
      · exact absurd heq (by decide)
      · exact hmore.whole hmem

/-- A line with more lines behind it, each after a blank, is a line. -/
theorem append_flatMap {α : Type} {line : α → List Char} {parts : List α} (h : IsLine text)
    (hparts : ∀ part ∈ parts, IsLine (line part)) :
    IsLine (text ++ parts.flatMap fun part ↦ ' ' :: line part) := by
  induction parts generalizing text with
  | nil =>
    rw [List.flatMap_nil, List.append_nil]
    exact h
  | cons part parts ih =>
    obtain ⟨hpart, hparts⟩ := List.forall_mem_cons.mp hparts
    have hmore := ih (h.append hpart) hparts
    rw [List.append_assoc] at hmore
    exact hmore

/-- Nothing of a line is trimmed. -/
theorem trim_eq (h : IsLine text) : trim text = text := by
  obtain ⟨c, more, hstart, hc⟩ := h.starts
  obtain ⟨rest, d, hend, hd⟩ := h.ends
  exact trim_eq_self hstart (isBlank_of_isGraphic hc) hend (isBlank_of_isGraphic hd)

/-- A line is not cut. -/
theorem lines_eq (h : IsLine text) : lines text = [text] := by
  obtain ⟨c, more, hstart, -⟩ := h.starts
  refine lines_of_not_mem ?_ h.whole
  rw [hstart]
  exact List.cons_ne_nil c more

end IsLine

/-- A word of visible characters is split off what a blank cuts it from. -/
theorem splitWord_graphic {word rest : List Char} (hne : word ≠ [])
    (h : word.all isGraphic = true) (hrest : rest.head?.all isBlank = true) :
    splitWord (word ++ rest) = (word, trimStart rest) :=
  splitWord_append hne (fun c hc ↦ isBlank_of_isGraphic (List.all_eq_true.mp h c hc)) hrest

/-- A word is split off what stands behind it after blanks. -/
theorem splitWord_word {α : Type} {line : α → List Char} {word : List Char} (hne : word ≠ [])
    (h : word.all isGraphic = true) (parts : List α) :
    splitWord (word ++ parts.flatMap fun part ↦ ' ' :: line part) =
      (word, trimStart (parts.flatMap fun part ↦ ' ' :: line part)) := by
  apply splitWord_graphic hne h
  cases parts with
  | nil => rfl
  | cons part parts => rfl

end Text

/-- The spelling of a value is a line. -/
theorem Value.isLine_spelling {v : Value} (h : v.Legible) : Text.IsLine v.spelling where
  starts := by
    obtain ⟨c, more, hspelling, hc, -⟩ := exists_spelling_eq_cons h
    exact ⟨c, more, hspelling, hc⟩
  ends := exists_spelling_eq_append h
  whole := fun hmem ↦ absurd (le_of_mem_spelling v h hmem) (by decide)

/-! ### Names -/

/-- A character of a name shows. -/
theorem Script.isGraphic_of_isNameChar {c : Char} (h : isNameChar c = true) :
    Text.isGraphic c = true := by
  rw [isNameChar, Bool.or_eq_true, beq_iff_eq] at h
  rcases h with h | rfl
  · have hbounds : 65 ≤ c.toNat ∧ c.toNat ≤ 90 := of_decide_eq_true h
    simp only [Text.isGraphic, Bool.and_eq_true, decide_eq_true_eq]
    omega
  · rfl

namespace IsName

variable {name : String}

/-- All characters of a name show. -/
theorem all_isGraphic (h : IsName name) : name.toList.all Text.isGraphic = true :=
  List.all_eq_true.mpr fun c hc ↦
    Script.isGraphic_of_isNameChar (List.all_eq_true.mp h.2 c hc)

/-- A name is a line. -/
theorem isLine (h : IsName name) : Text.IsLine name.toList := .of_isGraphic h.1 h.all_isGraphic

/-- A name is no command. -/
theorem not_isCommand (h : IsName name) : Script.isCommand name.toList = false := by
  obtain ⟨c, more, hname⟩ := List.exists_cons_of_ne_nil h.1
  have hc : Script.isNameChar c = true :=
    List.all_eq_true.mp h.2 c (hname ▸ List.mem_cons_self)
  rw [hname]
  show (some c == some '<') = false
  rw [beq_eq_false_iff_ne]
  rintro ⟨⟩
  exact absurd hc (by decide)

/-- A body of the client that starts with a name is a message. -/
theorem readClient_eq {body rest : List Char} (h : IsName name)
    (hword : Text.splitWord body = (name.toList, rest)) :
    Script.readClient body = Script.readMessage name.toList rest := by
  rw [Script.readClient, hword]
  dsimp only
  rw [h.not_isCommand, if_neg Bool.false_ne_true]

/-- A body of the server that starts with a name is a message, too. -/
theorem readServer_eq {body rest : List Char} (h : IsName name)
    (hword : Text.splitWord body = (name.toList, rest)) :
    Script.readServer body = (Script.readMessage name.toList rest).map .send := by
  have hne {word : List Char} (hcommand : Script.isCommand word = true) :
      name.toList ≠ word := by
    rintro rfl
    rw [h.not_isCommand] at hcommand
    exact Bool.noConfusion hcommand
  rw [Script.readServer, hword]
  dsimp only
  rw [if_neg (hne rfl), if_neg (hne rfl), if_neg (hne rfl), if_neg (hne rfl), h.not_isCommand,
    if_neg Bool.false_ne_true]

end IsName

/-! ### Messages -/

/-- Whether a message is read back from a line of a role: it has a name of that role, and fields
that are read back from their spellings. -/
structure Message.Legible (role : Role) (m : Message) : Prop where
  known : role.knows m.name = true
  legible : ∀ field ∈ m.fields, field.Legible
  shallow : ∀ field ∈ m.fields, field.nesting ≤ Literal.maxNesting

namespace Message.Legible

variable {role : Role} {m : Message}

/-- It has a name. -/
theorem isName (h : m.Legible role) : IsName m.name := Role.isName_of_knows h.known

/-- Its text is a line. -/
theorem isLine_text (h : m.Legible role) : Text.IsLine m.text.toList := by
  rw [toList_text]
  exact h.isName.isLine.append_flatMap fun field hm ↦ Value.isLine_spelling (h.legible field hm)

/-- Its name is split off its text. -/
theorem splitWord_text (h : m.Legible role) : Text.splitWord m.text.toList =
    (m.name.toList, Text.trimStart (m.fields.flatMap fun field ↦ ' ' :: field.spelling)) := by
  rw [toList_text]
  exact Text.splitWord_word h.isName.1 h.isName.all_isGraphic _

/-- It is read from its name and the spellings of its fields. -/
theorem readMessage_eq (h : m.Legible role) : Script.readMessage m.name.toList
    (Text.trimStart (m.fields.flatMap fun field ↦ ' ' :: field.spelling)) = .ok m := by
  rw [Script.readMessage, h.isName.2, Literal.values_fields h.legible h.shallow,
    String.ofList_toList]
  rfl

/-- It is read from a line of the client. -/
theorem readClient_text (h : m.Legible role) : Script.readClient m.text.toList = .ok m := by
  rw [h.isName.readClient_eq h.splitWord_text, h.readMessage_eq]

/-- It is sent in a line of the server. -/
theorem readServer_text (h : m.Legible role) :
    Script.readServer m.text.toList = .ok (.send m) := by
  rw [h.isName.readServer_eq h.splitWord_text, h.readMessage_eq]
  rfl

end Message.Legible

/-! ### Bytes -/

namespace Text

/-- Each hexadecimal digit shows and stands for its number. -/
private theorem upperHexDigit_spec : ∀ n < 16, isGraphic (upperHexDigit n) = true ∧
    hexDigit? (upperHexDigit n) = some n ∧ upperHexDigit n ≠ '+' := by
  decide

/-- The two digits of a byte stand for it. -/
private theorem hexByte?_upperHexDigit (b : UInt8) :
    hexByte? (upperHexDigit (b.toNat / 16)) (upperHexDigit (b.toNat % 16)) = some b := by
  have hlt := b.toNat_lt
  obtain ⟨-, hhigh, hplus⟩ := upperHexDigit_spec (b.toNat / 16) (by omega)
  obtain ⟨-, hlow, -⟩ := upperHexDigit_spec (b.toNat % 16) (by omega)
  have hsum : 16 * (b.toNat / 16) + b.toNat % 16 = b.toNat := Nat.div_add_mod ..
  simp only [hexByte?, hlow, hhigh, hplus, if_false]
  show some (UInt8.ofNat (16 * (b.toNat / 16) + b.toNat % 16)) = some b
  rw [hsum, UInt8.ofNat_toNat]

/-- The digits of a byte show. -/
theorem all_isGraphic_upperHex (b : UInt8) : (upperHex b).toList.all isGraphic = true := by
  have hlt := b.toNat_lt
  have hhigh := (upperHexDigit_spec (b.toNat / 16) (by omega)).1
  have hlow := (upperHexDigit_spec (b.toNat % 16) (by omega)).1
  rw [upperHex, String.toList_ofList, List.all_cons, List.all_cons, hhigh, hlow]
  rfl

/-- Without the blanks before them, only the digits of bytes are left. -/
theorem filter_flatMap_upperHex (bytes : Bytes) :
    (bytes.flatMap fun b ↦ ' ' :: (upperHex b).toList).filter (!isBlank ·) =
      bytes.flatMap fun b ↦ (upperHex b).toList := by
  have hpair (b : UInt8) : (' ' :: (upperHex b).toList).filter (!isBlank ·) =
      (upperHex b).toList := by
    rw [List.filter_cons_of_neg (by decide), List.filter_eq_self]
    intro c hc
    rw [isBlank_of_isGraphic (List.all_eq_true.mp (all_isGraphic_upperHex b) c hc)]
    rfl
  rw [List.filter_flatMap]
  simp only [hpair]

/-- A dump of bytes, behind a blank, is the digits of each byte behind a blank. -/
theorem toList_hexDump {bytes : Bytes} (hne : bytes ≠ []) :
    ' ' :: (hexDump bytes).toList = bytes.flatMap fun b ↦ ' ' :: (upperHex b).toList := by
  induction bytes with
  | nil => exact absurd rfl hne
  | cons b bytes ih =>
    cases bytes with
    | nil =>
      rw [hexDump, List.map_singleton, String.intercalate_singleton]
      exact (List.append_nil _).symm
    | cons next bytes =>
      have hdump : hexDump (b :: next :: bytes) = upperHex b ++ " " ++ hexDump (next :: bytes) :=
        String.intercalate_cons_cons
      rw [hdump, List.flatMap_cons, ← ih (List.cons_ne_nil next bytes), String.toList_append,
        String.toList_append, List.append_assoc]
      rfl

end Text

namespace Script

/-- The digits of bytes are read as these bytes. -/
theorem hexPairs_flatMap (bytes : Bytes) :
    hexPairs (bytes.flatMap fun b ↦ (Text.upperHex b).toList) = .ok bytes := by
  induction bytes with
  | nil => rfl
  | cons b bytes ih =>
    rw [List.flatMap_cons, Text.upperHex, String.toList_ofList, List.cons_append, List.cons_append,
      List.nil_append, hexPairs, Text.hexByte?_upperHexDigit]
    dsimp only
    rw [ih]
    rfl

/-- Bytes are read from their digits, wherever blanks stand between them. -/
theorem readHex_of_filter {bytes : Bytes} {text : List Char} (hne : bytes ≠ [])
    (h : text.filter (!Text.isBlank ·) = bytes.flatMap fun b ↦ (Text.upperHex b).toList) :
    readHex text = .ok bytes := by
  have hlength : (bytes.flatMap fun b ↦ (Text.upperHex b).toList).length = 2 * bytes.length := by
    clear h hne
    induction bytes with
    | nil => rfl
    | cons b bytes ih =>
      rw [List.flatMap_cons, List.length_append, ih, List.length_cons, Text.upperHex,
        String.toList_ofList]
      show 2 + 2 * bytes.length = 2 * (bytes.length + 1)
      omega
  have hpos : 0 < bytes.length := List.length_pos_iff.mpr hne
  have hsome : (bytes.flatMap fun b ↦ (Text.upperHex b).toList).isEmpty = false := by
    rw [List.isEmpty_eq_false_iff, ← List.length_pos_iff, hlength]
    omega
  have heven : (2 * bytes.length % 2 == 1) = false := by
    rw [beq_eq_false_iff_ne]
    omega
  rw [readHex, h, hsome, hlength, heven]
  exact hexPairs_flatMap bytes

/-- Bytes are spelled byte by byte behind their command. -/
theorem toList_raw {bytes : Bytes} (hne : bytes ≠ []) : (Action.raw bytes).text.toList =
    "<RAW>".toList ++ bytes.flatMap fun b ↦ ' ' :: (Text.upperHex b).toList := by
  rw [← Text.toList_hexDump hne]
  show ("<RAW> " ++ Text.hexDump bytes).toList = _
  rw [String.toList_append]
  rfl

/-- The line of bytes is read as these bytes. -/
theorem readServer_raw {bytes : Bytes} (hne : bytes ≠ []) :
    readServer (Action.raw bytes).text.toList = .ok (.raw bytes) := by
  have hword : Text.splitWord (Action.raw bytes).text.toList = ("<RAW>".toList,
      Text.trimStart (bytes.flatMap fun b ↦ ' ' :: (Text.upperHex b).toList)) := by
    rw [toList_raw hne]
    exact Text.splitWord_word (by decide) (by decide) _
  have hdigits : (Text.trimStart (bytes.flatMap fun b ↦ ' ' :: (Text.upperHex b).toList)).filter
      (!Text.isBlank ·) = bytes.flatMap fun b ↦ (Text.upperHex b).toList := by
    rw [Text.filter_trimStart, Text.filter_flatMap_upperHex]
  rw [readServer, hword]
  dsimp only
  rw [if_neg (by decide), if_neg (by decide), if_pos rfl, readHex_of_filter hne hdigits]
  rfl

/-! ### Scripts of one line -/

/-- The mark of a role is a line. -/
theorem isLine_mark (role : Role) : Text.IsLine role.mark.toList := by
  cases role with
  | client => exact .of_isGraphic (by decide) (by decide)
  | server => exact .of_isGraphic (by decide) (by decide)

/-- What a role does in a body is read from it. -/
theorem readBody_of_spoken {role : Role} {body : List Char} {item : Item} (hne : body ≠ [])
    (h : Spoken role body item) : readBody role body = .ok (some role, some item) := by
  have hsome : ¬body.isEmpty = true := mt List.isEmpty_iff.mp hne
  cases h with
  | expect hread =>
    rw [readBody, if_neg hsome, hread]
    rfl
  | reply hread =>
    rw [readBody, if_neg hsome, hread]
    rfl

/-- A line behind the mark of a role is a script with what the role does in that line. -/
theorem parse_mark {role : Role} {body : String} {item : Item} (h : Text.IsLine body.toList)
    (hspoken : Spoken role body.toList item)
    (hknown : ∀ role name, item.name? = some (role, name) → role.knows name = true) :
    parse (role.mark ++ " " ++ body) = .ok (ofItems [(1, item)]) := by
  have htext : (role.mark ++ " " ++ body).toList = role.mark.toList ++ ' ' :: body.toList := by
    rw [String.toList_append, String.toList_append, List.append_assoc]
    rfl
  have hne : body.toList ≠ [] := by
    obtain ⟨c, more, hbody, -⟩ := h.starts
    rw [hbody]
    exact List.cons_ne_nil c more
  have hline : readLine none (role.mark.toList ++ ' ' :: body.toList) =
      .ok (some role, some item) := by
    rw [readLine_eq, form_mark role hne h.trim_eq]
    exact readBody_of_spoken hne hspoken
  have hversion : (ofItems [(1, item)]).version? = none := by
    cases hspoken with
    | expect _ => rfl
    | reply _ => rfl
  apply parse_eq_ok_iff.mpr
  refine ⟨[(1, item)], ?_, rfl, ?_⟩
  · rw [htext, ((isLine_mark role).append h).lines_eq, readLines, hline]
    rfl
  · rw [hversion]
    apply unknownName?_eq_none_iff.mpr
    intro entry hentry
    rw [List.mem_singleton.mp hentry]
    exact hknown

end Script

/-! ### Actions -/

/-- Whether an action is read back from its line: it sends such a message, or at least one byte as
it is, or it is a command that stands alone. -/
def Action.Legible : Action → Prop
  | send m => m.Legible .server
  | raw bytes => bytes ≠ []
  | exit | keepAlive => True
  | sleep _ => False

namespace Action.Legible

variable {a : Action}

/-- Its text is a line. -/
theorem isLine_text (h : a.Legible) : Text.IsLine a.text.toList := by
  cases a with
  | send m => exact Message.Legible.isLine_text h
  | exit => exact .of_isGraphic (by decide) (by decide)
  | keepAlive => exact .of_isGraphic (by decide) (by decide)
  | sleep d => exact h.elim
  | raw bytes =>
    have hcommand : Text.IsLine "<RAW>".toList := .of_isGraphic (by decide) (by decide)
    rw [Script.toList_raw h]
    refine hcommand.append_flatMap fun b _ ↦ .of_isGraphic ?_ (Text.all_isGraphic_upperHex b)
    rw [Text.upperHex, String.toList_ofList]
    simp

/-- It is read from a line of the server. -/
theorem readServer_text (h : a.Legible) : Script.readServer a.text.toList = .ok a := by
  cases a with
  | send m => exact Message.Legible.readServer_text h
  | exit => rfl
  | keepAlive => rfl
  | sleep d => exact h.elim
  | raw bytes => exact Script.readServer_raw h

/-- What it sends, if it is a message, has a name of the server. -/
theorem knows_name (h : a.Legible) {role : Role} {name : String}
    (hname : (Script.Item.reply a).name? = some (role, name)) : role.knows name = true := by
  cases a with
  | send m =>
    obtain ⟨rfl, rfl⟩ := Prod.mk.inj (Option.some.inj hname)
    exact h.known
  | exit => cases hname
  | keepAlive => cases hname
  | sleep d => cases hname
  | raw bytes => cases hname

end Action.Legible

namespace Script

/-- The text of a message, behind the mark of the client, is a script of one line, in which that
message is expected; and the text of an action, behind the mark of the server, is a script of one
line, in which that action is performed. What is asked of a message is that its name be one that the
role can send in some version, and that there be no floats, no structures and no more than 127 lists
and maps inside of each other in its fields, nor an object that is read as something else than a
map. -/
theorem parse_text :
    (∀ m : Message, m.Legible .client →
      parse (Role.client.mark ++ " " ++ m.text) = .ok ⟨[.client [⟨1, m⟩]], []⟩) ∧
    (∀ a : Action, a.Legible →
      parse (Role.server.mark ++ " " ++ a.text) = .ok ⟨[.server [⟨1, a⟩]], []⟩) := by
  constructor
  · intro m h
    refine parse_mark h.isLine_text (.expect h.readClient_text) ?_
    rintro role name ⟨⟩
    exact h.known
  · intro a h
    exact parse_mark h.isLine_text (.reply h.readServer_text) fun _ _ ↦ h.knows_name

/-- A message whose string holds what ends strings and lines, blanks and what looks like a comment,
and whose other fields lie in each other. -/
def knotted : Message :=
  ⟨"RUN", [.string " \"//\\\n\x01\u2028 ", .integer (-42),
    .list [.list [], .map [("", .null), ("k", .boolean true)]]]⟩

/-- It has a name of the client, and fields that are read back. -/
theorem legible_knotted : knotted.Legible .client where
  known := by decide
  legible := by
    show ∀ field ∈ [_, _, _], Value.Legible field
    simp only [List.forall_mem_cons]
    refine ⟨trivial, trivial, ⟨trivial, ⟨?_, ?_, trivial, trivial, trivial⟩, trivial⟩, nofun⟩
    · decide
    · decide
  shallow := by decide

/-- It is read back from its line, and so are two bytes from theirs. -/
theorem parse_text_knotted : knotted.Legible .client ∧ (Action.raw [0x00, 0xFE]).Legible ∧
    parse "C: RUN \" \\\"//\\\\\\n\\u0001\u2028 \" -42 [[],\x7b\"\":null,\"k\":true\x7d]" =
      .ok ⟨[.client [⟨1, knotted⟩]], []⟩ ∧
    parse "S: <RAW> 00 FE" = .ok ⟨[.server [⟨1, .raw [0x00, 0xFE]⟩]], []⟩ := by
  have hraw : (Action.raw [0x00, 0xFE]).Legible := List.cons_ne_nil _ _
  have hline : Role.client.mark ++ " " ++ knotted.text =
      "C: RUN \" \\\"//\\\\\\n\\u0001\u2028 \" -42 [[],\x7b\"\":null,\"k\":true\x7d]" := by
    apply String.toList_inj.mp
    rw [String.toList_append, Message.toList_text]
    rfl
  refine ⟨legible_knotted, hraw, ?_, parse_text.2 _ hraw⟩
  rw [← hline]
  exact parse_text.1 knotted legible_knotted

end Script

end ScriptedBolt
