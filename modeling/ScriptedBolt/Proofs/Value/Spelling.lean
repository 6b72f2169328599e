import ScriptedBolt.Message

/-!
# Spellings

The text of a value, character by character and without the text that it is written after. What is
written for a value is its spelling (`toList_write`), and what is written for a message is its name
and the spellings of its fields, each after a blank (`Message.toList_text`).
-/

namespace ScriptedBolt

namespace Text

/-- Whether a character is one of ASCII that shows. -/
def isGraphic (c : Char) : Bool := 0x20 < c.toNat && c.toNat < 0x7F

/-- A character that shows is no blank. -/
theorem isBlank_of_isGraphic {c : Char} (h : isGraphic c = true) : isBlank c = false := by
  simp only [isGraphic, Bool.and_eq_true, decide_eq_true_eq] at h
  simp only [isBlank, Bool.or_eq_false_iff, Bool.and_eq_false_iff, decide_eq_false_iff_not,
    beq_eq_false_iff_ne]
  omega

/-- A digit shows. -/
theorem isGraphic_of_isDigit {c : Char} (h : c.isDigit = true) : isGraphic c = true := by
  simp only [Char.isDigit, Bool.and_eq_true, decide_eq_true_eq, ge_iff_le,
    UInt32.le_iff_toNat_le] at h
  change 48 ≤ c.toNat ∧ c.toNat ≤ 57 at h
  simp only [isGraphic, Bool.and_eq_true, decide_eq_true_eq]
  omega

end Text

namespace Value

/-- The spelling of an integer. -/
def spellInteger (i : Int) : List Char :=
  (if i < 0 then ['-'] else []) ++ Nat.toDigits 10 i.natAbs

/-- The spelling of a string. -/
def spellString (text : String) : List Char := '"' :: (text.toList.flatMap jsonEscape ++ ['"'])

/-- The spelling of a float. -/
def spellFloat (x : Binary64) : List Char := (x.literal?.getD "null").toList

/-- What stands before the fields of a structure. -/
def textOfTag (tag : UInt8) : String := "\x7b\"tag\":" ++ toString tag.toNat ++ ",\"fields\":["

/-- The comma that separates an item from the one before it. -/
def separator (comma : Bool) : List Char := if comma then [','] else []

mutual

/-- The spelling of a value. -/
def spelling : Value → List Char
  | null => ['n', 'u', 'l', 'l']
  | boolean b => if b then ['t', 'r', 'u', 'e'] else ['f', 'a', 'l', 's', 'e']
  | integer i => spellInteger i.toInt
  | float x => spellFloat x
  | string text => spellString text
  | list items => '[' :: (spellingOfItems false items ++ [']'])
  | map entries => '\x7b' :: (spellingOfEntries false entries ++ ['\x7d'])
  | struct tag fields => (textOfTag tag).toList ++ (spellingOfItems false fields ++ [']', '\x7d'])

/-- The spelling of items, with a comma before each but the first; `comma` says whether one stands
before the next. -/
def spellingOfItems (comma : Bool) : List Value → List Char
  | [] => []
  | item :: items => separator comma ++ item.spelling ++ spellingOfItems true items

/-- The spelling of entries, with commas like those of items. -/
def spellingOfEntries (comma : Bool) : List (String × Value) → List Char
  | [] => []
  | (key, value) :: entries =>
    separator comma ++ spellString key ++ ':' :: (value.spelling ++ spellingOfEntries true entries)

end

/-- Characters that are pushed come after the text. -/
private theorem toList_foldl_push (out : String) (cs : List Char) :
    (cs.foldl String.push out).toList = out.toList ++ cs := by
  induction cs generalizing out with
  | nil => exact (List.append_nil _).symm
  | cons c cs ih => rw [List.foldl_cons, ih, String.toList_push, List.append_assoc]; rfl

/-- A string is written as it is spelled. -/
theorem toList_writeString (out text : String) :
    (writeString out text).toList = out.toList ++ spellString text := by
  have chars (cs : List Char) (out : String) :
      (cs.foldl (fun out c ↦ (jsonEscape c).foldl String.push out) out).toList =
        out.toList ++ cs.flatMap jsonEscape := by
    induction cs generalizing out with
    | nil => exact (List.append_nil _).symm
    | cons c cs ih =>
      rw [List.foldl_cons, ih, toList_foldl_push, List.flatMap_cons, List.append_assoc]
  rw [writeString, String.foldl_eq_foldl_toList, String.toList_push, chars, String.toList_push,
    spellString]
  simp only [List.append_assoc, List.cons_append, List.nil_append]

/-- An integer is written as it is spelled. -/
theorem toList_toString (i : Int) : (toString i).toList = spellInteger i := by
  cases i with
  | ofNat n => exact Nat.toList_repr
  | negSucc n =>
    have hneg : Int.negSucc n < 0 := Int.negSucc_lt_zero n
    rw [spellInteger, if_pos hneg]
    show ("-" ++ Nat.repr (n + 1)).toList = _
    rw [String.toList_append, Nat.toList_repr]
    rfl

/-- A comma is written as a separator. -/
private theorem toList_comma (out : String) (comma : Bool) :
    (if comma then out.push ',' else out).toList = out.toList ++ separator comma := by
  cases comma with
  | true => exact String.toList_push ','
  | false => exact (List.append_nil _).symm

mutual

/-- A value is written as it is spelled. -/
theorem toList_write (out : String) :
    (v : Value) → (write out v).toList = out.toList ++ v.spelling
  | null => by
    rw [write, String.toList_append, spelling]
    rfl
  | boolean b => by
    rw [write, String.toList_append, spelling]
    cases b
    · rfl
    · rfl
  | integer i => by rw [write, String.toList_append, toList_toString, spelling]
  | float x => by rw [write, String.toList_append, spelling, spellFloat]
  | string text => toList_writeString out text
  | list items => by
    rw [write, String.toList_push, toList_writeItems, String.toList_push, spelling]
    simp only [List.append_assoc, List.cons_append, List.nil_append]
  | map entries => by
    rw [write, String.toList_push, toList_writeEntries, String.toList_push, spelling]
    simp only [List.append_assoc, List.cons_append, List.nil_append]
  | struct tag fields => by
    have hend : "]\x7d".toList = [']', '\x7d'] := rfl
    rw [write, String.toList_append, toList_writeItems, spelling, textOfTag, hend]
    simp only [String.toList_append, List.append_assoc]

/-- Items are written as they are spelled. -/
theorem toList_writeItems (out : String) (comma : Bool) :
    (items : List Value) → (writeItems out comma items).toList =
      out.toList ++ spellingOfItems comma items
  | [] => (List.append_nil _).symm
  | item :: items => by
    rw [writeItems, toList_writeItems, toList_write, toList_comma, spellingOfItems]
    simp only [List.append_assoc]

/-- Entries are written as they are spelled. -/
theorem toList_writeEntries (out : String) (comma : Bool) :
    (entries : List (String × Value)) → (writeEntries out comma entries).toList =
      out.toList ++ spellingOfEntries comma entries
  | [] => (List.append_nil _).symm
  | (key, value) :: entries => by
    rw [writeEntries, toList_writeEntries, toList_write, String.toList_push, toList_writeString,
      toList_comma, spellingOfEntries]
    simp only [List.append_assoc, List.cons_append, List.nil_append]

end

end Value

/-- A message is written as its name and the spellings of its fields, each after a blank. -/
theorem Message.toList_text (m : Message) :
    m.text.toList = m.name.toList ++ m.fields.flatMap fun field ↦ ' ' :: field.spelling := by
  have fields (fields : List Value) (out : String) :
      (fields.foldl (fun out field ↦ field.write (out.push ' ')) out).toList =
        out.toList ++ fields.flatMap fun field ↦ ' ' :: field.spelling := by
    induction fields generalizing out with
    | nil => exact (List.append_nil _).symm
    | cons field fields ih =>
      rw [List.foldl_cons, ih, Value.toList_write, String.toList_push, List.flatMap_cons]
      simp only [List.append_assoc, List.cons_append, List.nil_append]
  exact fields m.fields m.name

end ScriptedBolt
