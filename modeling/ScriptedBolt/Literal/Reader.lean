import ScriptedBolt.Literal
import ScriptedBolt.Text.Blank
import ScriptedBolt.Text.Quoted

/-!
# Reading field literals

Literals are JSON texts. A reader takes one from the front of a text and gives the rest, or the
place where it stopped. A place is told by the number of bytes of the text after it, in UTF-8,
so that it is a column once the size of the whole text is known. A list or an object may lie
inside of at most 126 others.

An object whose first key is `numeralKey` is not an object but a number: the key stands alone,
and its value is a string that spells the number.
-/

namespace ScriptedBolt.Literal

/-- What a literal is, as errors name it. -/
inductive Kind where
  | null
  | boolean (b : Bool)
  /-- An integer without a sign below `2 ^ 64`, or one with a sign from `-2 ^ 63` on. -/
  | integer (i : Int)
  /-- Any other number. -/
  | number
  | string (text : String)
  | list
  | object
  deriving DecidableEq, Repr

/-- The kind in words. -/
def Kind.text : Kind → String
  | null => "null"
  | boolean b => s!"boolean \x60{b}\x60"
  | integer i => s!"integer \x60{i}\x60"
  | number => "number"
  | string text => s!"string {Text.quoted text.toList}"
  | list => "sequence"
  | object => "map"

/-- Why a text is no literal. -/
inductive Cause where
  | endInValue
  | endInString
  | endInList
  | endInObject
  | expectedValue
  | expectedIdent
  | invalidNumber
  /-- A sign or the mark of an exponent has no digit after it; what stands there is read. -/
  | missingDigit
  | trailingComma
  | trailingCharacters
  | expectedListEnd
  | expectedObjectEnd
  | expectedColon
  | keyNotString
  | invalidEscape
  | loneSurrogate
  | brokenPair
  | controlCharacter
  | tooDeep
  /-- Something else stands where a string has to spell a number. -/
  | notString (found : Kind)
  /-- A string does not spell a number, for a cause at a place in the string. -/
  | inString (cause : Cause) (line column : Nat)
  deriving DecidableEq, Repr

/-- The cause in words. -/
def Cause.message : Cause → String
  | endInValue => "EOF while parsing a value"
  | endInString => "EOF while parsing a string"
  | endInList => "EOF while parsing a list"
  | endInObject => "EOF while parsing an object"
  | expectedValue => "expected value"
  | expectedIdent => "expected ident"
  | invalidNumber | missingDigit => "invalid number"
  | trailingComma => "trailing comma"
  | trailingCharacters => "trailing characters"
  | expectedListEnd => "expected \x60,\x60 or \x60]\x60"
  | expectedObjectEnd => "expected \x60,\x60 or \x60\x7d\x60"
  | expectedColon => "expected \x60:\x60"
  | keyNotString => "key must be a string"
  | invalidEscape => "invalid escape"
  | loneSurrogate => "lone leading surrogate in hex escape"
  | brokenPair => "unexpected end of hex escape"
  | controlCharacter => "control character (\\u0000-\\u001F) found while parsing a string"
  | tooDeep => "recursion limit exceeded"
  | notString found => s!"invalid type: {found.text}, expected string containing a number"
  | inString cause _ _ => cause.message

/-- Where and why reading stopped. -/
structure Stop where
  cause : Cause
  /-- The number of bytes after the place. -/
  left : Nat
  deriving DecidableEq, Repr

/-- The number of bytes of a text in UTF-8. -/
def utf8Size (text : List Char) : Nat := text.foldl (fun n c ↦ n + c.utf8Size) 0

/-- The line and the column, both in bytes, of the place in a text with `left` bytes after it. -/
def placeIn (text : List Char) (left : Nat) : Nat × Nat :=
  let read := utf8Size text - left
  let (_, line, start) := text.foldl (fun (size, line, start) c ↦
    let size := size + c.utf8Size
    if c = '\n' ∧ size ≤ read then (size, line + 1, size) else (size, line, start)) (0, 1, 0)
  (line, read - start)

/-- The key of an object that stands for a number. -/
def numeralKey : String := "$serde_json::private::Number"

/-- What a literal is. -/
def kind : Literal → Kind
  | null => .null
  | boolean b => .boolean b
  | number n =>
    let i := n.integer
    let fits := if n.negative then -0x8000000000000000 ≤ i else i < 0x10000000000000000
    if n.isInteger && fits then .integer i else .number
  | string text => .string text
  | list _ => .list
  | object _ => .object

/-- Stops before a text. -/
def Stop.before (cause : Cause) (text : List Char) : Stop := ⟨cause, utf8Size text⟩

/-- Stops after the first byte of a text, or at its end if it is empty. -/
def Stop.within (cause : Cause) (text : List Char) : Stop := ⟨cause, utf8Size text - 1⟩

/-- What a reader makes of a text: something read with the rest of the text, or a stop. -/
abbrev Reader (α : Type) := List Char → Except Stop (α × List Char)

/-- The blanks between the parts of a literal. -/
def isSpace (c : Char) : Bool := c == ' ' || c == '\t' || c == '\n' || c == '\r'

/-- A text without the blanks at its start. -/
def skipSpace (text : List Char) : List Char := text.dropWhile isSpace

namespace Reader

/-- Reads the rest of a word whose first character is read, and gives `literal` for it. -/
def word (literal : Literal) : (expected : List Char) → Reader Literal
  | [], text => .ok (literal, text)
  | _ :: _, [] => .error ⟨.endInValue, 0⟩
  | c :: expected, d :: text =>
    if c = d then word literal expected text
    else .error (.within .expectedIdent (d :: text))

/-- Reads one or more digits; for what stands in their place there is the cause `missing`. -/
private def digits (missing : Cause) (text : List Char) :
    Except Stop (List Char × List Char) :=
  match text with
  | [] => .error ⟨.endInValue, 0⟩
  | c :: _ =>
    if c.isDigit then .ok (text.takeWhile Char.isDigit, text.dropWhile Char.isDigit)
    else .error (.within missing text)

/-- Reads an exponent if one is there. -/
private def exponent (text : List Char) : Except Stop (Option (Bool × List Char) × List Char) :=
  match text with
  | e :: rest =>
    if e = 'e' ∨ e = 'E' then
      let (negative, rest) : Bool × List Char :=
        match rest with
        | '-' :: rest => (true, rest)
        | '+' :: rest => (false, rest)
        | rest => (false, rest)
      match digits .missingDigit rest with
      | .ok (ds, rest) => .ok (some (negative, ds), rest)
      | .error stop => .error stop
    else .ok (none, text)
  | [] => .ok (none, text)

/-- Reads a number whose sign is read. No digit may follow a zero at the start. -/
def number (negative : Bool) : Reader Numeral := fun text ↦
  match digits .missingDigit text with
  | .error stop => .error stop
  | .ok (all, rest) =>
    if text.head? = some '0' ∧ 1 < all.length then
      .error (.within .invalidNumber (text.drop 1))
    else
      match rest with
      | '.' :: rest =>
        match digits .invalidNumber rest with
        | .error stop => .error stop
        | .ok (fraction, rest) =>
          match exponent rest with
          | .error stop => .error stop
          | .ok (e, rest) => .ok (⟨negative, all, some fraction, e⟩, rest)
      | rest =>
        match exponent rest with
        | .error stop => .error stop
        | .ok (e, rest) => .ok (⟨negative, all, none, e⟩, rest)

/-- Reads the number that a whole text spells. Nothing may be left of the text, and a stop before
its end counts the first byte that is left. -/
def wholeNumber (text : List Char) : Except Stop Numeral :=
  let result : Except Stop (Numeral × List Char) :=
    match text with
    | [] => .error ⟨.endInValue, 0⟩
    | '-' :: rest => number true rest
    | c :: rest =>
      if c.isDigit then number false (c :: rest) else .error (.within .invalidNumber (c :: rest))
  match result with
  | .ok (n, []) => .ok n
  | .ok (_, rest) => .error (.within .invalidNumber rest)
  | .error ⟨.missingDigit, left⟩ => .error ⟨.invalidNumber, left - 1⟩
  | .error stop => .error stop

/-- The number that the first four characters of a text spell as hexadecimal digits, and the
text after them. -/
private def fourDigits? : List Char → Option (Nat × List Char)
  | a :: b :: c :: d :: rest => do
    let a ← Text.hexDigit? a
    let b ← Text.hexDigit? b
    let c ← Text.hexDigit? c
    let d ← Text.hexDigit? d
    return (((a * 16 + b) * 16 + c) * 16 + d, rest)
  | _ => none

/-- Reads the four hexadecimal digits of an escape. -/
private def hexEscape (text : List Char) : Except Stop (Nat × List Char) :=
  if utf8Size (text.take 4) < 4 then .error ⟨.endInString, 0⟩
  else
    match fourDigits? text with
    | some result => .ok result
    | none => .error ⟨.invalidEscape, utf8Size text - 4⟩

/-- Reads the second half of a surrogate pair whose first half is `high`. -/
private def lowSurrogate (high : Nat) : Reader Char
  | [] => .error ⟨.endInString, 0⟩
  | '\\' :: [] => .error ⟨.endInString, 0⟩
  | '\\' :: 'u' :: text =>
    match hexEscape text with
    | .error stop => .error stop
    | .ok (low, rest) =>
      if 0xDC00 ≤ low ∧ low ≤ 0xDFFF then
        .ok (Char.ofNat (0x10000 + (high - 0xD800) * 0x400 + (low - 0xDC00)), rest)
      else .error (.before .loneSurrogate rest)
  | '\\' :: text => .error (.within .brokenPair text)
  | text => .error (.within .brokenPair text)

/-- Reads what follows the letter of an escape by number. -/
private def unicodeEscape : Reader Char := fun text ↦
  match hexEscape text with
  | .error stop => .error stop
  | .ok (n, rest) =>
    if 0xDC00 ≤ n ∧ n ≤ 0xDFFF then .error (.before .loneSurrogate rest)
    else if 0xD800 ≤ n ∧ n ≤ 0xDBFF then lowSurrogate n rest
    else .ok (Char.ofNat n, rest)

/-- Reads what follows a backslash in a string. -/
def escape : Reader Char
  | [] => .error ⟨.endInString, 0⟩
  | c :: rest =>
    match c with
    | '"' => .ok ('"', rest)
    | '\\' => .ok ('\\', rest)
    | '/' => .ok ('/', rest)
    | 'b' => .ok ('\x08', rest)
    | 'f' => .ok ('\x0c', rest)
    | 'n' => .ok ('\n', rest)
    | 'r' => .ok ('\r', rest)
    | 't' => .ok ('\t', rest)
    | 'u' => unicodeEscape rest
    | c => .error (.within .invalidEscape (c :: rest))

private theorem length_fourDigits? {text rest : List Char} {n : Nat}
    (h : fourDigits? text = some (n, rest)) : rest.length < text.length := by
  unfold fourDigits? at h
  split at h
  · simp only [Option.bind_eq_bind, Option.bind_eq_some_iff, Option.pure_def,
      Option.some.injEq, Prod.mk.injEq] at h
    obtain ⟨_, _, _, _, _, _, _, _, _, rfl⟩ := h
    simp only [List.length_cons]
    omega
  · simp at h

private theorem length_hexEscape {text rest : List Char} {n : Nat}
    (h : hexEscape text = .ok (n, rest)) : rest.length < text.length := by
  unfold hexEscape at h
  split at h
  · simp at h
  · split at h
    · next hv =>
      simp only [Except.ok.injEq] at h
      exact length_fourDigits? (h ▸ hv)
    · simp at h

private theorem length_lowSurrogate {text rest : List Char} {high : Nat} {c : Char}
    (h : lowSurrogate high text = .ok (c, rest)) : rest.length < text.length := by
  unfold lowSurrogate at h
  split at h
  · simp at h
  · simp at h
  · split at h
    · simp at h
    · next hx =>
      have := length_hexEscape hx
      split at h
      · simp only [Except.ok.injEq, Prod.mk.injEq] at h
        simp only [← h.2, List.length_cons]
        omega
      · simp at h
  · simp at h
  · simp at h

/-- An escape is at least one character long. -/
theorem length_escape {text rest : List Char} {c : Char} (h : escape text = .ok (c, rest)) :
    rest.length < text.length := by
  unfold escape at h
  split at h
  · simp at h
  · next d tail =>
    split at h
    case h_9 =>
      unfold unicodeEscape at h
      split at h
      · simp at h
      · next hx =>
        have := length_hexEscape hx
        split at h
        · simp at h
        · split at h
          · have := length_lowSurrogate h
            simp only [List.length_cons]
            omega
          · simp only [Except.ok.injEq, Prod.mk.injEq] at h
            simp only [← h.2, List.length_cons]
            omega
    all_goals simp_all

/-- The number that four hexadecimal digits spell is read from them. -/
private theorem hexEscape_digits {a b c d : Char} {w x y z : Nat}
    (ha : Text.hexDigit? a = some w) (hb : Text.hexDigit? b = some x)
    (hc : Text.hexDigit? c = some y) (hd : Text.hexDigit? d = some z) (rest : List Char) :
    hexEscape (a :: b :: c :: d :: rest) = .ok (((w * 16 + x) * 16 + y) * 16 + z, rest) := by
  have hsize : ¬utf8Size ((a :: b :: c :: d :: rest).take 4) < 4 := by
    have hposa := a.utf8Size_pos
    have hposb := b.utf8Size_pos
    have hposc := c.utf8Size_pos
    have hposd := d.utf8Size_pos
    simp only [utf8Size, List.take_succ_cons, List.take_zero, List.foldl_cons, List.foldl_nil]
    omega
  have hdigits : fourDigits? (a :: b :: c :: d :: rest) =
      some (((w * 16 + x) * 16 + y) * 16 + z, rest) := by
    simp only [fourDigits?, ha, hb, hc, hd]
    rfl
  rw [hexEscape, if_neg hsize, hdigits]

/-- An escape by the number of a character is read as the character. -/
theorem escape_of_digits {a b c d : Char} {w x y z : Nat}
    (ha : Text.hexDigit? a = some w) (hb : Text.hexDigit? b = some x)
    (hc : Text.hexDigit? c = some y) (hd : Text.hexDigit? d = some z)
    (h : ((w * 16 + x) * 16 + y) * 16 + z < 0xD800 ∨ 0xDFFF < ((w * 16 + x) * 16 + y) * 16 + z)
    (rest : List Char) : escape ('u' :: a :: b :: c :: d :: rest) =
      .ok (Char.ofNat (((w * 16 + x) * 16 + y) * 16 + z), rest) := by
  show unicodeEscape _ = _
  simp only [unicodeEscape, hexEscape_digits ha hb hc hd]
  rw [if_neg (by omega), if_neg (by omega)]

/-- Two escapes by the halves of a surrogate pair are read as the character that it stands for. -/
theorem escape_of_pair {a b c d a' b' c' d' : Char} {w x y z w' x' y' z' high low : Nat}
    (ha : Text.hexDigit? a = some w) (hb : Text.hexDigit? b = some x)
    (hc : Text.hexDigit? c = some y) (hd : Text.hexDigit? d = some z)
    (ha' : Text.hexDigit? a' = some w') (hb' : Text.hexDigit? b' = some x')
    (hc' : Text.hexDigit? c' = some y') (hd' : Text.hexDigit? d' = some z')
    (hhigh : ((w * 16 + x) * 16 + y) * 16 + z = 0xD800 + high) (hlt : high < 0x400)
    (hlow : ((w' * 16 + x') * 16 + y') * 16 + z' = 0xDC00 + low) (hlt' : low < 0x400)
    (rest : List Char) :
    escape ('u' :: a :: b :: c :: d :: '\\' :: 'u' :: a' :: b' :: c' :: d' :: rest) =
      .ok (Char.ofNat (0x10000 + high * 0x400 + low), rest) := by
  show unicodeEscape _ = _
  simp only [unicodeEscape, hexEscape_digits ha hb hc hd, hhigh]
  rw [if_neg (by omega), if_pos (by omega)]
  simp only [lowSurrogate, hexEscape_digits ha' hb' hc' hd', hlow]
  rw [if_pos (by omega), Nat.add_sub_cancel_left, Nat.add_sub_cancel_left]

/-- Digits are taken from a text with more behind it as they are from the text. -/
private theorem fourDigits?_append {text rest : List Char} {n : Nat}
    (h : fourDigits? text = some (n, rest)) (more : List Char) :
    fourDigits? (text ++ more) = some (n, rest ++ more) := by
  unfold fourDigits? at h
  split at h
  · next a b c d tail =>
    simp only [Option.bind_eq_bind, Option.bind_eq_some_iff, Option.pure_def,
      Option.some.injEq, Prod.mk.injEq] at h
    obtain ⟨_, ha, _, hb, _, hc, _, hd, rfl, rfl⟩ := h
    simp [fourDigits?, ha, hb, hc, hd]
  · cases h

private theorem hexEscape_append {text rest : List Char} {n : Nat}
    (h : hexEscape text = .ok (n, rest)) (more : List Char) :
    hexEscape (text ++ more) = .ok (n, rest ++ more) := by
  unfold hexEscape at h
  split at h
  · cases h
  · next hsize =>
    split at h
    · next result hdigits =>
      obtain rfl := Except.ok.inj h
      have hlong : 4 ≤ text.length := by
        unfold fourDigits? at hdigits
        split at hdigits
        · simp only [List.length_cons]
          omega
        · cases hdigits
      rw [hexEscape, List.take_append_of_le_length hlong, if_neg hsize,
        fourDigits?_append hdigits more]
    · cases h

private theorem lowSurrogate_append {text rest : List Char} {high : Nat} {c : Char}
    (h : lowSurrogate high text = .ok (c, rest)) (more : List Char) :
    lowSurrogate high (text ++ more) = .ok (c, rest ++ more) := by
  unfold lowSurrogate at h
  split at h
  · cases h
  · cases h
  · split at h
    · cases h
    · next hhex =>
      split at h
      · next hlow =>
        obtain ⟨rfl, rfl⟩ := Prod.mk.inj (Except.ok.inj h)
        simp only [List.cons_append, lowSurrogate, hexEscape_append hhex more]
        rw [if_pos hlow]
      · cases h
  · cases h
  · cases h

private theorem unicodeEscape_append {text rest : List Char} {c : Char}
    (h : unicodeEscape text = .ok (c, rest)) (more : List Char) :
    unicodeEscape (text ++ more) = .ok (c, rest ++ more) := by
  unfold unicodeEscape at h
  split at h
  · cases h
  · next hhex =>
    simp only [unicodeEscape, hexEscape_append hhex more]
    split at h
    · cases h
    · next hnotLow =>
      rw [if_neg hnotLow]
      split at h
      · next hhigh =>
        rw [if_pos hhigh]
        exact lowSurrogate_append h more
      · next hnotHigh =>
        obtain ⟨rfl, rfl⟩ := Prod.mk.inj (Except.ok.inj h)
        rw [if_neg hnotHigh]

/-- An escape is read alike with more text behind it. -/
theorem escape_append {text rest : List Char} {c : Char} (h : escape text = .ok (c, rest))
    (more : List Char) : escape (text ++ more) = .ok (c, rest ++ more) := by
  unfold escape at h
  split at h
  · cases h
  · split at h
    case h_9 => exact unicodeEscape_append h more
    case h_10 => cases h
    all_goals
      obtain ⟨rfl, rfl⟩ := Prod.mk.inj (Except.ok.inj h)
      rfl

/-- Reads a string up to its closing quote; `before` holds the characters read so far, last
first. -/
def string (before : List Char) (text : List Char) : Except Stop (String × List Char) :=
  match text with
  | [] => .error ⟨.endInString, 0⟩
  | '"' :: rest => .ok (String.ofList before.reverse, rest)
  | '\\' :: rest =>
    match h : escape rest with
    | .error stop => .error stop
    | .ok (c, after) =>
      have := length_escape h
      string (c :: before) after
  | c :: rest =>
    if c.toNat < 0x20 then .error (.within .controlCharacter (c :: rest))
    else string (c :: before) rest
termination_by text.length

/-- Reads the items of a list after its opening bracket or after an item; `before` holds the
items read so far, last first. There are at most `fuel` more items. -/
def items (item : Reader Literal) (before : List Literal) : (fuel : Nat) → Reader Literal
  | 0, text => .error (.before .endInList text)
  | fuel + 1, text =>
    let next (text : List Char) : Except Stop (Literal × List Char) :=
      match item text with
      | .error stop => .error stop
      | .ok (v, rest) => items item (v :: before) fuel rest
    match skipSpace text with
    | [] => .error ⟨.endInList, 0⟩
    | ']' :: rest => .ok (.list before.reverse, rest)
    | c :: rest =>
      if before.isEmpty then next (c :: rest)
      else if c = ',' then
        match skipSpace rest with
        | [] => .error ⟨.endInValue, 0⟩
        | ']' :: rest => .error (.within .trailingComma (']' :: rest))
        | rest => next rest
      else .error (.within .expectedListEnd (c :: rest))

/-- Reads what follows a key: a colon and a value. -/
def afterKey {α : Type} (value : Reader α) : Reader α := fun text ↦
  match skipSpace text with
  | [] => .error ⟨.endInObject, 0⟩
  | ':' :: rest => value rest
  | rest => .error (.within .expectedColon rest)

/-- Reads a literal that is neither a list nor an object, with no blanks before it. -/
def scalar : Reader Literal
  | [] => .error ⟨.endInValue, 0⟩
  | 'n' :: rest => word .null ['u', 'l', 'l'] rest
  | 't' :: rest => word (.boolean true) ['r', 'u', 'e'] rest
  | 'f' :: rest => word (.boolean false) ['a', 'l', 's', 'e'] rest
  | '-' :: rest => (number true rest).map fun (n, rest) ↦ (.number n, rest)
  | '"' :: rest => (string [] rest).map fun (s, rest) ↦ (.string s, rest)
  | c :: rest =>
    if c.isDigit then (number false (c :: rest)).map fun (n, rest) ↦ (.number n, rest)
    else .error (.within .expectedValue (c :: rest))

/-- Reads a string that spells a number, after blanks. -/
def spelling : Reader Numeral := fun text ↦
  match skipSpace text with
  | '[' :: rest => .error (.before (.notString .list) ('[' :: rest))
  | '\x7b' :: rest => .error (.before (.notString .object) ('\x7b' :: rest))
  | text =>
    match scalar text with
    | .error stop => .error stop
    | .ok (.string s, rest) =>
      match wholeNumber s.toList with
      | .ok n => .ok (n, rest)
      | .error stop =>
        let (line, column) := placeIn s.toList stop.left
        .error (.before (.inString stop.cause line column) rest)
    | .ok (l, rest) => .error (.before (.notString l.kind) rest)

/-- Reads what follows `numeralKey`, if that is the first key of an object. -/
def spelledNumber : Reader Literal := fun text ↦
  match afterKey spelling text with
  | .error stop => .error stop
  | .ok (n, rest) =>
    match skipSpace rest with
    | [] => .error ⟨.endInObject, 0⟩
    | '\x7d' :: rest => .ok (.number n, rest)
    | ',' :: rest => .error (.within .trailingComma (',' :: rest))
    | rest => .error (.within .trailingCharacters rest)

/-- Reads the entries of an object after its opening brace or after an entry; `before` holds the
entries read so far, last first. There are at most `fuel` more entries. -/
def entries (item : Reader Literal) (before : List (String × Literal)) :
    (fuel : Nat) → Reader Literal
  | 0, text => .error (.before .endInObject text)
  | fuel + 1, text =>
    let next (text : List Char) : Except Stop (Literal × List Char) :=
      match string [] text with
      | .error stop => .error stop
      | .ok (key, rest) =>
        if before.isEmpty && key == numeralKey then spelledNumber rest
        else
          match afterKey item rest with
          | .error stop => .error stop
          | .ok (v, rest) => entries item ((key, v) :: before) fuel rest
    match skipSpace text with
    | [] => .error ⟨.endInObject, 0⟩
    | '\x7d' :: rest => .ok (.object (Entries.sort before.reverse), rest)
    | c :: rest =>
      if before.isEmpty then
        if c = '"' then next rest else .error (.within .keyNotString (c :: rest))
      else if c = ',' then
        match skipSpace rest with
        | [] => .error ⟨.endInValue, 0⟩
        | '"' :: rest => next rest
        | '\x7d' :: rest => .error (.within .trailingComma ('\x7d' :: rest))
        | rest => .error (.within .keyNotString rest)
      else .error (.within .expectedObjectEnd (c :: rest))

/-- Reads a literal, after blanks, with `item` for the literals inside of it. -/
def literal (item : Option (Reader Literal)) : Reader Literal := fun text ↦
  match skipSpace text with
  | '[' :: rest =>
    match item with
    | none => .error (.within .tooDeep ('[' :: rest))
    | some item => items item [] (rest.length + 1) rest
  | '\x7b' :: rest =>
    match item with
    | none => .error (.within .tooDeep ('\x7b' :: rest))
    | some item => entries item [] (rest.length + 1) rest
  | text => scalar text

/-- Reads a literal in which at most `levels` lists and objects lie inside of each other. -/
def nested : (levels : Nat) → Reader Literal
  | 0 => literal none
  | levels + 1 => literal (some (nested levels))

end Reader

/-- How many lists and objects may lie inside of each other. -/
def maxNesting : Nat := 127

/-- Whether a literal that starts as a text does ends in a character of its own, so that anything
may follow it. -/
def hasOwnEnd (text : List Char) : Bool :=
  text.head?.any fun c ↦ c == '"' || c == '[' || c == '\x7b'

/-- Whether a text can follow a literal that has no end of its own. -/
def canFollow : List Char → Bool
  | [] => true
  | c :: _ => isSpace c || ['"', '[', ']', '\x7b', '\x7d', ',', ':'].contains c

/-- What can follow a literal starts with no other character. -/
private theorem ne_of_canFollow {c bad : Char} {rest : List Char}
    (h : canFollow (c :: rest) = true) (hbad : canFollow [bad] = false) : c ≠ bad := by
  rintro rfl
  rw [canFollow] at h hbad
  rw [h] at hbad
  exact Bool.noConfusion hbad

/-- What can follow a literal starts with no digit. -/
private theorem span_of_canFollow {rest : List Char} (h : canFollow rest = true) :
    rest.takeWhile Char.isDigit = [] ∧ rest.dropWhile Char.isDigit = rest := by
  cases rest with
  | nil => exact ⟨rfl, rfl⟩
  | cons c rest =>
    have hc : ¬c.isDigit = true := by
      intro hdigit
      simp only [canFollow, isSpace, List.contains_cons, List.contains_nil, Bool.or_false,
        Bool.or_eq_true, beq_iff_eq] at h
      rcases h with (((rfl | rfl) | rfl) | rfl) | rfl | rfl | rfl | rfl | rfl | rfl | rfl
      all_goals exact absurd hdigit (by decide)
    exact ⟨List.takeWhile_cons_of_neg hc, List.dropWhile_cons_of_neg hc⟩

/-- What can follow a literal is no exponent. -/
private theorem exponent_of_canFollow {rest : List Char} (h : canFollow rest = true) :
    Reader.exponent rest = .ok (none, rest) := by
  cases rest with
  | nil => rfl
  | cons c rest =>
    have hne : ¬(c = 'e' ∨ c = 'E') := by
      rintro (he | he)
      · exact ne_of_canFollow h rfl he
      · exact ne_of_canFollow h rfl he
    unfold Reader.exponent
    exact if_neg hne

/-- Digits are read as a number up to a text that can follow them, unless one follows a zero at the
start. -/
theorem Reader.number_of_digits (negative : Bool) {ds rest : List Char} (hne : ds ≠ [])
    (hds : ∀ d ∈ ds, d.isDigit = true) (hzero : ds.head? = some '0' → ds.length = 1)
    (hrest : canFollow rest = true) :
    number negative (ds ++ rest) = .ok (⟨negative, ds, none, none⟩, rest) := by
  obtain ⟨d, more, rfl⟩ := List.exists_cons_of_ne_nil hne
  obtain ⟨htake, hdrop⟩ := span_of_canFollow hrest
  have hdigits : digits .missingDigit (d :: more ++ rest) = .ok (d :: more, rest) := by
    rw [List.cons_append, digits, if_pos (hds d List.mem_cons_self), ← List.cons_append,
      List.takeWhile_append_of_pos hds, List.dropWhile_append_of_pos hds, htake, hdrop,
      List.append_nil]
  have hlead : ¬((d :: more ++ rest).head? = some '0' ∧ 1 < (d :: more).length) := by
    rintro ⟨hz, hlen⟩
    rw [hzero hz] at hlen
    exact Nat.lt_irrefl 1 hlen
  simp only [number, hdigits]
  rw [if_neg hlead]
  split
  · exact absurd rfl (ne_of_canFollow hrest rfl)
  · rw [exponent_of_canFollow hrest]

namespace Reader

variable {c : Char} {text rest : List Char}

private theorem digits_append {missing : Cause} {ds : List Char}
    (h : digits missing text = .ok (ds, rest)) (hc : c.isDigit = false) (more : List Char) :
    digits missing (text ++ c :: more) = .ok (ds, rest ++ c :: more) := by
  cases text with
  | nil => cases h
  | cons d text =>
    rw [digits] at h
    split at h
    · next hd =>
      obtain ⟨rfl, rfl⟩ := Prod.mk.inj (Except.ok.inj h)
      obtain ⟨htake, hdrop⟩ := Text.span_append hc (d :: text) more
      rw [← htake, ← hdrop, List.cons_append, digits, if_pos hd]
    · cases h

private theorem exponent_append {e : Option (Bool × List Char)}
    (h : exponent text = .ok (e, rest)) (hc : c.isDigit = false) (hmark : c ≠ 'e' ∧ c ≠ 'E')
    (more : List Char) : exponent (text ++ c :: more) = .ok (e, rest ++ c :: more) := by
  cases text with
  | nil =>
    obtain ⟨rfl, rfl⟩ := Prod.mk.inj (Except.ok.inj h)
    exact if_neg (not_or.mpr hmark)
  | cons mark text =>
    rw [List.cons_append]
    unfold exponent at h ⊢
    dsimp only at h ⊢
    split at h
    · next hexponent =>
      rw [if_pos hexponent]
      cases text with
      | nil => cases h
      | cons sign text =>
        have hsign (tail : List Char) :
            (match sign :: tail with
              | '-' :: rest => (true, rest)
              | '+' :: rest => (false, rest)
              | rest => (false, rest)) =
              (sign == '-', if sign = '-' ∨ sign = '+' then tail else sign :: tail) := by
          split
          · next heq =>
            obtain ⟨rfl, rfl⟩ := List.cons.inj heq
            rfl
          · next heq =>
            obtain ⟨rfl, rfl⟩ := List.cons.inj heq
            rfl
          · next hminus hplus =>
            have hnot : ¬(sign = '-' ∨ sign = '+') := by
              rintro (rfl | rfl)
              · exact hminus _ rfl
              · exact hplus _ rfl
            rw [if_neg hnot, beq_false_of_ne (not_or.mp hnot).1]
        rw [hsign] at h
        rw [List.cons_append, hsign]
        dsimp only at h ⊢
        rw [← List.cons_append, ← apply_ite (· ++ c :: more)]
        split at h
        · next hdigits =>
          obtain ⟨rfl, rfl⟩ := Prod.mk.inj (Except.ok.inj h)
          rw [digits_append hdigits hc]
        · cases h
    · next hnot =>
      obtain ⟨rfl, rfl⟩ := Prod.mk.inj (Except.ok.inj h)
      rw [if_neg hnot, List.cons_append]

/-- A number is read alike with more text behind it that cannot continue it. -/
theorem number_append {negative : Bool} {n : Numeral}
    (h : number negative text = .ok (n, rest)) (hc : c.isDigit = false)
    (hmark : c ∉ ['.', 'e', 'E']) (more : List Char) :
    number negative (text ++ c :: more) = .ok (n, rest ++ c :: more) := by
  simp only [List.mem_cons, List.not_mem_nil, or_false, not_or] at hmark
  unfold number at h
  cases hall : digits .missingDigit text with
  | error stop => simp [hall] at h
  | ok result =>
    obtain ⟨all, tail⟩ := result
    simp only [hall] at h
    have hhead : (text ++ c :: more).head? = text.head? := by
      cases text with
      | nil => cases hall
      | cons d text => rfl
    simp only [number, digits_append hall hc more, hhead]
    split at h
    · cases h
    · next hlead =>
      rw [if_neg hlead]
      split at h
      · next fraction =>
        split at h
        · cases h
        · next hfraction =>
          split at h
          · cases h
          · next hexponent =>
            obtain ⟨rfl, rfl⟩ := Prod.mk.inj (Except.ok.inj h)
            simp only [List.cons_append, digits_append hfraction hc more,
              exponent_append hexponent hc hmark.2 more]
      · next hpoint =>
        split at h
        · cases h
        · next hexponent =>
          obtain ⟨rfl, rfl⟩ := Prod.mk.inj (Except.ok.inj h)
          have hpoint' (fraction : List Char) : tail ++ c :: more ≠ '.' :: fraction := by
            cases tail with
            | nil =>
              intro heq
              exact hmark.1 (List.cons.inj heq).1
            | cons d tail =>
              intro heq
              obtain ⟨rfl, -⟩ := List.cons.inj heq
              exact hpoint _ rfl
          split
          · next heq => exact absurd heq (hpoint' _)
          · rw [exponent_append hexponent hc hmark.2]

end Reader

end Literal

/-- Why the text after a message name is not a row of field literals. -/
inductive LiteralError where
  | malformed (cause : Literal.Cause) (column : Nat)
  | outOfRange (e : RangeError)
  deriving DecidableEq, Repr

/-- The error in words. -/
def LiteralError.message : LiteralError → String
  | .malformed (.inString cause line column) _ =>
    s!"invalid field literal: {cause.message} at line {line} column {column}"
  | .malformed cause column =>
    s!"invalid field literal: {cause.message} at line 1 column {column}"
  | .outOfRange e => e.message

namespace Literal

/-- Reads the values of the literals in a text after those `before` it, which are given last
first. There are at most `fuel` more literals; `size` is the size of the whole text. -/
def valuesFrom (size : Nat) (before : List Value) :
    (fuel : Nat) → List Char → Except LiteralError (List Value)
  | 0, _ => .ok before.reverse
  | fuel + 1, text =>
    match skipSpace text with
    | [] => .ok before.reverse
    | text =>
      match Reader.nested maxNesting text with
      | .error stop => .error (.malformed stop.cause (size - stop.left))
      | .ok (l, rest) =>
        if hasOwnEnd text || canFollow rest then
          match l.toValue with
          | .ok v => valuesFrom size (v :: before) fuel rest
          | .error e => .error (.outOfRange e)
        else
          let stop := Stop.within .trailingCharacters rest
          .error (.malformed stop.cause (size - stop.left))

/-- The values of the literals in a text. -/
def values (text : List Char) : Except LiteralError (List Value) :=
  valuesFrom (utf8Size text) [] (text.length + 1) text

end Literal

end ScriptedBolt
