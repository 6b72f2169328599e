import ScriptedBolt.Literal.Reader

/-!
# The grammar of field literals

What the texts of literals are, apart from how they are read (`Literal.Spells`): JSON texts whose
numbers have neither fraction nor exponent. The entries of an object stand in the order of the text,
and several of them may have one key; what is left of them when the object is read is
`Literal.reduced`. A row of literals is a text, too (`Literal.SpellsRow`), where a literal without
an end of its own is followed by what can follow it.
-/

namespace ScriptedBolt

/-- Whether the digits of a number stand for an integer: there are some, and none follows a zero at
the start. -/
structure Numeral.IsWhole (n : Numeral) : Prop where
  isInteger : n.isInteger = true
  ne_nil : n.whole ≠ []
  isDigit : ∀ d ∈ n.whole, d.isDigit = true
  zero : n.whole.head? = some '0' → n.whole.length = 1

namespace Literal

/-! ### Strings -/

/-- Whether four characters are the hexadecimal digits of a number. -/
inductive SpellsUnit : List Char → Nat → Prop
  | intro {a b c d : Char} {w x y z : Nat} (ha : Text.hexDigit? a = some w)
      (hb : Text.hexDigit? b = some x) (hc : Text.hexDigit? c = some y)
      (hd : Text.hexDigit? d = some z) :
      SpellsUnit [a, b, c, d] (((w * 16 + x) * 16 + y) * 16 + z)

/-- The characters that stand for a character behind a backslash, with that character. -/
def shortEscapes : List (Char × Char) :=
  [('"', '"'), ('\\', '\\'), ('/', '/'), ('b', '\x08'), ('f', '\x0c'), ('n', '\n'), ('r', '\r'),
    ('t', '\t')]

/-- Whether a text spells a character of a string. -/
inductive SpellsChar : Char → List Char → Prop
  /-- The character itself, unless it ends the string, starts an escape or is a control character.
  -/
  | plain {c : Char} (hquote : c ≠ '"') (hslash : c ≠ '\\') (hcontrol : 0x20 ≤ c.toNat) :
      SpellsChar c [c]
  | short {mark c : Char} (h : (mark, c) ∈ shortEscapes) : SpellsChar c ['\\', mark]
  /-- The number of a character. -/
  | unit {digits : List Char} {n : Nat} (h : SpellsUnit digits n) (hn : n < 0xD800 ∨ 0xDFFF < n) :
      SpellsChar (Char.ofNat n) ('\\' :: 'u' :: digits)
  /-- The surrogate pair of a character that needs two numbers. -/
  | pair {digits digits' : List Char} {high low : Nat} (hhigh : SpellsUnit digits (0xD800 + high))
      (hlt : high < 0x400) (hlow : SpellsUnit digits' (0xDC00 + low)) (hlt' : low < 0x400) :
      SpellsChar (Char.ofNat (0x10000 + high * 0x400 + low))
        ('\\' :: 'u' :: (digits ++ '\\' :: 'u' :: digits'))

/-- Whether a text spells the characters of a string, one after the other. -/
inductive SpellsChars : List Char → List Char → Prop
  | nil : SpellsChars [] []
  | cons {c : Char} {cs text more : List Char} (h : SpellsChar c text) (hs : SpellsChars cs more) :
      SpellsChars (c :: cs) (text ++ more)

/-- Whether a text spells a string: its characters between quotes. -/
def SpellsString (s : String) (text : List Char) : Prop :=
  ∃ chars, SpellsChars s.toList chars ∧ text = '"' :: (chars ++ ['"'])

/-! ### Literals -/

/-- Whether a text is blank. -/
def Blanks (text : List Char) : Prop := ∀ c ∈ text, isSpace c = true

/-- Whether a text stands before an item: blanks, with a comma among them if it is not the first. -/
def Gap (comma : Bool) (text : List Char) : Prop :=
  if comma then ∃ before after, Blanks before ∧ Blanks after ∧ text = before ++ ',' :: after
  else Blanks text

/-- Whether a text stands between a key and its literal: blanks with a colon among them. -/
def Colon (text : List Char) : Prop :=
  ∃ before after, Blanks before ∧ Blanks after ∧ text = before ++ ':' :: after

mutual

/-- Whether a text spells a literal. The entries of an object stand in the order of the text, and
each number is an integer. -/
def Spells : Literal → List Char → Prop
  | null, text => text = ['n', 'u', 'l', 'l']
  | boolean b, text => text = if b then ['t', 'r', 'u', 'e'] else ['f', 'a', 'l', 's', 'e']
  | number n, text => n.IsWhole ∧ text = n.text
  | string s, text => SpellsString s text
  | list items, text => ∃ inside, SpellsItems false items inside ∧ text = '[' :: (inside ++ [']'])
  | object entries, text =>
    ∃ inside, SpellsEntries false entries inside ∧ text = '\x7b' :: (inside ++ ['\x7d'])

/-- Whether a text spells items with commas between them, up to where they end; `comma` says whether
one stands before the next. -/
def SpellsItems (comma : Bool) : List Literal → List Char → Prop
  | [], text => Blanks text
  | item :: items, text => ∃ gap spelled more, Gap comma gap ∧ item.Spells spelled ∧
      SpellsItems true items more ∧ text = gap ++ (spelled ++ more)

/-- Whether a text spells entries with commas between them, like items. -/
def SpellsEntries (comma : Bool) : List (String × Literal) → List Char → Prop
  | [], text => Blanks text
  | (key, item) :: entries, text => ∃ gap quoted colon spelled more, Gap comma gap ∧
      SpellsString key quoted ∧ Colon colon ∧ item.Spells spelled ∧
        SpellsEntries true entries more ∧ text = gap ++ (quoted ++ (colon ++ (spelled ++ more)))

end

/-- Whether a text spells literals one after the other, with blanks between them or with ends of
their own. -/
def SpellsRow : List Literal → List Char → Prop
  | [], text => Blanks text
  | l :: ls, text => ∃ blanks spelled more, Blanks blanks ∧ l.Spells spelled ∧
      (hasOwnEnd spelled = true ∨ canFollow more = true) ∧ SpellsRow ls more ∧
        text = blanks ++ (spelled ++ more)

/-! ### What is left of a literal -/

mutual

/-- What is left of a literal when it is read: the last entry for each key of an object
(`Entries.mem_sort_iff`), with the keys in order. -/
def reduced : Literal → Literal
  | list items => list (reducedItems items)
  | object entries => object (Entries.sort (reducedEntries entries))
  | l => l

/-- What is left of items. -/
def reducedItems : List Literal → List Literal
  | [] => []
  | item :: items => item.reduced :: reducedItems items

/-- What is left of the literals of entries. -/
def reducedEntries : List (String × Literal) → List (String × Literal)
  | [] => []
  | (key, item) :: entries => (key, item.reduced) :: reducedEntries entries

end

mutual

/-- How many lists and objects lie inside of each other, the outermost included. -/
def nesting : Literal → Nat
  | list items => nestingOfItems items + 1
  | object entries => nestingOfEntries entries + 1
  | _ => 0

/-- The most of them in an item. -/
def nestingOfItems : List Literal → Nat
  | [] => 0
  | item :: items => max item.nesting (nestingOfItems items)

/-- The most of them in the literal of an entry. -/
def nestingOfEntries : List (String × Literal) → Nat
  | [] => 0
  | (_, item) :: entries => max item.nesting (nestingOfEntries entries)

end

mutual

/-- Whether no object in a literal has `numeralKey` for its first key. -/
def Unreserved : Literal → Prop
  | list items => UnreservedItems items
  | object entries => entries.head?.map Prod.fst ≠ some numeralKey ∧ UnreservedEntries entries
  | _ => True

/-- Whether none has in any of the items. -/
def UnreservedItems : List Literal → Prop
  | [] => True
  | item :: items => item.Unreserved ∧ UnreservedItems items

/-- Whether none has in the literal of any entry. -/
def UnreservedEntries : List (String × Literal) → Prop
  | [] => True
  | (_, item) :: entries => item.Unreserved ∧ UnreservedEntries entries

end

end Literal

end ScriptedBolt
