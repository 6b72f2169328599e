import ScriptedBolt.Binary64.Shortest
import ScriptedBolt.Text.Numeral

/-!
# Decimal texts of binary64 numbers

Two notations are in use, both with the fewest digits that read back. The plain one never has
an exponent, and a whole number has no point. The literal one is that of JSON texts: a finite
number always has a point or an exponent, and the exponent is used outside of
`10 ^ (-5) ≤ x < 10 ^ 16`. Reading takes the usual spellings of a number.
-/

namespace ScriptedBolt.Binary64

/-- Digits with a decimal point after the first `point` of them; zeros fill a point outside the
digits. A text without fraction ends in `whole`. -/
private def positional (whole : String) (digits : String) (point : Int) : String :=
  let zeros (n : Nat) : String := String.ofList (List.replicate n '0')
  if point ≤ 0 then "0." ++ zeros (-point).toNat ++ digits
  else
    let missing := point - digits.length
    if 0 ≤ missing then digits ++ zeros missing.toNat ++ whole
    else
      let cut := point.toNat
      String.ofList (digits.toList.take cut) ++ "." ++ String.ofList (digits.toList.drop cut)

/-- The sign of a number, as it stands before its digits. -/
private def signText (x : Binary64) : String := if x.isNegative then "-" else ""

/-- The plain notation: no exponent, and no point in a whole number. -/
def plain (x : Binary64) : String :=
  if x.isNaN then "NaN"
  else if x.isInfinite then signText x ++ "inf"
  else if x.isZero then signText x ++ "0"
  else
    let (digits, power) := shortest .up x
    let text := toString digits
    signText x ++ positional "" text (power + text.length)

/-- The literal notation; nothing for a number that is not finite. -/
def literal? (x : Binary64) : Option String :=
  if !x.isFinite then none
  else if x.isZero then some (signText x ++ "0.0")
  else
    let (digits, power) := shortest .toEven x
    let text := toString digits
    let point : Int := power + text.length
    if -5 < point ∧ point ≤ 16 then some (signText x ++ positional ".0" text point)
    else
      let e := point - 1
      let mantissa := if text.length = 1 then text else positional "" text 1
      some (signText x ++ mantissa ++ "e" ++ (if 0 ≤ e then "+" else "-") ++ toString e.natAbs)

/-- Whether a text is a word up to the case of its ASCII letters. -/
private def isWord (word : String) (text : List Char) : Bool :=
  text.map Char.toLower == word.toList

/-- An exponent: a letter `e`, at most one sign, one or more digits. Nothing is the exponent 0. -/
private def exponent? : List Char → Option Int
  | [] => some 0
  | e :: text =>
    if e = 'e' ∨ e = 'E' then
      let (negative, digits) : Bool × List Char :=
        match text with
        | '-' :: digits => (true, digits)
        | '+' :: digits => (false, digits)
        | digits => (false, digits)
      if digits.isEmpty || !digits.all Char.isDigit then none
      else some (if negative then -(Text.digitsValue digits : Int) else Text.digitsValue digits)
    else none

/-- Reads digits with at most one point among them and then at most one exponent. -/
private def readDecimal? (negative : Bool) (text : List Char) : Option Binary64 :=
  let whole := text.takeWhile Char.isDigit
  let rest := text.dropWhile Char.isDigit
  let (fraction, rest) : List Char × List Char :=
    match rest with
    | '.' :: rest => (rest.takeWhile Char.isDigit, rest.dropWhile Char.isDigit)
    | rest => ([], rest)
  if whole.isEmpty && fraction.isEmpty then none
  else
    (exponent? rest).map fun e ↦
      ofDecimal negative (Text.digitsValue (whole ++ fraction)) (e - fraction.length)

/-- The number nearest to a decimal numeral: at most one sign, digits with at most one point, at
most one exponent; or `inf`, `infinity` or `nan` in any case. A numeral that is too large gives
an infinity. -/
def ofText? (text : List Char) : Option Binary64 :=
  let (negative, text) : Bool × List Char :=
    match text with
    | '-' :: text => (true, text)
    | '+' :: text => (false, text)
    | text => (false, text)
  if isWord "inf" text || isWord "infinity" text then
    some (ofMagnitudeBits negative infinityBits)
  else if isWord "nan" text then some (ofMagnitudeBits negative (infinityBits + hiddenBit / 2))
  else readDecimal? negative text

/-! ### The characters of numerals -/

/-- Whether a character can stand in the text of a number: a letter, a digit, a sign or a point. -/
def isNumeric (c : Char) : Bool := c.isAlphanum || ['+', '-', '.'].contains c

/-- A digit can stand in the text of a number. -/
private theorem isNumeric_of_digits {digits : List Char} (h : digits.all Char.isDigit = true) :
    ∀ c ∈ digits, isNumeric c = true := by
  intro c hc
  rw [isNumeric, Char.isAlphanum, List.all_eq_true.mp h c hc, Bool.or_true, Bool.true_or]

/-- So can a letter of a word. -/
private theorem isNumeric_of_isWord {word : String} (hword : word.toList.all Char.isAlpha = true)
    {text : List Char} (h : isWord word text = true) : ∀ c ∈ text, isNumeric c = true := by
  intro c hc
  have hlower : c.toLower ∈ word.toList := by
    rw [← eq_of_beq h]
    exact List.mem_map_of_mem hc
  have halpha : c.isAlpha = true := by
    by_cases hupper : c.isUpper = true
    · exact Bool.or_eq_true_iff.mpr (.inl hupper)
    · have hself : c.toLower = c := dif_neg fun hbounds ↦ hupper (decide_eq_true hbounds)
      rw [← hself]
      exact List.all_eq_true.mp hword _ hlower
  rw [isNumeric, Char.isAlphanum, halpha, Bool.true_or, Bool.true_or]

/-- A sign can stand before what can stand there. -/
private theorem isNumeric_of_unsigned {text : List Char} {rest : Bool × List Char}
    (hsign : (match text with
      | '-' :: text => (true, text)
      | '+' :: text => (false, text)
      | text => (false, text)) = rest) (h : ∀ c ∈ rest.2, isNumeric c = true) :
    ∀ c ∈ text, isNumeric c = true := by
  split at hsign
  · subst hsign
    exact List.forall_mem_cons.mpr ⟨rfl, h⟩
  · subst hsign
    exact List.forall_mem_cons.mpr ⟨rfl, h⟩
  · subst hsign
    exact h

/-- What is read as an exponent can stand in the text of a number. -/
private theorem isNumeric_of_exponent? {text : List Char} {e : Int} (h : exponent? text = some e) :
    ∀ c ∈ text, isNumeric c = true := by
  unfold exponent? at h
  split at h
  · simp
  · next mark text =>
    split at h
    · next hmark =>
      generalize hsign : (match text with
        | '-' :: digits => (true, digits)
        | '+' :: digits => (false, digits)
        | digits => ((false, digits) : Bool × List Char)) = unsigned at h
      dsimp only at h
      split at h
      · cases h
      · next hdigits =>
        rw [Bool.or_eq_true, not_or, Bool.not_eq_true', Bool.not_eq_false] at hdigits
        refine List.forall_mem_cons.mpr ⟨?_, ?_⟩
        · rcases hmark with rfl | rfl <;> rfl
        · exact isNumeric_of_unsigned hsign (isNumeric_of_digits hdigits.2)
    · cases h

/-- So can what is read as a decimal numeral. -/
private theorem isNumeric_of_readDecimal? {negative : Bool} {text : List Char} {x : Binary64}
    (h : readDecimal? negative text = some x) : ∀ c ∈ text, isNumeric c = true := by
  have hdigits (text : List Char) (h : ∀ c ∈ text.dropWhile Char.isDigit, isNumeric c = true) :
      ∀ c ∈ text, isNumeric c = true := by
    intro c hc
    rw [← List.takeWhile_append_dropWhile (p := Char.isDigit) (l := text), List.mem_append] at hc
    exact hc.elim (isNumeric_of_digits List.all_takeWhile c) (h c)
  unfold readDecimal? at h
  dsimp only at h
  apply hdigits
  generalize hpoint : (match text.dropWhile Char.isDigit with
    | '.' :: rest => (rest.takeWhile Char.isDigit, rest.dropWhile Char.isDigit)
    | rest => (([], rest) : List Char × List Char)) = behind at h
  split at h
  · cases h
  · obtain ⟨e, he, -⟩ := Option.map_eq_some_iff.mp h
    have hrest := isNumeric_of_exponent? he
    split at hpoint
    · next fraction hfraction =>
      subst hpoint
      rw [hfraction]
      exact List.forall_mem_cons.mpr ⟨rfl, hdigits fraction hrest⟩
    · subst hpoint
      exact hrest

/-- A text that spells a number holds only characters that can stand there. -/
theorem isNumeric_of_ofText? {text : List Char} {x : Binary64} (h : ofText? text = some x) :
    ∀ c ∈ text, isNumeric c = true := by
  unfold ofText? at h
  generalize hsign : (match text with
    | '-' :: text => (true, text)
    | '+' :: text => (false, text)
    | text => ((false, text) : Bool × List Char)) = unsigned at h
  dsimp only at h
  apply isNumeric_of_unsigned hsign
  split at h
  · next hword =>
    rw [Bool.or_eq_true] at hword
    exact hword.elim (isNumeric_of_isWord (by decide)) (isNumeric_of_isWord (by decide))
  · split at h
    · next hword => exact isNumeric_of_isWord (by decide) hword
    · exact isNumeric_of_readDecimal? h

end ScriptedBolt.Binary64
