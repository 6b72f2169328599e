import ScriptedBolt.Proofs.Address.Ip

/-!
# Reading IP addresses with ports

An IPv4 address with a colon and a port behind it, or a bracketed IPv6 address with them, with a
scope or without, spells an endpoint (`ofText?_v4`, `ofText?_v6`, `ofText?_scoped`). An endpoint is
so read from what it is written as (`ofText?_text`), and a text that spells one ends in its port
(`exists_port_of_ofText?`).
-/

namespace ScriptedBolt.Endpoint

open IpAddress
open Text (IsNumeral)

variable {text rest digits : List Char} {port : Nat}

/-- Whether an endpoint can be written: its port and its scope are in their range, and an IPv4
address has no scope. -/
structure Proper (e : Endpoint) : Prop where
  port_lt : e.port < 0x10000
  scope_lt : e.scope < 0x100000000
  scope_v4 : ∀ octets, e.address = .v4 octets → e.scope = 0

/-! ### Ports and scopes -/

/-- A port is read from a numeral of it. -/
theorem readPort_eq_some_iff : readPort text = some (port, rest) ↔
    ∃ digits, text = ':' :: (digits ++ rest) ∧ IsNumeral digits port ∧ digitsIn 10 rest = [] ∧
      port < 0x10000 := by
  constructor
  · intro h
    obtain ⟨⟨_, behind⟩, hcolon, hport⟩ := Option.bind_eq_some_iff.mp h
    obtain rfl := readChar_eq_some_iff.mp hcolon
    obtain ⟨digits, rfl, hdigits⟩ := readNumber_eq_some_iff_isNumeral.mp hport
    exact ⟨digits, rfl, hdigits⟩
  · rintro ⟨digits, rfl, hdigits⟩
    have hcolon : readChar ':' (':' :: (digits ++ rest)) = some ((), digits ++ rest) :=
      readChar_eq_some_iff.mpr rfl
    have hport := readNumber_eq_some_iff_isNumeral.mpr ⟨digits, rfl, hdigits⟩
    simp only [readPort, hcolon, Option.bind_eq_bind, Option.bind_some, hport]

/-- A port behind a colon is read whole. -/
theorem readPort_of_isNumeral (h : IsNumeral digits port) (hlt : port < 0x10000) :
    readPort (':' :: digits) = some (port, []) :=
  readPort_eq_some_iff.mpr ⟨digits, by rw [List.append_nil], h, rfl, hlt⟩

/-- A scope is read from a numeral of it. -/
theorem readScope_of_isNumeral {scope : Nat} (h : IsNumeral digits scope)
    (hlt : scope < 0x100000000) (hrest : digitsIn 10 rest = []) :
    readScope ('%' :: (digits ++ rest)) = (scope, rest) := by
  have hnumber : readNumber 10 none true 0x100000000 (digits ++ rest) = some (scope, rest) :=
    readNumber_eq_some_iff_isNumeral.mpr ⟨digits, rfl, h, hrest, hlt⟩
  have hpercent : readChar '%' ('%' :: (digits ++ rest)) = some ((), digits ++ rest) :=
    readChar_eq_some_iff.mpr rfl
  simp only [readScope, hpercent, Option.bind_eq_bind, Option.bind_some, hnumber,
    Option.getD_some]

/-- A scope is in its range, and what it leaves of a text is its end. -/
theorem readScope_spec (text : List Char) :
    (readScope text).1 < 0x100000000 ∧ (readScope text).2 <:+ text := by
  have hnone : 0 < 0x100000000 ∧ text <:+ text := ⟨by decide, List.suffix_rfl⟩
  cases hpercent : readChar '%' text with
  | none =>
    simpa only [readScope, hpercent, Option.bind_eq_bind, Option.bind_none, Option.getD_none]
      using hnone
  | some p =>
    obtain ⟨_, behind⟩ := p
    cases hnumber : readNumber 10 none true 0x100000000 behind with
    | none =>
      simpa only [readScope, hpercent, Option.bind_eq_bind, Option.bind_some, hnumber,
        Option.getD_none] using hnone
    | some q =>
      obtain ⟨scope, rest⟩ := q
      obtain rfl := readChar_eq_some_iff.mp hpercent
      obtain ⟨-, -, -, -, hlt⟩ := readNumber_eq_some_iff_isNumeral.mp hnumber
      have hsome : scope < 0x100000000 ∧ rest <:+ '%' :: behind :=
        ⟨hlt, (readNumber_suffix hnumber).trans (List.suffix_cons _ _)⟩
      simpa only [readScope, hpercent, Option.bind_eq_bind, Option.bind_some, hnumber,
        Option.getD_some] using hsome

/-! ### Endpoints -/

/-- An IPv4 address with a port behind it spells an endpoint. -/
theorem ofText?_v4 {octets : Vector UInt8 4} (h : IpAddress.ofText? text = some (.v4 octets))
    (hport : IsNumeral digits port) (hlt : port < 0x10000) :
    ofText? (text ++ ':' :: digits) = some ⟨.v4 octets, 0, port⟩ := by
  have hv4 := stopsBefore_readV4 (c := ':') (by rintro ⟨d, -, ⟨⟩⟩) (by decide) text digits
  rw [ofText?_eq_v4_iff.mp h] at hv4
  have hread : readWithV4 (text ++ ':' :: digits) = some (⟨.v4 octets, 0, port⟩, []) := by
    simp only [readWithV4, hv4, Option.map_some, List.nil_append, Option.bind_eq_bind,
      Option.bind_some, readPort_of_isNumeral hport hlt]
    rfl
  rw [ofText?, whole?_eq_some_iff, read, hread]
  rfl

/-- A text that starts with a bracket is read as a bracketed IPv6 address. -/
theorem read_bracket (text : List Char) : read ('[' :: text) = readWithV6 ('[' :: text) := by
  have hnone : readWithV4 ('[' :: text) = none := by
    rw [readWithV4, readV4_of_digitsIn rfl]
    rfl
  rw [read, hnone]
  rfl

/-- A text that starts with no bracket is read as an IPv4 address. -/
theorem read_of_head? (h : text.head? ≠ some '[') : read text = readWithV4 text := by
  have hnone : readWithV6 text = none := by
    have hbracket : readChar '[' text = none := by
      rw [Option.eq_none_iff_forall_ne_some]
      rintro ⟨_, behind⟩ hread
      rw [readChar_eq_some_iff.mp hread] at h
      exact h rfl
    rw [readWithV6, hbracket]
    rfl
  rw [read, hnone]
  cases readWithV4 text <;> rfl

/-- A bracketed IPv6 address with a scope and a port behind it spells an endpoint, where what stands
for the scope is read as one. -/
theorem ofText?_bracket {groups : Vector UInt16 8} {scope : Nat} {c : Char} {more : List Char}
    (h : IpAddress.ofText? text = some (.v6 groups)) (hc : c = ']' ∨ c = '%')
    (hscope : readScope (c :: more) = (scope, ']' :: ':' :: digits))
    (hport : IsNumeral digits port) (hlt : port < 0x10000) :
    ofText? ('[' :: (text ++ c :: more)) = some ⟨.v6 groups, scope, port⟩ := by
  have hstops : StopsBefore c readV6 := by
    rcases hc with rfl | rfl
    · exact stopsBefore_readV6 (by rintro ⟨d, -, ⟨⟩⟩) (by decide) (by decide)
    · exact stopsBefore_readV6 (by rintro ⟨d, -, ⟨⟩⟩) (by decide) (by decide)
  have hv6 := hstops text more
  rw [ofText?_eq_v6_iff.mp h] at hv6
  have hopen : readChar '[' ('[' :: (text ++ c :: more)) = some ((), text ++ c :: more) :=
    readChar_eq_some_iff.mpr rfl
  have hclose : readChar ']' (']' :: ':' :: digits) = some ((), ':' :: digits) :=
    readChar_eq_some_iff.mpr rfl
  rw [ofText?, whole?_eq_some_iff, read_bracket]
  simp only [readWithV6, hopen, hv6, Option.map_some, List.nil_append, hscope, hclose,
    Option.bind_eq_bind, Option.bind_some, readPort_of_isNumeral hport hlt]
  rfl

/-- A bracketed IPv4 address spells no endpoint, whatever stands behind it. -/
theorem ofText?_bracket_v4 {octets : Vector UInt8 4}
    (h : IpAddress.ofText? text = some (.v4 octets)) (more : List Char) :
    ofText? ('[' :: (text ++ ']' :: more)) = none := by
  have hstops : StopsBefore ']' readV6 :=
    stopsBefore_readV6 (by rintro ⟨d, -, ⟨⟩⟩) (by decide) (by decide)
  have hopen : readChar '[' ('[' :: (text ++ ']' :: more)) = some ((), text ++ ']' :: more) :=
    readChar_eq_some_iff.mpr rfl
  have hv6 := hstops text more
  rw [readV6_of_readV4 (ofText?_eq_v4_iff.mp h)] at hv6
  have hnone : readWithV6 ('[' :: (text ++ ']' :: more)) = none := by
    simp only [readWithV6, hopen, hv6, Option.map_none, Option.bind_eq_bind, Option.bind_some,
      Option.bind_none]
  rw [ofText?, whole?, read_bracket, hnone]

/-- A bracketed IPv6 address with a port behind it spells an endpoint without a scope. -/
theorem ofText?_v6 {groups : Vector UInt16 8} (h : IpAddress.ofText? text = some (.v6 groups))
    (hport : IsNumeral digits port) (hlt : port < 0x10000) :
    ofText? ('[' :: (text ++ ']' :: ':' :: digits)) = some ⟨.v6 groups, 0, port⟩ :=
  ofText?_bracket h (.inl rfl) rfl hport hlt

/-- A bracketed IPv6 address with a scope and a port behind it spells an endpoint. -/
theorem ofText?_scoped {groups : Vector UInt16 8} {scope : Nat} {spelled : List Char}
    (h : IpAddress.ofText? text = some (.v6 groups)) (hscope : IsNumeral spelled scope)
    (hrange : scope < 0x100000000) (hport : IsNumeral digits port) (hlt : port < 0x10000) :
    ofText? ('[' :: (text ++ '%' :: (spelled ++ ']' :: ':' :: digits))) =
      some ⟨.v6 groups, scope, port⟩ :=
  ofText?_bracket h (.inr rfl) (readScope_of_isNumeral hscope hrange rfl) hport hlt

/-- An IPv4 address and a port are written with a colon between them. -/
theorem toList_text_v4 (octets : Vector UInt8 4) (scope port : Nat) :
    (Endpoint.text ⟨.v4 octets, scope, port⟩).toList =
      (textOfV4 octets).toList ++ ':' :: Nat.toDigits 10 port := by
  rw [Endpoint.text]
  simp [toString]

/-- An IPv6 address without a scope is written in brackets before its port. -/
theorem toList_text_v6 (groups : Vector UInt16 8) (port : Nat) :
    (Endpoint.text ⟨.v6 groups, 0, port⟩).toList =
      '[' :: ((textOfV6 groups).toList ++ ']' :: ':' :: Nat.toDigits 10 port) := by
  rw [Endpoint.text]
  simp [toString]

/-- A scope is written behind its IPv6 address. -/
theorem toList_text_scoped (groups : Vector UInt16 8) {scope : Nat} (h : scope ≠ 0) (port : Nat) :
    (Endpoint.text ⟨.v6 groups, scope, port⟩).toList = '[' :: ((textOfV6 groups).toList ++
      '%' :: (Nat.toDigits 10 scope ++ ']' :: ':' :: Nat.toDigits 10 port)) := by
  rw [Endpoint.text]
  simp [h, toString]

/-- An endpoint is read from what it is written as. -/
theorem ofText?_text {e : Endpoint} (he : e.Proper) : ofText? e.text.toList = some e := by
  obtain ⟨address, scope, port⟩ := e
  have hport := Text.isNumeral_toDigits port
  cases address with
  | v4 octets =>
    have hv4 : IpAddress.ofText? (textOfV4 octets).toList = some (.v4 octets) :=
      ofText?_eq_v4_iff.mpr (readV4_eq_some_iff.mpr ⟨(List.append_nil _).symm, rfl⟩)
    obtain rfl : scope = 0 := he.scope_v4 octets rfl
    rw [toList_text_v4]
    exact ofText?_v4 hv4 hport he.port_lt
  | v6 groups =>
    have hv6 : IpAddress.ofText? (textOfV6 groups).toList = some (.v6 groups) :=
      ofText?_eq_v6_iff.mpr (readV6_textOfV6 groups)
    by_cases hscope : scope = 0
    · subst hscope
      rw [toList_text_v6]
      exact ofText?_v6 hv6 hport he.port_lt
    · rw [toList_text_scoped groups hscope]
      exact ofText?_scoped hv6 (Text.isNumeral_toDigits scope) he.scope_lt hport he.port_lt

/-! ### What spells an endpoint -/

/-- An endpoint that is read of an IPv4 address can be written, and stands for a text that ends in
its port. -/
theorem readWithV4_eq_some {e : Endpoint} (h : readWithV4 text = some (e, [])) : ∃ octets digits,
    text = (textOfV4 octets).toList ++ ':' :: digits ∧ IsNumeral digits e.port ∧
      e.port < 0x10000 ∧ e.address = .v4 octets ∧ e.scope = 0 := by
  obtain ⟨⟨octets, behind⟩, hv4, h⟩ := Option.bind_eq_some_iff.mp h
  obtain ⟨⟨port, rest⟩, hport, h⟩ := Option.bind_eq_some_iff.mp h
  obtain ⟨rfl, rfl⟩ := Prod.mk.inj (Option.some.inj h)
  obtain ⟨rfl, -⟩ := readV4_eq_some_iff.mp hv4
  obtain ⟨digits, rfl, hdigits, -, hlt⟩ := readPort_eq_some_iff.mp hport
  exact ⟨octets, digits, by rw [List.append_nil], hdigits, hlt, rfl, rfl⟩

/-- An endpoint that is read of a bracketed IPv6 address can be written, and stands for a text that
ends in its port. -/
theorem readWithV6_eq_some {e : Endpoint} (h : readWithV6 text = some (e, [])) : ∃ groups before digits,
    text = before ++ ':' :: digits ∧ IsNumeral digits e.port ∧
      e.port < 0x10000 ∧ e.address = .v6 groups ∧ e.scope < 0x100000000 := by
  obtain ⟨⟨_, inside⟩, hopen, h⟩ := Option.bind_eq_some_iff.mp h
  obtain ⟨⟨groups, behind⟩, hv6, h⟩ := Option.bind_eq_some_iff.mp h
  obtain ⟨hscope, hleft⟩ := readScope_spec behind
  obtain ⟨⟨_, after⟩, hclose, h⟩ := Option.bind_eq_some_iff.mp h
  obtain ⟨⟨port, rest⟩, hport, h⟩ := Option.bind_eq_some_iff.mp h
  obtain ⟨rfl, rfl⟩ := Prod.mk.inj (Option.some.inj h)
  obtain rfl := readChar_eq_some_iff.mp hopen
  rw [readChar_eq_some_iff] at hclose
  obtain ⟨digits, rfl, hdigits, -, hlt⟩ := readPort_eq_some_iff.mp hport
  -- The port is the end of what the address and the scope leave.
  have hafter : ':' :: (digits ++ []) <:+ (readScope behind).2 := hclose ▸ List.suffix_cons _ _
  have hinside := (hafter.trans hleft).trans (readV6_suffix hv6).1
  have hend : ':' :: (digits ++ []) <:+ '[' :: inside := hinside.trans (List.suffix_cons _ _)
  obtain ⟨before, hbefore⟩ := hend
  exact ⟨groups, before, digits, by rw [← hbefore, List.append_nil], hdigits, hlt, rfl, hscope⟩

/-- A text that spells an endpoint ends in a colon and a numeral of its port, and the endpoint can
be written. -/
theorem exists_port_of_ofText? {e : Endpoint} (h : ofText? text = some e) :
    e.Proper ∧ ∃ before digits, text = before ++ ':' :: digits ∧ IsNumeral digits e.port := by
  rw [ofText?, whole?_eq_some_iff] at h
  by_cases hhead : text.head? = some '['
  · obtain ⟨inside, rfl⟩ := List.head?_eq_some_iff.mp hhead
    rw [read_bracket] at h
    obtain ⟨groups, before, digits, htext, hdigits, hport, haddress, hscope⟩ :=
      readWithV6_eq_some h
    refine ⟨⟨hport, hscope, fun octets hv4 ↦ ?_⟩, before, digits, htext, hdigits⟩
    rw [haddress] at hv4
    cases hv4
  · rw [read_of_head? hhead] at h
    obtain ⟨octets, digits, htext, hdigits, hport, haddress, hscope⟩ := readWithV4_eq_some h
    exact ⟨⟨hport, hscope ▸ by decide, fun _ _ ↦ hscope⟩, _, digits, htext, hdigits⟩

end ScriptedBolt.Endpoint
