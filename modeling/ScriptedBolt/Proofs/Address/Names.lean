import ScriptedBolt.Proofs.Address.Listen

/-!
# Named addresses

An address can name an IP address alone, in brackets, or with a port behind it (`Names`). What such
an address is normalised to names the same: either it is read as an endpoint at once, or it is
written as one. With what is normal for every address, this is what a listen address is normalised
to (`normalize_normal`).
-/

namespace ScriptedBolt.Address

open Text (IsNumeral)

variable {text host port digits : List Char} {s : String} {e : Endpoint} {ip : IpAddress} {p : Nat}

/-- An IPv4 address is a host. -/
theorem isHost_textOfV4 (octets : Vector UInt8 4) :
    IsHost (IpAddress.textOfV4 octets).toList := by
  have hmem := IpAddress.mem_textOfV4 octets
  obtain ⟨c, more, htext, hc⟩ := IpAddress.exists_textOfV4_eq_cons octets
  refine ⟨htext ▸ List.cons_ne_nil c more, fun hcolon ↦ ?_, ?_, fun d hd ↦ ?_⟩
  · exact absurd (hmem ':' hcolon) (by decide)
  · rw [hasBracket, List.any_eq_false]
    rintro d hd hbracket
    rw [Bool.or_eq_true, beq_iff_eq, beq_iff_eq] at hbracket
    rcases hbracket with rfl | rfl
    · exact absurd (hmem '[' hd) (by decide)
    · exact absurd (hmem ']' hd) (by decide)
  · rw [htext] at hd
    obtain rfl := Option.some.inj hd
    exact Text.isBlank_of_isGraphic (Text.isGraphic_of_isDigit hc)

/-- How a text names an IP address: alone, in brackets, or with a port behind it. -/
inductive Names : List Char → Endpoint → Prop
  | bare (text : List Char) (ip : IpAddress) (h : IpAddress.ofText? text = some ip) :
      Names text ⟨ip, 0, Settings.defaultPort⟩
  | bracketed (text : List Char) (ip : IpAddress) (h : IpAddress.ofText? text = some ip) :
      Names ('[' :: (text ++ [']'])) ⟨ip, 0, Settings.defaultPort⟩
  | withPort (text port : List Char) (octets : Vector UInt8 4) (p : Nat)
      (h : IpAddress.ofText? text = some (.v4 octets))
      (hp : Text.boundedNumeral? 0x10000 port = some p) :
      Names (text ++ ':' :: port) ⟨.v4 octets, 0, p⟩
  | bracketedWithPort (text port : List Char) (ip : IpAddress) (p : Nat)
      (h : IpAddress.ofText? text = some ip)
      (hp : Text.boundedNumeral? 0x10000 port = some p) :
      Names ('[' :: (text ++ ']' :: ':' :: port)) ⟨ip, 0, p⟩
  | withScope (text spelled port : List Char) (groups : Vector UInt16 8) (scope p : Nat)
      (h : IpAddress.ofText? text = some (.v6 groups))
      (hs : IsNumeral spelled scope) (hscope : scope < 0x100000000)
      (hp : Text.boundedNumeral? 0x10000 port = some p) :
      Names ('[' :: (text ++ '%' :: (spelled ++ ']' :: ':' :: port))) ⟨.v6 groups, scope, p⟩

/-- A text that spells an endpoint is normalised to one that spells it, too. -/
theorem ofText?_of_normalize (htrim : Text.trim text = text) (h : Endpoint.ofText? text = some e)
    (hok : normalize text = .ok s) : Endpoint.ofText? s.toList = some e := by
  rw [normalize_of_endpoint htrim h] at hok
  obtain rfl := Except.ok.inj hok
  exact Endpoint.ofText?_text (Endpoint.exists_port_of_ofText? h).1

/-- No endpoint has a sign before its port. -/
theorem ofText?_of_plus (hport : ':' ∉ port) (host : List Char) :
    Endpoint.ofText? (host ++ ':' :: '+' :: port) = none := by
  rw [Option.eq_none_iff_forall_ne_some]
  intro e he
  obtain ⟨-, before, digits, htext, hdigits⟩ := Endpoint.exists_port_of_ofText? he
  have hsplit := splitLastColon?_append hdigits.colon_not_mem before
  rw [← htext, splitLastColon?_append (List.not_mem_cons_of_ne_of_not_mem (by decide) hport)]
    at hsplit
  obtain ⟨-, rfl⟩ := Prod.mk.inj (Option.some.inj hsplit)
  cases hdigits.isDigit '+' List.mem_cons_self

/-- No IP address is an endpoint without a port. -/
theorem ofText?_of_ip (h : IpAddress.ofText? text = some ip) : Endpoint.ofText? text = none := by
  have hhead : text.head? ≠ some '[' := by
    intro hhead
    obtain ⟨more, rfl⟩ := List.head?_eq_some_iff.mp hhead
    rw [IpAddress.ofText?_bracket] at h
    cases h
  rw [Option.eq_none_iff_forall_ne_some]
  intro e he
  rw [Endpoint.ofText?, IpAddress.whole?_eq_some_iff, Endpoint.read_of_head? hhead] at he
  obtain ⟨octets, digits, rfl, hdigits, -⟩ := Endpoint.readWithV4_eq_some he
  have hnone := ofText?_of_isHost (isHost_textOfV4 octets) hdigits.colon_not_mem
  rw [unbracket_of_head? hhead, h] at hnone
  cases hnone

/-- An IP address that gets the port that stands for none is read with it. -/
theorem ofText?_of_default (htrim : Text.trim text = text) (hnone : Endpoint.ofText? text = none)
    (h : IpAddress.ofText? (unbracket text) = some ip) (hok : normalize text = .ok s) :
    Endpoint.ofText? s.toList = some ⟨ip, 0, Settings.defaultPort⟩ := by
  rw [normalize_of_ip htrim hnone h] at hok
  obtain rfl := Except.ok.inj hok
  exact Endpoint.ofText?_text (proper_default ip)

/-- A numeral ends in a digit, with a sign and without. -/
theorem getLast?_of_dropPlus (h : IsNumeral (Text.dropPlus port) p) :
    ∃ d, port.getLast? = some d ∧ d.isDigit = true := by
  obtain ⟨d, hlast, hd⟩ := h.getLast?
  refine ⟨d, ?_, hd⟩
  rcases Text.dropPlus_cases port with heq | heq
  · rwa [heq] at hlast
  · rw [heq, List.getLast?_cons, hlast]
    rfl

/-- There is no colon in a numeral, with a sign or without. -/
theorem colon_not_mem_of_dropPlus (h : IsNumeral (Text.dropPlus port) p) : ':' ∉ port := by
  rcases Text.dropPlus_cases port with heq | heq
  · exact heq ▸ h.colon_not_mem
  · rw [heq]
    exact List.not_mem_cons_of_ne_of_not_mem (by decide) h.colon_not_mem

/-- Nothing in brackets with a port behind it is a host. -/
theorem normalize_bracket (htrim : Text.trim ('[' :: (text ++ ']' :: ':' :: port)) =
      '[' :: (text ++ ']' :: ':' :: port)) (hport : IsNumeral (Text.dropPlus port) p)
    (hnone : Endpoint.ofText? ('[' :: (text ++ ']' :: ':' :: port)) = none) :
    normalize ('[' :: (text ++ ']' :: ':' :: port)) ≠ .ok s := by
  have hsplit : '[' :: (text ++ ']' :: ':' :: port) = '[' :: (text ++ [']']) ++ ':' :: port := by
    simp
  -- The text ends in a digit, and so its first bracket stays.
  have hunbracket : unbracket ('[' :: (text ++ ']' :: ':' :: port)) =
      '[' :: (text ++ ']' :: ':' :: port) := by
    apply unbracket_of_getLast?
    obtain ⟨d, hlast, hd⟩ := getLast?_of_dropPlus hport
    rw [hsplit, List.getLast?_append, List.getLast?_cons, hlast]
    rintro ⟨⟩
    cases hd
  have hbracket : (('[' :: (text ++ [']'])).contains ':' || hasBracket ('[' :: (text ++ [']']))) =
      true := by
    rw [hasBracket, List.any_cons]
    simp
  rw [normalize_of_mem htrim (c := ':') (by simp) rfl, hnone, hunbracket,
    IpAddress.ofText?_bracket, hsplit]
  dsimp only
  rw [normalizeHost_append (colon_not_mem_of_dropPlus hport) (by simp) (List.cons_ne_nil _ _),
    if_pos hbracket]
  exact nofun

/-- A text that spells an IPv4 address is a host. -/
theorem isHost_of_v4 {octets : Vector UInt8 4} (h : IpAddress.ofText? text = some (.v4 octets)) :
    IsHost text := by
  obtain ⟨rfl, -⟩ := IpAddress.readV4_eq_some_iff.mp (IpAddress.ofText?_eq_v4_iff.mp h)
  rw [List.append_nil]
  exact isHost_textOfV4 octets

/-- What an address names is what it is normalised to. -/
theorem ofText?_of_names (htrim : Text.trim text = text) (h : Names text e)
    (hok : normalize text = .ok s) : Endpoint.ofText? s.toList = some e := by
  cases h with
  | bare _ ip h =>
    have hhead : text.head? ≠ some '[' := by
      intro hhead
      obtain ⟨more, rfl⟩ := List.head?_eq_some_iff.mp hhead
      rw [IpAddress.ofText?_bracket] at h
      cases h
    exact ofText?_of_default htrim (ofText?_of_ip h) ((unbracket_of_head? hhead).symm ▸ h) hok
  | bracketed text ip h =>
    have hnone : Endpoint.ofText? ('[' :: (text ++ [']'])) = none := by
      rw [Option.eq_none_iff_forall_ne_some]
      intro e he
      obtain ⟨-, before, digits, htext, hdigits⟩ := Endpoint.exists_port_of_ofText? he
      obtain ⟨d, hlast, hd⟩ := hdigits.getLast?
      have hends := congrArg List.getLast? htext
      rw [← List.cons_append, List.getLast?_concat, List.getLast?_append, List.getLast?_cons,
        hlast] at hends
      obtain rfl := Option.some.inj hends
      cases hd
    exact ofText?_of_default htrim hnone ((unbracket_append text).symm ▸ h) hok
  | withPort text port octets p h hp =>
    obtain ⟨hport, hlt⟩ := Text.boundedNumeral?_eq_some_iff.mp hp
    rcases Text.dropPlus_cases port with heq | heq
    · exact ofText?_of_normalize htrim (Endpoint.ofText?_v4 h (heq ▸ hport) hlt) hok
    · -- With a sign before the port the address is read as a host, and written without the sign.
      have hcolon := colon_not_mem_of_dropPlus hport
      have hnone : Endpoint.ofText? (text ++ ':' :: port) = none :=
        heq ▸ ofText?_of_plus hport.colon_not_mem text
      rw [normalize_host htrim (isHost_of_v4 h) hcolon hnone,
        readPort_eq_ok_iff.mpr ⟨hport, hlt⟩] at hok
      obtain rfl := Except.ok.inj hok
      rw [toList_host]
      exact Endpoint.ofText?_v4 h (Text.isNumeral_toDigits p) hlt
  | bracketedWithPort text port ip p h hp =>
    obtain ⟨hport, hlt⟩ := Text.boundedNumeral?_eq_some_iff.mp hp
    rcases Text.dropPlus_cases port with heq | heq
    · cases ip with
      | v4 octets =>
        exact absurd hok (normalize_bracket htrim hport (Endpoint.ofText?_bracket_v4 h _))
      | v6 groups =>
        exact ofText?_of_normalize htrim (Endpoint.ofText?_v6 h (heq ▸ hport) hlt) hok
    · have hnone := ofText?_of_plus hport.colon_not_mem ('[' :: (text ++ [']']))
      rw [← heq, List.cons_append, List.append_assoc] at hnone
      exact absurd hok (normalize_bracket htrim hport hnone)
  | withScope text spelled port groups scope p h hs hscope hp =>
    obtain ⟨hport, hlt⟩ := Text.boundedNumeral?_eq_some_iff.mp hp
    rcases Text.dropPlus_cases port with heq | heq
    · exact ofText?_of_normalize htrim (Endpoint.ofText?_scoped h hs hscope (heq ▸ hport) hlt) hok
    · have hinside : text ++ '%' :: (spelled ++ ']' :: ':' :: port) =
          (text ++ '%' :: spelled) ++ ']' :: ':' :: port := by simp
      have hnone := ofText?_of_plus hport.colon_not_mem ('[' :: ((text ++ '%' :: spelled) ++ [']']))
      rw [← heq, List.cons_append, List.append_assoc] at hnone
      rw [hinside] at htrim hok
      exact absurd hok (normalize_bracket htrim hport hnone)

/-- Blanks around a text are trimmed. -/
theorem trim_around {before after : List Char} (hbefore : ∀ c ∈ before, Text.isBlank c = true)
    (hafter : ∀ c ∈ after, Text.isBlank c = true) (text : List Char) :
    Text.trim (before ++ text ++ after) = Text.trim text := by
  rw [Text.trim_append_blanks hafter]
  induction before with
  | nil => rfl
  | cons c before ih =>
    obtain ⟨hc, hrest⟩ := List.forall_mem_cons.mp hbefore
    rw [List.cons_append, Text.trim_cons hc, ih hrest]

/-- A listen address is normalised once and for all: what it is normalised to stays as it is, is a
host with a port behind it, names what the address names, and does not depend on blanks around the
address. -/
theorem normalize_normal {text : List Char} {s : String} (h : normalize text = .ok s) :
    normalize s.toList = .ok s ∧
      (∃ host p, host ≠ [] ∧ p < 0x10000 ∧ s.toList = host ++ ':' :: Nat.toDigits 10 p) ∧
      (∀ e, Names (Text.trim text) e → Endpoint.ofText? s.toList = some e) ∧
      ∀ before after, (∀ c ∈ before, Text.isBlank c = true) → (∀ c ∈ after, Text.isBlank c = true) →
        normalize (before ++ text ++ after) = .ok s := by
  have hnormal := isNormal_of_normalize h
  have hok : normalize (Text.trim text) = .ok s := (normalize_trim text).trans h
  refine ⟨normalize_of_isNormal hnormal, ?_,
    fun e he ↦ ofText?_of_names (Text.trim_trim text) he hok, fun before after hbefore hafter ↦ ?_⟩
  · obtain ⟨c, more, p, -, hp, hs⟩ := hnormal.exists_port
    exact ⟨c :: more, p, List.cons_ne_nil c more, hp, hs⟩
  · rw [← normalize_trim, trim_around hbefore hafter, hok]

/-- A bracketed IPv6 address with zeros in front of its port, and blanks around it, is normalised to
the endpoint that it names. -/
theorem normalize_normal_padded :
    normalize " [2001:db8::1]:0080 ".toList = .ok "[2001:db8::1]:80" ∧
      normalize "[2001:db8::1]:80".toList = .ok "[2001:db8::1]:80" ∧
      (∃ host p, host ≠ [] ∧ p < 0x10000 ∧
        "[2001:db8::1]:80".toList = host ++ ':' :: Nat.toDigits 10 p) ∧
      Endpoint.ofText? "[2001:db8::1]:80".toList =
        some ⟨.v6 #v[0x2001, 0xDB8, 0, 0, 0, 0, 0, 1], 0, 80⟩ ∧
      normalize (['\t'] ++ " [2001:db8::1]:0080 ".toList ++ ['\n']) = .ok "[2001:db8::1]:80" := by
  have hok : normalize " [2001:db8::1]:0080 ".toList = .ok "[2001:db8::1]:80" := rfl
  have hip : IpAddress.ofText? "2001:db8::1".toList =
      some (.v6 #v[0x2001, 0xDB8, 0, 0, 0, 0, 0, 1]) := rfl
  have hport : Text.boundedNumeral? 0x10000 "0080".toList = some 80 := rfl
  have hnames : Names (Text.trim " [2001:db8::1]:0080 ".toList)
      ⟨.v6 #v[0x2001, 0xDB8, 0, 0, 0, 0, 0, 1], 0, 80⟩ :=
    .bracketedWithPort "2001:db8::1".toList "0080".toList _ 80 hip hport
  obtain ⟨hself, hform, hread, hblanks⟩ := normalize_normal hok
  have hblank (d : Char) (hd : Text.isBlank d = true) : ∀ c ∈ [d], Text.isBlank c = true :=
    fun _ hc ↦ List.mem_singleton.mp hc ▸ hd
  exact ⟨hok, hself, hform, hread _ hnames,
    hblanks ['\t'] ['\n'] (hblank '\t' rfl) (hblank '\n' rfl)⟩

end ScriptedBolt.Address
