import ScriptedBolt.Address.Listen
import ScriptedBolt.Proofs.Address.Endpoint
import ScriptedBolt.Proofs.Text.Words

/-!
# Normal listen addresses

A normalised address is an endpoint as it is written, or a host and a port as it is written
(`isNormal_of_normalize`). Each of them is found by the way of reading that leaves it as it is, and
by none before that one (`normalize_of_isNormal`).
-/

namespace ScriptedBolt.Address

open Text (IsNumeral)

variable {text host port digits : List Char} {s : String} {e : Endpoint} {ip : IpAddress} {p : Nat}

/-! ### The last colon -/

/-- A text is split at its last colon. -/
theorem splitLastColon?_append (h : ':' ∉ port) (host : List Char) :
    splitLastColon? (host ++ ':' :: port) = some (host, port) := by
  have hport : ∀ c ∈ port.reverse, (c != ':') = true := by
    intro c hc
    rw [bne_iff_ne]
    rintro rfl
    exact h (List.mem_reverse.mp hc)
  have hback : (host ++ ':' :: port).reverse = port.reverse ++ ':' :: host.reverse := by simp
  have hcolon : (':' != ':') = false := by decide
  have hspan := @Text.span_append (· != ':') ':' hcolon port.reverse host.reverse
  rw [splitLastColon?, if_pos (by simp), hback]
  dsimp only
  rw [hspan.1, hspan.2, List.takeWhile_eq_self_iff.mpr hport, List.dropWhile_eq_nil_iff.mpr hport]
  simp

/-- What a text is split into has no colon behind the one that it is split at. -/
theorem splitLastColon?_eq_some_iff :
    splitLastColon? text = some (host, port) ↔ text = host ++ ':' :: port ∧ ':' ∉ port := by
  constructor
  · intro h
    have hmem : ':' ∈ text.reverse := by
      rw [splitLastColon?] at h
      split at h
      · next hcontains => exact List.mem_reverse.mpr (List.contains_iff_mem.mp hcontains)
      · cases h
    obtain ⟨back, front, hsplit, hback⟩ := List.eq_append_cons_of_mem hmem
    have htext : text = front.reverse ++ ':' :: back.reverse := by
      rw [← List.reverse_reverse text, hsplit]
      simp
    rw [htext, splitLastColon?_append (by simpa using hback)] at h
    obtain ⟨rfl, rfl⟩ := Prod.mk.inj (Option.some.inj h)
    exact ⟨htext, by simpa using hback⟩
  · rintro ⟨rfl, hport⟩
    exact splitLastColon?_append hport host

/-! ### Ways of reading -/

/-- Blanks around an address do not count. -/
theorem normalize_trim (text : List Char) : normalize (Text.trim text) = normalize text := by
  rw [normalize, Text.trim_trim]
  rfl

/-- An address with a character that is no digit is no port alone. -/
theorem normalize_of_mem {c : Char} (htrim : Text.trim text = text) (hmem : c ∈ text)
    (hc : c.isDigit = false) : normalize text =
      match Endpoint.ofText? text with
      | some endpoint => .ok endpoint.text
      | none =>
        match IpAddress.ofText? (unbracket text) with
        | some ip => .ok (Endpoint.text ⟨ip, 0, Settings.defaultPort⟩)
        | none => normalizeHost text := by
  have hempty : text.isEmpty = false := List.isEmpty_eq_false_iff.mpr (List.ne_nil_of_mem hmem)
  have hall : text.all Char.isDigit = false := by
    rw [List.all_eq_false]
    exact ⟨c, hmem, by rw [hc]; exact Bool.false_ne_true⟩
  unfold normalize
  dsimp only
  rw [htrim, hempty, hall]
  rfl

/-- An endpoint is written anew. -/
theorem normalize_of_endpoint (htrim : Text.trim text = text)
    (h : Endpoint.ofText? text = some e) : normalize text = .ok e.text := by
  obtain ⟨-, before, digits, htext, -⟩ := Endpoint.exists_port_of_ofText? h
  rw [normalize_of_mem htrim (c := ':') (by simp [htext]) rfl, h]

/-- What stands between brackets stands in the text. -/
theorem mem_of_mem_unbracket {c : Char} (h : c ∈ unbracket text) : c ∈ text := by
  unfold unbracket at h
  split at h
  · split at h
    · exact List.mem_cons_of_mem _ (List.dropLast_subset _ h)
    · exact h
  · exact h

/-- An IP address without a port gets the port that stands for none. -/
theorem normalize_of_ip (htrim : Text.trim text = text) (hnone : Endpoint.ofText? text = none)
    (h : IpAddress.ofText? (unbracket text) = some ip) :
    normalize text = .ok (Endpoint.text ⟨ip, 0, Settings.defaultPort⟩) := by
  obtain ⟨c, hmem, hc⟩ : ∃ c ∈ unbracket text, c.isDigit = false := by
    rcases IpAddress.separator_of_ofText? h with ⟨hdot, -⟩ | hcolon
    · exact ⟨'.', hdot, rfl⟩
    · exact ⟨':', List.count_pos_iff.mp (by omega), rfl⟩
  rw [normalize_of_mem htrim (mem_of_mem_unbracket hmem) hc, hnone, h]

/-- Only brackets at both ends are taken off. -/
theorem unbracket_of_head? (h : text.head? ≠ some '[') : unbracket text = text := by
  unfold unbracket
  split
  · exact absurd rfl h
  · rfl

/-- Brackets are taken off both ends. -/
theorem unbracket_append (text : List Char) : unbracket ('[' :: (text ++ [']'])) = text := by
  simp [unbracket]

/-- A bracket at the start only is not taken off. -/
theorem unbracket_of_getLast? (h : text.getLast? ≠ some ']') : unbracket text = text := by
  unfold unbracket
  split
  · next rest =>
    rw [if_neg]
    intro hlast
    rw [List.getLast?_cons, hlast] at h
    exact h rfl
  · rfl

/-- What stands before a colon and a port is a host, unless there are colons or brackets in it. -/
theorem normalizeHost_append (hport : ':' ∉ port) (hne : host.head? ≠ some ':') (hhost : host ≠ []) :
    normalizeHost (host ++ ':' :: port) =
      if host.contains ':' || hasBracket host then .error (.invalidAddress (host ++ ':' :: port))
      else (readPort port).map fun port ↦ s!"{String.ofList host}:{port}" := by
  obtain ⟨c, more, rfl⟩ := List.exists_cons_of_ne_nil hhost
  unfold normalizeHost
  split
  · next heq =>
    obtain ⟨rfl, -⟩ := List.cons.inj heq
    exact absurd rfl hne
  · rw [splitLastColon?_append hport]

/-! ### Normal addresses -/

/-- An IP address with the port that stands for none can be written. -/
theorem proper_default (ip : IpAddress) : Endpoint.Proper ⟨ip, 0, Settings.defaultPort⟩ := by
  have hport : Settings.defaultPort < 0x10000 := by decide
  exact ⟨hport, Nat.two_pow_pos 32, fun _ _ ↦ rfl⟩

/-- Whether a text can be a host before a colon and a port. -/
structure IsHost (host : List Char) : Prop where
  ne_nil : host ≠ []
  colon : ':' ∉ host
  bracket : hasBracket host = false
  blank : ∀ c ∈ host.head?, Text.isBlank c = false

/-- Whether an address is one that others are normalised to. -/
inductive IsNormal : String → Prop
  | endpoint (e : Endpoint) (he : e.Proper) : IsNormal e.text
  | host (host : List Char) (p : Nat) (hhost : IsHost host) (hp : p < 0x10000) (s : String)
      (hs : s.toList = host ++ ':' :: Nat.toDigits 10 p) : IsNormal s

/-- A port is a numeral behind at most one plus sign. -/
theorem readPort_eq_ok_iff : readPort port = .ok p ↔
    IsNumeral (Text.dropPlus port) p ∧ p < 0x10000 := by
  rw [readPort, ← Text.boundedNumeral?_eq_some_iff]
  split
  · next heq => rw [heq, Except.ok.injEq, Option.some.injEq]
  · next heq =>
    rw [heq]
    exact iff_of_false nofun nofun

/-- What is made of a port that is read is made of a number in the range of ports. -/
theorem exists_of_map_readPort {f : Nat → String} (h : (readPort port).map f = .ok s) :
    ∃ p, p < 0x10000 ∧ f p = s := by
  cases hread : readPort port with
  | error e =>
    rw [hread] at h
    cases h
  | ok p =>
    rw [hread] at h
    exact ⟨p, (readPort_eq_ok_iff.mp hread).2, Except.ok.inj h⟩

/-- A port is written without a sign and without a zero in front. -/
theorem toList_host (host : List Char) (p : Nat) :
    s!"{String.ofList host}:{p}".toList = host ++ ':' :: Nat.toDigits 10 p := by
  simp [toString]

/-- The host that stands for none is a host. -/
theorem isHost_default : IsHost Settings.defaultHost.toList where
  ne_nil := by decide
  colon := by decide
  bracket := by decide
  blank := by
    rintro c ⟨⟩
    rfl

/-- The host that stands for none is put before a port. -/
theorem isNormal_of_port (hp : p < 0x10000) : IsNormal s!"{Settings.defaultHost}:{p}" :=
  .host Settings.defaultHost.toList p isHost_default hp _ (toList_host Settings.defaultHost.toList p)

/-- What is made of a host and a port is normal. -/
theorem isNormal_of_normalizeHost {c : Char} {more : List Char} (hc : Text.isBlank c = false)
    (h : normalizeHost (c :: more) = .ok s) : IsNormal s := by
  unfold normalizeHost at h
  split at h
  · obtain ⟨p, hp, rfl⟩ := exists_of_map_readPort h
    exact isNormal_of_port hp
  · next hcolon =>
    have hne : c ≠ ':' := by
      rintro rfl
      exact hcolon more rfl
    split at h
    · next host port heq =>
      split at h
      · cases h
      · next hhost =>
        rw [Bool.or_eq_true, not_or, Bool.not_eq_true, Bool.not_eq_true] at hhost
        obtain ⟨p, hp, rfl⟩ := exists_of_map_readPort h
        -- The host is not empty: the text does not start with a colon.
        obtain ⟨htext, -⟩ := splitLastColon?_eq_some_iff.mp heq
        have hfirst : ∃ rest, host = c :: rest := by
          cases host with
          | nil => exact absurd (List.cons.inj htext).1 hne
          | cons d rest => exact ⟨rest, by rw [(List.cons.inj htext).1]⟩
        obtain ⟨rest, rfl⟩ := hfirst
        refine .host (c :: rest) p ⟨List.cons_ne_nil c rest, ?_, hhost.2, ?_⟩ hp _ (toList_host _ p)
        · rw [← List.contains_iff_mem, hhost.1]
          exact Bool.false_ne_true
        · rintro d ⟨⟩
          exact hc
    · next hnone =>
      split at h
      · cases h
      · next hbracket =>
        have hmem : ':' ∉ c :: more := by
          intro hmem
          rw [splitLastColon?, if_pos (List.contains_iff_mem.mpr hmem)] at hnone
          cases hnone
        obtain rfl := Except.ok.inj h
        refine .host (c :: more) Settings.defaultPort ⟨List.cons_ne_nil c more, hmem,
          Bool.not_eq_true _ ▸ hbracket, ?_⟩ (by decide) _ (toList_host _ _)
        rintro d ⟨⟩
        exact hc

/-- An address is normalised to a normal one. -/
theorem isNormal_of_normalize (h : normalize text = .ok s) : IsNormal s := by
  unfold normalize at h
  dsimp only at h
  split at h
  · cases h
  · next hempty =>
    split at h
    · obtain ⟨p, hp, rfl⟩ := exists_of_map_readPort h
      exact isNormal_of_port hp
    · split at h
      · next e he =>
        cases h
        exact .endpoint e (Endpoint.exists_port_of_ofText? he).1
      · split at h
        · next ip _ =>
          cases h
          exact .endpoint _ (proper_default ip)
        · obtain ⟨⟨c, more, htext, hc⟩, -⟩ :=
            Text.ends_of_trim (mt List.isEmpty_iff.mpr hempty)
          rw [htext] at h
          exact isNormal_of_normalizeHost hc h

/-- A normal address is a host that does not start with a blank, a colon and a port. -/
theorem IsNormal.exists_port (h : IsNormal s) : ∃ c more p, Text.isBlank c = false ∧
    p < 0x10000 ∧ s.toList = c :: more ++ ':' :: Nat.toDigits 10 p := by
  cases h with
  | endpoint e he =>
    obtain ⟨address, scope, p⟩ := e
    cases address with
    | v4 octets =>
      obtain ⟨c, more, htext, hc⟩ := IpAddress.exists_textOfV4_eq_cons octets
      refine ⟨c, more, p, Text.isBlank_of_isGraphic (Text.isGraphic_of_isDigit hc), he.port_lt, ?_⟩
      rw [Endpoint.toList_text_v4, htext]
    | v6 groups =>
      refine ⟨'[', ?_⟩
      by_cases hscope : scope = 0
      · subst hscope
        refine ⟨(IpAddress.textOfV6 groups).toList ++ [']'], p, rfl, he.port_lt, ?_⟩
        rw [Endpoint.toList_text_v6]
        simp
      · refine ⟨(IpAddress.textOfV6 groups).toList ++ '%' :: (Nat.toDigits 10 scope ++ [']']), p, rfl,
          he.port_lt, ?_⟩
        rw [Endpoint.toList_text_scoped groups hscope]
        simp
  | host host p hhost hp _ hs =>
    obtain ⟨c, more, rfl⟩ := List.exists_cons_of_ne_nil hhost.ne_nil
    exact ⟨c, more, p, hhost.blank c rfl, hp, hs⟩

/-- Nothing of a normal address is trimmed. -/
theorem IsNormal.trim (h : IsNormal s) : Text.trim s.toList = s.toList := by
  obtain ⟨c, more, p, hc, -, hs⟩ := h.exists_port
  have hdigits := Text.isNumeral_toDigits p
  obtain ⟨front, d, hlast⟩ : ∃ front d, Nat.toDigits 10 p = front ++ [d] :=
    ⟨_, _, (List.dropLast_append_getLast hdigits.ne_nil).symm⟩
  have hd : Text.isBlank d = false :=
    Text.isBlank_of_isGraphic (Text.isGraphic_of_isDigit (hdigits.isDigit d (by simp [hlast])))
  have hend : s.toList = (c :: more ++ ':' :: front) ++ [d] := by
    rw [hs, hlast]
    simp
  exact Text.trim_eq_self hs hc hend hd

/-- A host does not start with a bracket. -/
theorem IsHost.head? (h : IsHost host) (more : List Char) : (host ++ more).head? ≠ some '[' := by
  obtain ⟨c, rest, rfl⟩ := List.exists_cons_of_ne_nil h.ne_nil
  rintro ⟨⟩
  have hbracket := h.bracket
  cases hbracket

/-- A host and a port that spell an endpoint are what it is written as. -/
theorem toList_text_of_isHost (hhost : IsHost host)
    (h : Endpoint.ofText? (host ++ ':' :: Nat.toDigits 10 p) = some e) :
    e.text.toList = host ++ ':' :: Nat.toDigits 10 p := by
  rw [Endpoint.ofText?, IpAddress.whole?_eq_some_iff, Endpoint.read_of_head? (hhost.head? _)] at h
  obtain ⟨octets, digits, htext, hdigits, -, haddress, -⟩ := Endpoint.readWithV4_eq_some h
  -- Both ports are behind the last colon.
  have hsplit := splitLastColon?_append (Text.isNumeral_toDigits p).colon_not_mem host
  rw [htext, splitLastColon?_append hdigits.colon_not_mem] at hsplit
  obtain ⟨rfl, rfl⟩ := Prod.mk.inj (Option.some.inj hsplit)
  have hport : e.port = p := hdigits.value.symm.trans (Text.isNumeral_toDigits p).value
  obtain ⟨address, scope, port⟩ := e
  obtain rfl : address = .v4 octets := haddress
  rw [Endpoint.toList_text_v4, ← hport]

/-- A host and a port spell no IP address without a port. -/
theorem ofText?_of_isHost (hhost : IsHost host) (hport : ':' ∉ port) :
    IpAddress.ofText? (unbracket (host ++ ':' :: port)) = none := by
  rw [unbracket_of_head? (hhost.head? _), Option.eq_none_iff_forall_ne_some]
  intro ip hip
  -- The colon between them is the only one.
  have hcount : (host ++ ':' :: port).count ':' = 1 := by
    rw [List.count_append, List.count_cons_self, List.count_eq_zero.mpr hhost.colon,
      List.count_eq_zero.mpr hport]
  rcases IpAddress.separator_of_ofText? hip with ⟨-, hcolon⟩ | hcolons
  · exact hcolon (by simp)
  · omega

/-- A host and a port that spell no endpoint are a host and a port. -/
theorem normalize_host (htrim : Text.trim (host ++ ':' :: port) = host ++ ':' :: port)
    (hhost : IsHost host) (hport : ':' ∉ port)
    (hnone : Endpoint.ofText? (host ++ ':' :: port) = none) :
    normalize (host ++ ':' :: port) =
      (readPort port).map fun port ↦ s!"{String.ofList host}:{port}" := by
  have hcolon : host.head? ≠ some ':' := fun hhead ↦ hhost.colon (List.mem_of_mem_head? hhead)
  have hclean : (host.contains ':' || hasBracket host) = false := by
    rw [hhost.bracket, Bool.or_false, Bool.eq_false_iff]
    exact mt List.contains_iff_mem.mp hhost.colon
  rw [normalize_of_mem htrim (c := ':') (by simp) rfl, hnone, ofText?_of_isHost hhost hport]
  dsimp only
  rw [normalizeHost_append hport hcolon hhost.ne_nil, hclean]
  rfl

/-- A normal address stays as it is. -/
theorem normalize_of_isNormal (h : IsNormal s) : normalize s.toList = .ok s := by
  have htrim := h.trim
  cases h with
  | endpoint e he => exact normalize_of_endpoint htrim (Endpoint.ofText?_text he)
  | host host p hhost hp _ hs =>
    rw [hs] at htrim ⊢
    have hport := Text.isNumeral_toDigits p
    cases hread : Endpoint.ofText? (host ++ ':' :: Nat.toDigits 10 p) with
    | some e =>
      have htext : e.text = s :=
        String.toList_inj.mp ((toList_text_of_isHost hhost hread).trans hs.symm)
      rw [normalize_of_endpoint htrim hread, htext]
    | none =>
      have hread' : readPort (Nat.toDigits 10 p) = .ok p :=
        readPort_eq_ok_iff.mpr ⟨hport.dropPlus.symm ▸ hport, hp⟩
      rw [normalize_host htrim hhost hport.colon_not_mem hread, hread']
      exact congrArg Except.ok (String.toList_inj.mp ((toList_host host p).trans hs.symm))

end ScriptedBolt.Address
