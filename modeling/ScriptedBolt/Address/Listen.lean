import ScriptedBolt.Address.Ip
import ScriptedBolt.Settings

/-!
# Addresses to listen on

A listen address is given as a host and a port, or as one of the two. It is normalised to a host
and a port with a colon between them; an IPv6 host is bracketed. A normalised address is then
resolved: it names an endpoint, or a host to be looked up.
-/

namespace ScriptedBolt.Address

/-- The text before the last colon, and the text after it. -/
def splitLastColon? (text : List Char) : Option (List Char × List Char) :=
  if text.contains ':' then
    let back := text.reverse
    some (((back.dropWhile (· != ':')).drop 1).reverse, (back.takeWhile (· != ':')).reverse)
  else none

/-- Whether a bracket stands in a text. -/
def hasBracket (text : List Char) : Bool := text.any fun c ↦ c == '[' || c == ']'

/-- A text without the brackets around it, if it has both. -/
def unbracket (text : List Char) : List Char :=
  match text with
  | '[' :: rest => if rest.getLast? = some ']' then rest.dropLast else text
  | _ => text

/-- The port that a text spells. -/
def readPort (text : List Char) : Except ConfigCause Nat :=
  match Text.boundedNumeral? 0x10000 text with
  | some port => .ok port
  | none => .error (.invalidPort text)

/-- Normalises an address that is not blank at its ends, is not empty and names no IP address
with a port. -/
def normalizeHost (text : List Char) : Except ConfigCause String :=
  match text with
  | ':' :: port => (readPort port).map fun port ↦ s!"{Settings.defaultHost}:{port}"
  | _ =>
    match splitLastColon? text with
    | some (host, port) =>
      if host.contains ':' || hasBracket host then .error (.invalidAddress text)
      else (readPort port).map fun port ↦ s!"{String.ofList host}:{port}"
    | none =>
      if hasBracket text then .error (.invalidAddress text)
      else .ok s!"{String.ofList text}:{Settings.defaultPort}"

/-- Normalises a listen address. -/
def normalize (address : List Char) : Except ConfigCause String :=
  let text := Text.trim address
  if text.isEmpty then .error .emptyAddress
  else if text.all Char.isDigit then
    (readPort text).map fun port ↦ s!"{Settings.defaultHost}:{port}"
  else
    match Endpoint.ofText? text with
    | some endpoint => .ok endpoint.text
    | none =>
      match IpAddress.ofText? (unbracket text) with
      | some ip => .ok (Endpoint.text ⟨ip, 0, Settings.defaultPort⟩)
      | none => normalizeHost text

/-- What an address names. -/
inductive Target where
  | endpoint (e : Endpoint)
  /-- A host to be looked up, and a port. -/
  | host (name : String) (port : Nat)
  deriving DecidableEq, Repr

/-- What an address names. -/
def resolve (address : String) : Except ConfigCause Target :=
  match Endpoint.ofText? address.toList with
  | some endpoint => .ok (.endpoint endpoint)
  | none =>
    match splitLastColon? address.toList with
    | none => .error (.unresolved address "invalid socket address")
    | some (host, port) =>
      match Text.boundedNumeral? 0x10000 port with
      | some port => .ok (.host (String.ofList host) port)
      | none => .error (.unresolved address "invalid port value")

end ScriptedBolt.Address
