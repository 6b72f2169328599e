import ScriptedBolt.Literal.Reader
import ScriptedBolt.Message
import ScriptedBolt.PackStream.Decode
import ScriptedBolt.PackStream.Encode
import ScriptedBolt.Span
import ScriptedBolt.Wire.Fault

/-!
# Errors

Everything that can go wrong outside of the conversation itself, by area and cause. Each cause
has its wording in one place. A cause that is only told in words is `reported`.
-/

namespace ScriptedBolt

/-- Why a script line is refused. -/
inductive ScriptCause where
  /-- A line without a mark that does not belong to a block. -/
  | outsideBlock
  | unknownLine (line : List Char)
  | autoWithoutName
  | invalidVersion (text : List Char)
  | unsupportedVersion (version : Version)
  | emptyDirective
  | unknownDirective (word : List Char)
  /-- A bracketed command on a client line. -/
  | serverOnly (command : List Char)
  | unknownCommand (command : List Char)
  | invalidSleep (text : List Char)
  | invalidName (name : List Char)
  | literal (e : LiteralError)
  | oddHex (text : List Char)
  | invalidHex (digits : List Char)
  /-- A name that the role cannot send, in the version that the script asks for, if it does. -/
  | unknownName (role : Role) (name : String) (version : Option Version)
  | reported (text : String)

/-- The cause in words. -/
def ScriptCause.message : ScriptCause → String
  | outsideBlock => "continuation line outside of a C: or S: block"
  | unknownLine line => s!"expected a C:, S: or !: line, got {Text.quoted line}"
  | autoWithoutName => "AUTO needs a message name"
  | invalidVersion text => Version.invalidText text
  | unsupportedVersion version => s!"unsupported protocol version {version.text}"
  | emptyDirective => "empty directive"
  | unknownDirective word => s!"unknown directive {Text.quoted word}"
  | serverOnly command => String.ofList command ++ " is only valid in a server block"
  | unknownCommand command => "unknown command " ++ String.ofList command
  | invalidSleep text => s!"invalid sleep duration {Text.quoted text}"
  | invalidName name => s!"invalid message name {Text.quoted name}"
  | literal e => e.message
  | oddHex text => s!"expected an even number of hex digits, got {Text.quoted text}"
  | invalidHex digits => s!"invalid hex byte {Text.quoted digits}"
  | unknownName role name (some version) =>
    s!"unknown {role.name} message {name} for protocol version {version.text}"
  | unknownName role name none => s!"unknown {role.name} message {name}"
  | reported text => text

/-- Why a handshake fails. -/
inductive HandshakeCause where
  | closed
  | badMagic (bytes : Bytes)
  /-- The version that the script asks for is not among those offered. -/
  | notOffered (version : Version) (offered : List Version)
  | noneSupported (offered : List Version)
  | reported (text : String)

/-- Versions in a row. -/
def Version.list (versions : List Version) : String :=
  if versions.isEmpty then "nothing" else ", ".intercalate (versions.map text)

/-- The cause in words. -/
def HandshakeCause.message : HandshakeCause → String
  | closed => "Connection closed during handshake"
  | badMagic bytes => s!"Bad magic preamble: {Text.hexDump bytes}"
  | notOffered version offered =>
    s!"Script protocol version {version.text} not offered by client "
      ++ s!"(offered {Version.list offered})"
  | noneSupported offered =>
    s!"No supported protocol version offered (offered {Version.list offered})"
  | reported text => text

/-- Why bytes are no message, or a message has no bytes. -/
inductive ProtocolCause where
  | decode (e : PackStream.DecodeError)
  | encode (e : PackStream.EncodeError)
  | unavailable (name : String) (version : Version)
  | unknownTag (tag : UInt8) (version : Version)
  | notMessage (kind : String)
  | frameTooLarge (limit : Nat)
  | frameCut
  | reported (text : String)

/-- The cause in words. -/
def ProtocolCause.message : ProtocolCause → String
  | decode e => e.message
  | encode e => e.message
  | unavailable name version =>
    s!"Message {name} not available in protocol version {version.text}"
  | unknownTag tag version =>
    s!"Unknown message tag 0x{Text.upperHex tag} for protocol version {version.text}"
  | notMessage kind => s!"Expected a message structure, got {kind}"
  | frameTooLarge limit => s!"Message too large: more than {limit} bytes"
  | frameCut => "Truncated chunk: connection closed mid-message"
  | reported text => text

/-- Why settings are refused. -/
inductive ConfigCause where
  | emptyAddress
  | invalidPort (text : List Char)
  | invalidAddress (text : List Char)
  | unresolved (address : String) (reason : String)
  | invalidTimeout (seconds : Binary64)
  | reported (text : String)

/-- The cause in words. -/
def ConfigCause.message : ConfigCause → String
  | emptyAddress => "empty listen address"
  | invalidPort text => s!"invalid port {Text.quoted text}"
  | invalidAddress text => s!"invalid listen address {Text.quoted text}"
  | unresolved address reason => s!"cannot resolve {address}: {reason}"
  | invalidTimeout seconds =>
    s!"timeout must be a positive number of seconds, got {seconds.plain}"
  | reported text => text

/-- What went wrong, by area. -/
inductive Error where
  | io (fault : Fault)
  | script (line : Nat) (cause : ScriptCause)
  | handshake (cause : HandshakeCause)
  | protocol (cause : ProtocolCause)
  | timeout (after : Span)
  | config (cause : ConfigCause)

namespace Error

/-- The error in words. -/
def message : Error → String
  | io fault => s!"IO error: {fault.text}"
  | script line cause => s!"Script parse error at line {line}: {cause.message}"
  | handshake cause => s!"Handshake error: {cause.message}"
  | protocol cause => s!"Protocol error: {cause.message}"
  | timeout after => s!"Timed out after {after.text} of inactivity"
  | config cause => s!"Configuration error: {cause.message}"

/-- Whether a deadline has expired. -/
def isTimeout : Error → Bool
  | timeout _ => true
  | io fault => fault.isTimeout
  | _ => false

/-- Whether the peer has gone away. -/
def isDisconnect : Error → Bool
  | io fault => fault.isDisconnect
  | _ => false

/-- What a conversation that this error ends says about it: a cause of the handshake or of the
protocol without its area, any other error in full. -/
def reason : Error → String
  | handshake cause => cause.message
  | protocol cause => cause.message
  | e => e.message

end Error

end ScriptedBolt
