import ScriptedBolt.Frame

/-!
# Settings

What a run can be told besides its script. Settings are built by setting one after the other;
the size of a chunk is kept within its bounds.
-/

namespace ScriptedBolt

/-- Settings of a run. -/
structure Settings where
  /-- Host and port to listen on. -/
  listenAddress : String
  /-- How long the peer may be silent; without it, for ever. -/
  timeout : Option Span
  /-- The greatest length of a chunk that is written. -/
  maxChunkSize : Nat
  /-- The greatest size of a payload that is read. -/
  maxMessageSize : Nat
  deriving DecidableEq, Repr

namespace Settings

/-- The host if an address names only a port. -/
def defaultHost : String := "127.0.0.1"

/-- The port if an address names only a host. -/
def defaultPort : Nat := 17687

/-- The settings if nothing is set. -/
def default : Settings where
  listenAddress := s!"{defaultHost}:{defaultPort}"
  timeout := none
  maxChunkSize := Frame.maxChunkSize
  maxMessageSize := Frame.defaultMaxMessageSize

/-- Sets the address. -/
def withListenAddress (s : Settings) (address : String) : Settings :=
  { s with listenAddress := address }

/-- Sets the timeout. -/
def withTimeout (s : Settings) (timeout : Option Span) : Settings := { s with timeout }

/-- Sets the size of a chunk, within its bounds. -/
def withMaxChunkSize (s : Settings) (size : Nat) : Settings :=
  { s with maxChunkSize := Frame.clampChunkSize size }

/-- Sets the size of a message. -/
def withMaxMessageSize (s : Settings) (size : Nat) : Settings :=
  { s with maxMessageSize := size }

end Settings

end ScriptedBolt
