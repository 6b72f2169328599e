/-!
# Faults of a connection

What goes wrong below the protocol: a fault has a kind, on which decisions rest, and a text,
which is only shown.
-/

namespace ScriptedBolt

/-- The kinds of faults. -/
inductive FaultKind where
  | wouldBlock
  | timedOut
  | unexpectedEof
  | connectionReset
  | connectionAborted
  | brokenPipe
  | interrupted
  | connectionRefused
  | permissionDenied
  | notConnected
  | notFound
  | invalidData
  | writeZero
  | other
  deriving DecidableEq, Repr

/-- A fault. -/
structure Fault where
  kind : FaultKind
  text : String
  deriving DecidableEq, Repr

namespace Fault

/-- The input ended before all the bytes asked for were read. -/
def endOfInput : Fault := ⟨.unexpectedEof, "failed to fill whole buffer"⟩

/-- A write took nothing. -/
def nothingTaken : Fault := ⟨.writeZero, "failed to write whole buffer"⟩

/-- Whether a deadline has expired. -/
def isTimeout (f : Fault) : Bool := f.kind == .wouldBlock || f.kind == .timedOut

/-- Whether the peer has gone away. -/
def isDisconnect (f : Fault) : Bool :=
  [FaultKind.unexpectedEof, .connectionReset, .connectionAborted, .brokenPipe].contains f.kind

end Fault

end ScriptedBolt
