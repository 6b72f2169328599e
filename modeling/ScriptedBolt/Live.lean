import ScriptedBolt.CommandLine
import Std.Async.DNS
import Std.Async.TCP
import Std.Async.Timer

/-!
# Live connections

A run over TCP is the run of `Session` at another pace. Each of its steps is a function of what has
arrived, so it can be taken again: while a client may still send more, a fault stands for what
has not arrived yet, and a step that meets this fault is taken again once more has arrived. What
a step writes is sent when the step is done; if sending fails, the step is taken again with a
sink that fails in this way.
-/

namespace ScriptedBolt.Live

open Std.Async
open Std.Net (IPAddr SocketAddress)

/-- The number and the text of an error of the system. -/
def codeOf : IO.Error → Nat × String
  | .alreadyExists _ code text | .invalidArgument _ code text | .permissionDenied _ code text
  | .resourceExhausted _ code text | .inappropriateType _ code text | .noSuchThing _ code text
  | .otherError code text | .resourceBusy code text | .resourceVanished code text
  | .unsupportedOperation code text | .hardwareFault code text
  | .unsatisfiedConstraints code text | .illegalOperation code text
  | .protocolError code text | .timeExpired code text | .interrupted _ code text
  | .noFileOrDirectory _ code text => (code.toNat, text)
  | .unexpectedEof => (0, "unexpected end of file")
  | .userError text => (0, text)

/-- The kind of an error of the system, by its number. -/
def kindOf : Nat → FaultKind
  | 2 => .notFound
  | 4 => .interrupted
  | 11 => .wouldBlock
  | 13 => .permissionDenied
  | 32 => .brokenPipe
  | 103 => .connectionAborted
  | 104 => .connectionReset
  | 107 => .notConnected
  | 110 => .timedOut
  | 111 => .connectionRefused
  | _ => .other

/-- The fault that an error of the system is. Some errors count their numbers down from zero. -/
def faultOf (e : IO.Error) : Fault :=
  let (code, text) := codeOf e
  let number := if code < 0x80000000 then code else 0x100000000 - code
  ⟨kindOf number, s!"{text.capitalize} (os error {number})"⟩

/-- An expired deadline. -/
def expired : Fault := ⟨.wouldBlock, "Resource temporarily unavailable (os error 11)"⟩

/-- A span in milliseconds, rounded up. -/
def millis (d : Span) : Nat := (d.nanos + 999999) / 1000000

/-- Waits. -/
def pause (d : Span) : Async Unit := do Sleep.wait (← Sleep.mk (.ofNat (millis d)))

/-- Does something that may take time, up to a limit if there is one. -/
def within {α : Type} (limit : Option Span) (act : Async α) : IO (Option α) :=
  Async.block <| match limit with
    | none => some <$> act
    | some d => Async.race (some <$> act) do
      pause d
      return none

/-- The endpoint of a socket. -/
def endpointOf : SocketAddress → Endpoint
  | .v4 a => ⟨.v4 a.addr.octets, 0, a.port.toNat⟩
  | .v6 a => ⟨.v6 a.addr.segments, 0, a.port.toNat⟩

/-- The address of a socket. -/
def socketAddress (ip : IPAddr) (port : Nat) : SocketAddress :=
  match ip with
  | .v4 addr => .v4 ⟨addr, UInt16.ofNat port⟩
  | .v6 addr => .v6 ⟨addr, UInt16.ofNat port⟩

/-- The address of a target; a host is looked up. -/
def lookUp (address : String) : Address.Target → IO (Except Error SocketAddress)
  | .endpoint e =>
    return .ok <| match e.address with
      | .v4 octets => socketAddress (.v4 ⟨octets⟩) e.port
      | .v6 groups => socketAddress (.v6 ⟨groups⟩) e.port
  | .host name port => do
    try
      match (← Async.block (DNS.getAddrInfo name (toString port)))[0]? with
      | some ip => return .ok (socketAddress ip port)
      | none => return .error (.config (.reported s!"{address} resolved to no address"))
    catch e =>
      return .error (.config (.unresolved address
        s!"failed to lookup address information: {(codeOf e).2}"))

/-- A client that is connected. -/
structure Peer where
  socket : TCP.Socket.Client
  timeout : Option Span
  /-- What has arrived and was not read yet. -/
  arrived : Source
  /-- Whether nothing more will arrive. -/
  ended : Bool

namespace Peer

/-- Stands for what has not arrived yet. -/
def pending : Arrival := .fail ⟨.other, "pending"⟩

/-- Waits until more has arrived. -/
def receive (p : Peer) : IO Peer := do
  let last (s : Source) : Peer := { p with arrived := p.arrived ++ s, ended := true }
  try
    match ← within p.timeout (p.socket.recv? 65536) with
    | some (some piece) => return { p with arrived := p.arrived ++ [.deliver piece.toList] }
    | some none => return last []
    | none => return last [.fail expired]
  catch e => return last [.fail (faultOf e)]

/-- Sends bytes; gives the fault if that fails. -/
def send (p : Peer) (bytes : Array UInt8) : IO (Option Fault) := do
  if bytes.isEmpty then return none
  try
    match ← within p.timeout (p.socket.send ⟨bytes⟩) with
    | some () => return none
    | none => return some expired
  catch e => return some (faultOf e)

/-- Takes a step of a session with the client. -/
partial def take {α : Type} (p : Peer) (step : Session.Link → α) (after : α → Session.Link) :
    IO ({done : α // ∃ link, step link = done} × Peer) := do
  let source := if p.ended then p.arrived else p.arrived ++ [pending]
  let link : Session.Link := ⟨source, .unbounded⟩
  let done := step link
  let rest := (after done).source
  if !p.ended && rest.getLast? != some pending then (← p.receive).take step after
  else
    let p := { p with arrived := if p.ended then rest else rest.dropLast }
    match ← p.send (after done).sink.output with
    | none => return (⟨done, link, rfl⟩, p)
    | some fault =>
      let link : Session.Link := ⟨source, .bounded (some 0) none (some fault) none⟩
      return (⟨step link, link, rfl⟩, p)

/-- With a client that is connected steps are taken as the bytes for them arrive, and notes are
shown as they are made. -/
def pace (tell : List Note → IO Unit) : Session.Pace (StateT Peer IO) where
  take step after := fun p ↦ p.take step after
  wait
    | .sleep d => Async.block (pause d)
    | _ => pure ()
  note notes := tell notes

end Peer

/-- Binds to the address of the settings. -/
def bind (settings : Settings) : IO (Except Error TCP.Socket.Server) := do
  match Address.resolve settings.listenAddress with
  | .error cause => return .error (.config cause)
  | .ok target =>
    match ← lookUp settings.listenAddress target with
    | .error e => return .error e
    | .ok address =>
      try
        let server ← TCP.Socket.Server.mk
        server.bind address
        server.listen 128
        return .ok server
      catch e => return .error (.io (faultOf e))

/-- Waits for a client; the server listens no longer after that. -/
def accept (settings : Settings) (server : TCP.Socket.Server) :
    IO (Except Error TCP.Socket.Client) := do
  try
    match ← within settings.timeout server.accept with
    | some socket => return .ok socket
    | none => return .error (.timeout (settings.timeout.getD .zero))
  catch e => return .error (.io (faultOf e))

/-- Plays a script once, with the first client that connects. -/
def serve (settings : Settings) (script : Script) (tell : List Note → IO Unit) :
    IO (Except Error State) := do
  match ← bind settings with
  | .error e => return .error e
  | .ok server =>
    tell [.listening (endpointOf (← server.getSockName)).text]
    match ← accept settings server with
    | .error e =>
      let (outcome, notes) := Server.run settings script (.error e)
      tell notes
      return outcome
    | .ok socket =>
      let peer := (endpointOf (← socket.getPeerName)).text
      tell [.accepted peer]
      socket.noDelay
      let (ended, _) ← ((Peer.pace tell).run ⟨settings, peer⟩ script).run
        ⟨socket, settings.timeout, [], false⟩
      tell [.closedConnection peer]
      try Async.block socket.shutdown catch _ => pure ()
      return .ok ended.state

end ScriptedBolt.Live
