import ScriptedBolt.Bytes
import ScriptedBolt.Wire.Fault

/-!
# Sinks of bytes

A sink takes what is written to a peer. It may answer each write in its own way: take some of
the bytes offered, take none, or fail. `Sink.writeAll` offers bytes until all of them are taken
or the sink refuses; what was taken before a refusal stays taken. A write that is interrupted is
repeated, as often as the sink's patience allows.
-/

namespace ScriptedBolt

/-- How a sink answers a write. -/
inductive WriteAnswer where
  /-- Takes at most so many of the bytes offered. -/
  | take (most : Nat)
  | fail (fault : Fault)
  deriving DecidableEq, Repr

/-- A sink, with what it has taken so far. -/
structure Sink where
  /-- The answer to a write, by the number of writes and of bytes taken before it, and the number
  of bytes offered. -/
  answer : (call taken offered : Nat) → WriteAnswer
  /-- What a flush fails with, by the number of writes and of bytes taken before it. -/
  flushFault : (call taken : Nat) → Option Fault
  /-- How many more interrupted writes are repeated before one counts as a failure. -/
  patience : Nat
  /-- The number of writes so far. -/
  calls : Nat
  /-- The bytes taken so far. -/
  output : Array UInt8

namespace Sink

/-- A sink that takes all it is offered and never fails. -/
def unbounded : Sink := ⟨fun _ _ offered ↦ .take offered, fun _ _ ↦ none, 0, 0, #[]⟩

/-- A sink that takes at most `limit` bytes in all and `short` in one write, if these are given.
When it is full it fails with `fault`, or takes nothing. A flush fails with `flushFault`. -/
def bounded (limit short : Option Nat) (fault flushFault : Option Fault) : Sink where
  answer _ taken offered :=
    let room := match limit with
      | some limit => limit - taken
      | none => offered
    match room, fault with
    | 0, some f => .fail f
    | room, _ => .take (match short with
      | some short => min short room
      | none => room)
  flushFault _ _ := flushFault
  patience := 0
  calls := 0
  output := #[]

/-- Offers `offered` bytes to a sink that has taken `taken` so far, until it has them all or
refuses. Gives the fault if it refused, the number of bytes taken then, and the sink, whose
output is not yet extended. -/
def offer (sink : Sink) (taken offered : Nat) : Option Fault × Nat × Sink :=
  if offered = 0 then (none, taken, sink)
  else
    let called := { sink with calls := sink.calls + 1 }
    match sink.answer sink.calls taken offered with
    | .take 0 => (some .nothingTaken, taken, called)
    | .take (most + 1) =>
      let n := min (most + 1) offered
      offer called (taken + n) (offered - n)
    | .fail f =>
      if f.kind = .interrupted ∧ 0 < sink.patience then
        offer { called with patience := sink.patience - 1 } taken offered
      else (some f, taken, called)
termination_by offered + sink.patience

/-- Adds bytes to those a sink has taken. -/
def append (sink : Sink) (bs : Bytes) : Sink := { sink with output := sink.output ++ bs }

/-- Writes bytes until all of them are taken or the sink refuses. -/
def writeAll (sink : Sink) (bs : Bytes) : Except Fault Unit × Sink :=
  let before := sink.output.size
  let (fault, taken, after) := sink.offer before bs.length
  let after := after.append (bs.take (taken - before))
  match fault with
  | none => (.ok (), after)
  | some f => (.error f, after)

/-- Flushes the sink. -/
def flush (sink : Sink) : Except Fault Unit :=
  match sink.flushFault sink.calls sink.output.size with
  | none => .ok ()
  | some f => .error f

/-- Writes bytes and flushes them. -/
def send (sink : Sink) (bs : Bytes) : Except Fault Unit × Sink :=
  match sink.writeAll bs with
  | (.ok (), after) => (after.flush, after)
  | (.error f, after) => (.error f, after)

end Sink

end ScriptedBolt
