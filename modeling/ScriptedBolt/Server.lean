import ScriptedBolt.Address.Listen
import ScriptedBolt.Session
import ScriptedBolt.Verdict

/-!
# The server

A server plays its script once, with the first client that connects. Waiting for a client is
part of the run: an expired deadline is a failure of the conversation, and only a fault of the
listener is an error.
-/

namespace ScriptedBolt.Server

/-- A client that has connected. -/
structure Client where
  peer : String
  link : Session.Link

/-- Plays a script once, given what became of waiting for a client. -/
def run (settings : Settings) (script : Script) (client : Except Error Client) :
    Except Error State × List Note :=
  match client with
  | .error e =>
    if e.isTimeout then
      let timeout := settings.timeout.getD .zero
      (.ok (.failed (.timeout timeout)), [.nobodyCame timeout])
    else (.error e, [])
  | .ok client =>
    let ended := Session.run ⟨settings, client.peer⟩ script client.link
    (.ok ended.conversation.state,
      [.accepted client.peer] ++ ended.notes ++ [.closedConnection client.peer])

/-- Binds to the address of the settings, named `bound` then, and plays a script once. -/
def serve (settings : Settings) (script : Script) (bound : String)
    (client : Except Error Client) : Except Error State × List Note :=
  match Address.resolve settings.listenAddress with
  | .error cause => (.error (.config cause), [])
  | .ok _ =>
    let (outcome, notes) := run settings script client
    (outcome, .listening bound :: notes)

end ScriptedBolt.Server
