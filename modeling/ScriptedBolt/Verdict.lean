import ScriptedBolt.Note

/-!
# Verdicts

How a run ended, as the status with which the program exits: 0 if the script was completed, 1 if
the conversation failed, 2 if a deadline expired, and 99 if the run did not get that far.
-/

namespace ScriptedBolt

/-- The verdict on a run. -/
inductive Verdict where
  | ok
  | offScript
  | timeout
  | unknown
  deriving DecidableEq, Repr

namespace Verdict

/-- The status with which the program exits. -/
def code : Verdict → Nat
  | ok => 0
  | offScript => 1
  | timeout => 2
  | unknown => 99

/-- The verdict on a failed conversation. -/
def ofFailure : Failure → Verdict
  | .timeout _ => timeout
  | _ => offScript

/-- The verdict on a conversation; one that has not ended is no verdict. -/
def ofState : State → Verdict
  | .completed => ok
  | .failed failure => ofFailure failure
  | .awaitingClient | .sendingServer => unknown

/-- The verdict on an error outside of the conversation. -/
def ofError (e : Error) : Verdict := if e.isTimeout then timeout else unknown

/-- The verdict on a run. -/
def ofOutcome : Except Error State → Verdict
  | .ok state => ofState state
  | .error e => ofError e

/-- The notes that report the outcome of a run. -/
def report (outcome : Except Error State) : List Note :=
  (match outcome with
    | .ok .completed => [.scriptCompleted]
    | .ok (.failed failure) => [.conversationFailed failure]
    | .ok _ => []
    | .error e => [.runFailed e]) ++ [.exiting (ofOutcome outcome).code]

end Verdict

end ScriptedBolt
