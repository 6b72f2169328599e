import ScriptedBolt.Live

/-!
# The program

Reads the arguments, plays the script, and exits with the status of the verdict. The log goes to
standard error.
-/

namespace ScriptedBolt.CommandLine

/-- What is printed for help. -/
def usage : String :=
  "Play the server side of a scripted Bolt conversation

Usage: boltstub [OPTIONS] <SCRIPT>

Arguments:
  <SCRIPT>  Script file describing the conversation

Options:
  -l, --listen <LISTEN>    Listen address (host:port, :port or port)
  -t, --timeout <TIMEOUT>  Inactivity timeout in seconds (waits forever if unset)
  -v, --verbose...         More output (-v debug, -vv trace)
  -h, --help               Print help
  -V, --version            Print version
"

/-- Plays the script that the options name. -/
def Options.play (o : Options) : IO Verdict := do
  let tell (notes : List Note) : IO Unit :=
    for note in notes do
      if o.shows note then IO.eprintln note.line
  tell [.started version]
  let content ←
    try
      let bytes ← IO.FS.readBinFile o.script
      pure (.ok bytes.toList)
    catch e => pure (.error (Live.faultOf e))
  let (plan, notes) := o.plan content
  tell notes
  let outcome ← match plan with
    | .error e => pure (.error e)
    | .ok plan => Live.serve plan.settings plan.script tell
  tell (Verdict.report outcome)
  return .ofOutcome outcome

end ScriptedBolt.CommandLine

open ScriptedBolt in
/-- Does what the arguments ask for. -/
def main (args : List String) : IO UInt32 := do
  match CommandLine.request (← IO.getEnv "BOLTSTUB_LISTEN_ADDR") args with
  | .help =>
    IO.print CommandLine.usage
    return 0
  | .version =>
    IO.println CommandLine.versionText
    return 0
  | .misuse =>
    IO.eprint CommandLine.usage
    return 2
  | .run options => return UInt32.ofNat (← options.play).code
