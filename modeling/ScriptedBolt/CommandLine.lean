import ScriptedBolt.Script.Parse
import ScriptedBolt.Server

/-!
# The command line

The arguments ask for help, for the version, or for a run with options: the address to listen
on, a timeout in seconds, how much to log, and the file of the script. They are read from left
to right, and the first thing that is wrong, or that asks for help or the version, decides. An
option takes its value from the rest of its argument or from the next argument, which may then
not look like an option.
-/

namespace ScriptedBolt.CommandLine

/-- What a run is asked to do. -/
structure Options where
  listen : String
  timeout : Option Binary64
  verbosity : Nat
  script : String

/-- What the arguments ask for. -/
inductive Request where
  | help
  | version
  /-- The arguments are not understood. -/
  | misuse
  | run (options : Options)

/-- What is known of the options while arguments are read. -/
structure Draft where
  listen : Option String
  timeout : Option Binary64
  verbosity : Nat
  script : Option String

/-- An option that takes a value. -/
inductive Valued where
  | listen
  | timeout

/-- An option that takes none. -/
inductive Flag where
  | help
  | version
  | verbose

/-- The option with a letter. -/
def optionOfLetter : Char → Option (Valued ⊕ Flag)
  | 'l' => some (.inl .listen)
  | 't' => some (.inl .timeout)
  | 'v' => some (.inr .verbose)
  | 'h' => some (.inr .help)
  | 'V' => some (.inr .version)
  | _ => none

/-- The option with a name. -/
def optionOfName (name : String) : Option (Valued ⊕ Flag) :=
  if name = "listen" then some (.inl .listen)
  else if name = "timeout" then some (.inl .timeout)
  else if name = "verbose" then some (.inr .verbose)
  else if name = "help" then some (.inr .help)
  else if name = "version" then some (.inr .version)
  else none

namespace Draft

/-- Nothing is known. -/
def empty : Draft := ⟨none, none, 0, none⟩

/-- Gives an option its value; each option takes one value only. -/
def set (d : Draft) (option : Valued) (value : List Char) : Except Request Draft :=
  match option with
  | .listen =>
    if d.listen.isSome then .error .misuse
    else .ok { d with listen := some (String.ofList value) }
  | .timeout =>
    if d.timeout.isSome then .error .misuse
    else
      match Binary64.ofText? value with
      | some seconds => .ok { d with timeout := some seconds }
      | none => .error .misuse

/-- Raises a flag. -/
def raise (d : Draft) : Flag → Except Request Draft
  | .help => .error .help
  | .version => .error .version
  | .verbose => .ok { d with verbosity := d.verbosity + 1 }

/-- Takes an argument that is no option: there is one, the file of the script, and it is not
empty. -/
def take (d : Draft) (value : List Char) : Except Request Draft :=
  if d.script.isSome || value.isEmpty then .error .misuse
  else .ok { d with script := some (String.ofList value) }

/-- Takes arguments none of which is an option. -/
def takeAll (d : Draft) : List (List Char) → Except Request Draft
  | [] => .ok d
  | value :: rest => do (← d.take value).takeAll rest

end Draft

/-- What remains to be done after a group of letters: nothing, or to give an option a value. -/
structure Pending where
  draft : Draft
  option : Option Valued

/-- Reads letters of options in one argument. An option with a value takes the rest of them,
without one equals sign before it. -/
def readLetters (d : Draft) : List Char → Except Request Pending
  | [] => .ok ⟨d, none⟩
  | c :: letters =>
    match optionOfLetter c with
    | none => .error .misuse
    | some (.inr flag) => do readLetters (← d.raise flag) letters
    | some (.inl option) =>
      match letters with
      | [] => .ok ⟨d, some option⟩
      | '=' :: value => do return ⟨← d.set option value, none⟩
      | value => do return ⟨← d.set option value, none⟩

/-- Reads an option by its name, and its value after an equals sign. -/
def readName (d : Draft) (text : List Char) : Except Request Pending :=
  let name := text.takeWhile (· != '=')
  let value : Option (List Char) :=
    match text.dropWhile (· != '=') with
    | _ :: value => some value
    | [] => none
  match optionOfName (String.ofList name), value with
  | some (.inl option), some value => do return ⟨← d.set option value, none⟩
  | some (.inl option), none => .ok ⟨d, some option⟩
  | some (.inr flag), none => do return ⟨← d.raise flag, none⟩
  | some (.inr _), some _ => .error .misuse
  | none, _ => .error .misuse

/-- Whether an argument looks like an option. -/
def looksLikeOption : List Char → Bool
  | '-' :: _ :: _ => true
  | _ => false

/-- Reads arguments, the first of which may be the value of an option. -/
def readArguments (d : Draft) (pending : Option Valued) :
    List (List Char) → Except Request Draft
  | [] => if pending.isSome then .error .misuse else .ok d
  | arg :: rest =>
    match pending with
    | some option =>
      if looksLikeOption arg then .error .misuse
      else do readArguments (← d.set option arg) none rest
    | none =>
      match arg with
      | ['-', '-'] => d.takeAll rest
      | '-' :: '-' :: text => do
        let p ← readName d text
        readArguments p.draft p.option rest
      | '-' :: c :: letters => do
        let p ← readLetters d (c :: letters)
        readArguments p.draft p.option rest
      | arg => do readArguments (← d.take arg) none rest

/-- What arguments ask for; `listen` is the address that the environment gives. -/
def request (listen : Option String) (args : List String) : Request :=
  match readArguments .empty none (args.map String.toList) with
  | .error r => r
  | .ok d =>
    match d.script with
    | none => .misuse
    | some script =>
      .run ⟨(d.listen <|> listen).getD Settings.default.listenAddress, d.timeout, d.verbosity,
        script⟩

/-- The notes of at least this level are shown. -/
def Options.shows (o : Options) (n : Note) : Bool :=
  match n.level with
  | .error | .info => true
  | .debug => 1 ≤ o.verbosity
  | .trace => 2 ≤ o.verbosity

/-- The timeout of a run; it must be more than zero. -/
def Options.span (o : Options) : Except Error (Option Span) :=
  match o.timeout with
  | none => .ok none
  | some seconds =>
    match Span.ofSeconds? seconds with
    | some d =>
      if d = .zero then .error (.config (.invalidTimeout seconds)) else .ok (some d)
    | none => .error (.config (.invalidTimeout seconds))

/-- What a run needs before it can listen. -/
structure Plan where
  settings : Settings
  script : Script

/-- The plan of a run, given the content of the file of the script. Of several faults, that of
the timeout comes first, then that of the script, then that of the address. -/
def Options.plan (o : Options) (content : Except Fault Bytes) :
    Except Error Plan × List Note :=
  match o.span with
  | .error e => (.error e, [])
  | .ok timeout =>
    match Script.load content with
    | .error e => (.error e, [])
    | .ok script =>
      let notes : List Note :=
        [.loaded o.script script.blocks.length script.directives.length, .usingScript o.script]
      match Address.normalize o.listen.toList with
      | .error cause => (.error (.config cause), notes)
      | .ok address =>
        let settings := (Settings.default.withListenAddress address).withTimeout timeout
        (.ok ⟨settings, script⟩, notes)

/-- The version of the program. -/
def version : String := "0.1.0"

/-- What is printed for the version. -/
def versionText : String := s!"boltstub {version}"

/-- A whole run, given the content of the file of the script, the name of the address bound, and
what became of waiting for a client with the settings. -/
def Options.run (o : Options) (content : Except Fault Bytes) (bound : String)
    (client : Settings → Except Error Server.Client) : Verdict × List Note :=
  let (outcome, notes) : Except Error State × List Note :=
    match o.plan content with
    | (.error e, notes) => (.error e, notes)
    | (.ok plan, notes) =>
      let (outcome, more) := Server.serve plan.settings plan.script bound (client plan.settings)
      (outcome, notes ++ more)
  (.ofOutcome outcome, [.started version] ++ notes ++ Verdict.report outcome)

end ScriptedBolt.CommandLine
