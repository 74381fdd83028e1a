import ScopedStyles.CommandLine.Output
import ScopedStyles.Settings
import ScopedStyles.Source.Parse
import ScopedStyles.Text.Newline

/-!
# Plans of a run

What a run does follows from its arguments, up to the text that it reads. So the arguments give a
plan: a finished output, or a place to read from and the output for whatever is found there.

## Main definitions

* `compile`, `check` — the commands on a source.
* `plan` — the plan of a run.
-/

namespace ScopedStyles.CommandLine

open Output

/-! ## Commands on a source -/

/-- The events if they are wanted. -/
def logIf (verbose : Bool) (events : List Event) : Text :=
  if verbose then log events else []

/-- Prints the scope key and the rules of a source, or what is wrong with it and where. -/
def compile (verbose : Bool) (scope source : Text) : Output :=
  match parse scope source with
  | .error e =>
    { exit := 1
      stderr := say ("Parse error: ".toList ++ e.report.message ++ " (".toList ++
        e.report.location ++ [')']) }
  | .ok tree =>
    { exit := 0
      stdout := say ("/* scope: .".toList ++ scope ++ " */".toList) ++ tree.texts.flatMap say
      stderr := logIf verbose (tree.events scope) }

/-- The scope under which sources are checked. -/
def checkScope : Text :=
  "check".toList

/-- Counts the rules and the animations of a source, or tells what is wrong with it and where. -/
def check (verbose : Bool) (name source : Text) : Output :=
  match parse checkScope source with
  | .error e =>
    { exit := 1
      stderr := say ("Parse error: ".toList ++ e.report.message) ++
        say ("  at ".toList ++ e.report.location) ++
        (if e.report.fragment = [] then []
        else say ("  near ".toList ++ e.report.fragment.quoted)) }
  | .ok tree =>
    { exit := 0
      stdout := say ("OK: ".toList ++ name ++ " (".toList ++ Text.ofNat tree.texts.length ++
        " rule(s), ".toList ++ Text.ofNat tree.keyframes.size ++ " keyframes)".toList)
      stderr := logIf verbose (tree.events checkScope) }

/-! ## Plans -/

/-- Where a source comes from. -/
inductive Origin
  | stdin
  | file (name : Text)
  deriving DecidableEq, Repr

/-- The origin that an operand names. A dash is the standard input. -/
def Origin.ofOperand (operand : Text) : Origin :=
  if operand = ['-'] then stdin else file operand

/-- The name of an origin. -/
def Origin.name : Origin → Text
  | stdin => "<stdin>".toList
  | file name => name

/-- What a run does. -/
inductive Plan
  | finished (output : Output)
  | reading (origin : Origin) (next : Except OpenFailure Text → Output)

/-- The output of a command whose source has been read. -/
def runCommand (env : Environment) (verbose : Bool) (c : Command) (a : Arguments) (origin : Origin)
    (content : Text) : Output :=
  let source := content.unifyNewlines
  match c with
  | .check => check verbose origin.name source
  | .compile =>
    compile verbose ((a.value? .scope).getD (Settings.ofEnvironment env).keys.draw.1) source

/-- The plan of a command with its arguments. -/
def planCommand (env : Environment) (verbose : Bool) (c : Command) (arguments : List Text) :
    Plan :=
  let usage := Usage.command c
  match Arguments.scan usage arguments with
  | .error e => .finished (usageError usage e)
  | .ok a =>
    if a.has .help then .finished (information usage.help)
    else
      match a.operands with
      | [] => .finished (usageError usage .missingSource)
      | operand :: extra =>
        let origin := Origin.ofOperand operand
        .reading origin fun
          | .error failure => usageError usage (.cannotOpen operand failure)
          | .ok content =>
            if extra = [] then runCommand env verbose c a origin content
            else usageError usage (.extraOperands extra)

/-- What the program's own options ask for before any command: the first request for help or for
the version is met. -/
def request? (a : Arguments) : Option Output :=
  (a.switches.find? fun entry => entry.1 = .help || entry.1 = .version).map fun entry =>
    information (if entry.1 = .help then Usage.program.help else versionLine)

/-- The answer to a name that is no command's. A name that looks like an option is read as one
first. -/
def unknownCommand (name : Text) (arguments : List Text) : Output :=
  let unknown := usageError .program (.noSuchCommand name (similarNames Command.table name))
  if Arguments.isOption name then
    match Arguments.scan .program arguments with
    | .error e => usageError .program e
    | .ok a => (request? a).getD unknown
  else unknown

/-- The plan of a run with the given arguments. Without arguments the help text is shown, but not
as something that was asked for. -/
def plan (env : Environment) (arguments : List Text) : Plan :=
  if arguments = [] then .finished { exit := 2, stderr := Usage.program.help }
  else
    match Arguments.scan .program arguments with
    | .error e => .finished (usageError .program e)
    | .ok a =>
      match request? a with
      | some output => .finished output
      | none =>
        match a.operands with
        | [] => .finished (usageError .program .missingCommand)
        | name :: rest =>
          match Command.ofName? name with
          | none => .finished (unknownCommand name (name :: rest))
          | some c =>
            let verbose := a.has .verbose || (Settings.ofEnvironment env).level.showsDebug
            planCommand env verbose c rest

end ScopedStyles.CommandLine
