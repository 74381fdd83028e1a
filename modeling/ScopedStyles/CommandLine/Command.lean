import ScopedStyles.Text.Basic

/-!
# Commands

The program has two commands. Each of them, and the program itself, has a usage line, a set of
options and a help text.

## Main definitions

* `Switch`, `Command` — the options and the commands.
* `Usage` — what arguments can be for, with the usage line and the help text.
-/

namespace ScopedStyles.CommandLine

/-- What an option asks for. -/
inductive Switch
  | version
  | verbose
  | scope
  | help
  deriving DecidableEq, Repr

/-- Whether an option comes with a value. -/
def Switch.takesValue : Switch → Bool
  | scope => true
  | version | verbose | help => false

/-- What can be done with a source. -/
inductive Command
  | compile
  | check
  deriving DecidableEq, Repr

/-- The commands with their names, in the order of the names. -/
def Command.table : List (Text × Command) :=
  [("check".toList, check), ("compile".toList, compile)]

/-- The command of a name. -/
def Command.ofName? (name : Text) : Option Command :=
  table.lookup name

/-- What arguments can be for: the program as a whole, or one of its commands. -/
inductive Usage
  | program
  | command (c : Command)
  deriving DecidableEq, Repr

namespace Usage

/-- The words that start a run. -/
def path : Usage → Text
  | program => "scopecss".toList
  | command .compile => "scopecss compile".toList
  | command .check => "scopecss check".toList

/-- What may follow the words that start a run. -/
def operands : Usage → Text
  | program => " [OPTIONS] COMMAND [ARGS]...".toList
  | command _ => " [OPTIONS] SOURCE".toList

/-- The options that are spelled with two dashes, in the order of their names. -/
def longSwitches : Usage → List (Text × Switch)
  | program =>
    [("--help".toList, .help), ("--verbose".toList, .verbose), ("--version".toList, .version)]
  | command .compile => [("--help".toList, .help), ("--scope".toList, .scope)]
  | command .check => [("--help".toList, .help)]

/-- The option of a name with two dashes. -/
def longSwitch? (u : Usage) (name : Text) : Option Switch :=
  u.longSwitches.lookup name

/-- The options that are spelled with one dash and one letter. -/
def shortSwitch? (u : Usage) (letter : Char) : Option Switch :=
  if u = program ∧ letter = 'v' then some .verbose else none

/-- Whether options may follow operands. The operands of the program are a command and what
belongs to that, so there the options end with the first of them. -/
def interspersed : Usage → Bool
  | program => false
  | command _ => true

/-- Lines, each with a line end. -/
def ofLines (lines : List String) : Text :=
  lines.flatMap fun line => line.toList ++ ['\n']

/-- What stands under the usage line in the help text. -/
def helpBody : Usage → Text
  | program => ofLines [
      "",
      "  scopecss - compile nested CSS into scope-qualified rules.",
      "",
      "Options:",
      "  --version      Show the version and exit.",
      "  -v, --verbose  Log debug output to stderr",
      "  --help         Show this message and exit.",
      "",
      "Commands:",
      "  check    Parse SOURCE without emitting any rules.",
      "  compile  Parse SOURCE and print one scoped rule per line."]
  | command .compile => ofLines [
      "",
      "  Parse SOURCE and print one scoped rule per line.",
      "",
      "  Use ``-`` to read from stdin.",
      "",
      "Options:",
      "  --scope TEXT  Scope key (default: generate one)",
      "  --help        Show this message and exit."]
  | command .check => ofLines [
      "",
      "  Parse SOURCE without emitting any rules.",
      "",
      "  Exits with code 0 if the source parses, or code 1 with the error and its",
      "  location otherwise.",
      "",
      "Options:",
      "  --help  Show this message and exit."]

/-- The usage line. -/
def line (u : Usage) : Text :=
  "Usage: ".toList ++ u.path ++ u.operands ++ ['\n']

/-- The help text. -/
def help (u : Usage) : Text :=
  u.line ++ u.helpBody

end Usage

/-- The program and its version. -/
def versionLine : Text :=
  "scopecss, version 0.1.0\n".toList

end ScopedStyles.CommandLine
