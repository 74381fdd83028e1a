import ScopedStyles.CommandLine.Arguments
import ScopedStyles.Event
import ScopedStyles.Text.Control

/-!
# Output

What a run of the program leaves behind: an exit code and two texts, one for results and one for
messages. Neither goes to a terminal, so control sequences are left out of what is said; the log
keeps them.

## Main definitions

* `Output` — what is left behind.
* `Output.usageError` — the answer to wrong arguments.
-/

namespace ScopedStyles.CommandLine

/-- What a run leaves behind. -/
structure Output where
  exit : Nat
  stdout : Text := []
  stderr : Text := []
  deriving DecidableEq, Repr

namespace Output

/-- A message on lines of its own. -/
def say (message : Text) : Text :=
  Text.withoutControls message ++ ['\n']

/-- The log of some events. -/
def log (events : List Event) : Text :=
  events.flatMap fun event => event.record.text

/-- A text that was asked for. -/
def information (text : Text) : Output where
  exit := 0
  stdout := text

/-- The answer to wrong arguments. -/
def usageError (u : Usage) (e : UsageError) : Output where
  exit := 2
  stderr :=
    (if e.showsUsage then
      u.line ++ "Try '".toList ++ u.path ++ " --help' for help.\n\n".toList
    else []) ++ say ("Error: ".toList ++ e.message)

end Output

end ScopedStyles.CommandLine
