import ScopedStyles.CommandLine.Command
import ScopedStyles.Text.Quoted
import ScopedStyles.Text.Similar

/-!
# Arguments

The arguments of a command are options and operands. An argument that starts with a dash and goes
on is an option, and two dashes alone end the options. A name that is unknown is answered with the
known names that are similar to it.

## Main definitions

* `UsageError` — what may be wrong with arguments.
* `similarNames` — the names that may have been meant.
* `Arguments.scan` — tells the options from the operands.
-/

namespace ScopedStyles.CommandLine

/-- Why a file cannot be read. -/
inductive OpenFailure
  | notFound
  | isDirectory
  | notDirectory
  | nameTooLong
  | denied
  deriving DecidableEq, Repr

/-- What is said about a file that cannot be read. -/
def OpenFailure.message : OpenFailure → Text
  | notFound => "No such file or directory".toList
  | isDirectory => "Is a directory".toList
  | notDirectory => "Not a directory".toList
  | nameTooLong => "File name too long".toList
  | denied => "Permission denied".toList

/-- What is wrong with arguments. An unknown name comes with the known names that are similar. -/
inductive UsageError
  | noSuchOption (name : Text) (similar : List Text)
  | takesNoValue (name : Text)
  | needsValue (name : Text)
  | missingCommand
  | noSuchCommand (name : Text) (similar : List Text)
  | missingSource
  | cannotOpen (name : Text) (failure : OpenFailure)
  | extraOperands (operands : List Text)
  deriving DecidableEq, Repr

/-- The names of a table that are similar to a word. -/
def similarNames {α : Type} (table : List (Text × α)) (word : Text) : List Text :=
  (table.map (·.1)).filter (·.isSimilar word)

/-- What is said about names that may have been meant. -/
def hint : List Text → Text
  | [] => []
  | [name] => " Did you mean ".toList ++ name.quoted ++ ['?']
  | names =>
    " (Did you mean one of: ".toList ++ ", ".toList.intercalate (names.map Text.quoted) ++
      "?)".toList

namespace UsageError

/-- What is said about wrong arguments. -/
def message : UsageError → Text
  | noSuchOption name similar =>
    "No such option ".toList ++ name.quoted ++ ['.'] ++ hint similar
  | takesNoValue name => "Option ".toList ++ name.quoted ++ " does not take a value.".toList
  | needsValue name => "Option ".toList ++ name.quoted ++ " requires an argument.".toList
  | missingCommand => "Missing command.".toList
  | noSuchCommand name similar =>
    "No such command ".toList ++ name.quoted ++ ['.'] ++ hint similar
  | missingSource => "Missing argument 'SOURCE'.".toList
  | cannotOpen name failure =>
    "Invalid value for 'SOURCE': '".toList ++ name ++ "': ".toList ++ failure.message
  | extraOperands operands =>
    "Got unexpected extra argument".toList ++ (if operands.length = 1 then [] else ['s']) ++
      " (".toList ++ [' '].intercalate operands ++ [')']

/-- Whether the usage line is shown along with the message. -/
def showsUsage : UsageError → Bool
  | takesNoValue _ | needsValue _ => false
  | _ => true

end UsageError

/-- The options with their values, and the operands, both in their order. -/
structure Arguments where
  switches : List (Switch × Text) := []
  operands : List Text := []
  deriving DecidableEq, Repr

/-- What an argument that is an option says. -/
inductive Reading
  | complete (switches : List (Switch × Text))
  /-- The value of the option is the next argument. -/
  | needsValue (switch : Switch)
  deriving DecidableEq, Repr

namespace Arguments

/-- Whether an argument is an option. -/
def isOption (argument : Text) : Bool :=
  argument.head? = some '-' && argument.length > 1

/-- Reads an argument as a row of letters, each an option without a value. -/
def readLetters (u : Usage) : Text → Except UsageError Reading
  | [] => .ok (.complete [])
  | letter :: letters =>
    match u.shortSwitch? letter with
    | none => .error (.noSuchOption ['-', letter] [])
    | some switch =>
      match readLetters u letters with
      | .ok (.complete switches) => .ok (.complete ((switch, []) :: switches))
      | other => other

/-- Reads an argument as an option. A value may follow an equals sign. -/
def readOption (u : Usage) (argument : Text) : Except UsageError Reading :=
  let (name, value) := match argument.cutAt? '=' with
    | some (name, value) => (name, some value)
    | none => (argument, none)
  match u.longSwitch? name, value with
  | some switch, some value =>
    if switch.takesValue then .ok (.complete [(switch, value)]) else .error (.takesNoValue name)
  | some switch, none =>
    if switch.takesValue then .ok (.needsValue switch) else .ok (.complete [(switch, [])])
  | none, _ =>
    if "--".toList.isPrefixOf argument then
      .error (.noSuchOption name (similarNames u.longSwitches name))
    else readLetters u (argument.drop 1)

/-- Puts options in front. -/
def withSwitches (switches : List (Switch × Text)) (a : Arguments) : Arguments :=
  { a with switches := switches ++ a.switches }

/-- Puts an operand in front. -/
def withOperand (operand : Text) (a : Arguments) : Arguments :=
  { a with operands := operand :: a.operands }

/-- Tells the options from the operands. -/
def scan (u : Usage) : List Text → Except UsageError Arguments
  | [] => .ok {}
  | argument :: rest =>
    if argument = "--".toList then .ok { operands := rest }
    else if isOption argument then
      match readOption u argument with
      | .error e => .error e
      | .ok (.complete switches) => (scan u rest).map (withSwitches switches)
      | .ok (.needsValue switch) =>
        match rest with
        | [] => .error (.needsValue argument)
        | value :: rest => (scan u rest).map (withSwitches [(switch, value)])
    else if u.interspersed then (scan u rest).map (withOperand argument)
    else .ok { operands := argument :: rest }

/-- The last value of an option. -/
def value? (a : Arguments) (switch : Switch) : Option Text :=
  (a.switches.reverse.find? (·.1 = switch)).map (·.2)

/-- Whether an option is given. -/
def has (a : Arguments) (switch : Switch) : Bool :=
  a.switches.any (·.1 = switch)

end Arguments

end ScopedStyles.CommandLine
