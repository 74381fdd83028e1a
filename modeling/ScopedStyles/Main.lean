import ScopedStyles.CommandLine.Plan

/-!
# The program

Reads the arguments, the environment and the source, carries out the plan, and writes the output.
-/

namespace ScopedStyles.CommandLine

/-- The lines of a stream from here to its end. -/
partial def readLines (stream : IO.FS.Stream) (before : String) : IO String := do
  let line ← stream.getLine
  if line.isEmpty then return before else readLines stream (before ++ line)

/-- Why a file could not be read. A folder can be opened, so that it is none of the kind that was
looked for shows when it is read, and then the error names no file. -/
def failureOf : IO.Error → Option OpenFailure
  | .noFileOrDirectory .. => some .notFound
  | .permissionDenied .. => some .denied
  | .inappropriateType none .. => some .isDirectory
  | .inappropriateType (some _) .. => some .notDirectory
  | .invalidArgument (some _) _ details =>
    if details = "name too long" then some .nameTooLong else none
  | _ => none

/-- The content at an origin. -/
def Origin.read : Origin → IO (Except OpenFailure Text)
  | stdin => do
    let content ← readLines (← IO.getStdin) ""
    return .ok content.toList
  | file name => do
    try
      let content ← IO.FS.readFile (String.ofList name)
      return .ok content.toList
    catch e =>
      match failureOf e with
      | some failure => return .error failure
      | none => throw e

/-- The values of the variables that matter. -/
def readEnvironment : IO Environment := do
  let names := ["SCOPECSS_PREFIX", "SCOPECSS_LOG_LEVEL"]
  let entries ← names.filterMapM fun name => do
    let value ← IO.getEnv name
    return value.map fun value => (name.toList, value.toList)
  return fun name => entries.lookup name

/-- Carries out a plan. -/
def Plan.perform : Plan → IO Output
  | finished output => return output
  | reading origin next => return next (← origin.read)

end ScopedStyles.CommandLine

open ScopedStyles.CommandLine in
/-- Runs the program. -/
def main (arguments : List String) : IO UInt32 := do
  let output ← (plan (← readEnvironment) (arguments.map String.toList)).perform
  (← IO.getStdout).putStr (String.ofList output.stdout)
  (← IO.getStderr).putStr (String.ofList output.stderr)
  return output.exit.toUInt32
