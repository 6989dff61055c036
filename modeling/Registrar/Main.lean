import Registrar.Command.Run
import Std.Time.Zoned

/-!
# The program

`main` supplies a run with the files, the environment and the day, prints what it prints and ends
with its exit code.  Listening at the address of a service is left to the process that hosts it:
the program says where the service would be, once it is ready.
-/

namespace Registrar

/-- Why a file cannot be read. -/
def fileError : IO.Error → FileError
  | .noFileOrDirectory _ _ _ => .missing
  | .inappropriateType _ 20 _ => .notDirectory
  | .inappropriateType _ 21 _ => .directory
  | .invalidArgument _ 36 _ => .nameTooLong
  | .permissionDenied _ _ _ => .other "Permission denied (os error 13)"
  | error => .other (toString error)

/-- Reads files from disk. -/
def readFromDisk (path : String) : IO (Except FileError Text.Bytes) := do
  try
    let contents ← IO.FS.readBinFile path
    pure (.ok contents.toList)
  catch error => pure (.error (fileError error))

/-- The variables that the program looks at. -/
def variableNames : List String :=
  ["APP_ENV", "APP_HOST", "APP_PORT", "APP_LOG_LEVEL", "PLANNER_MAX_PREREQUISITE_DEPTH",
    "PLANNER_CATALOG_PATH", "RUST_LOG"]

/-- The values of those variables that are set. -/
def readEnvironment : IO Environment :=
  variableNames.filterMapM fun name => do
    pure ((← IO.getEnv name).map fun value => (name, value))

/-- The day, where the program runs. -/
def readToday : IO Calendar.Date := do
  let now ← Std.Time.PlainDate.now
  match Calendar.Date.ofParts? now.year now.month.toNat now.day.toNat with
  | some today => pure today
  | none => throw (IO.userError "the day is out of range")

/-- Runs the program; answers with its exit code. -/
def runProgram (arguments : List String) : IO UInt32 := do
  let outcome ← Command.run readFromDisk (← readEnvironment) (← readToday) arguments
  IO.print outcome.output
  IO.eprint outcome.complaint
  match outcome with
  | .serving endpoint _ => IO.println ("degree planner ready at " ++ endpoint)
  | _ => pure ()
  pure outcome.exitCode

end Registrar

/-- Runs the program. -/
def main (arguments : List String) : IO UInt32 :=
  Registrar.runProgram arguments
