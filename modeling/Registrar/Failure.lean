import Registrar.Http.Routes
import Registrar.Settings

/-!
# Failures of the program

A `Failure` is whatever keeps the program from doing what it was started for.  Its message names
the part that failed and then the cause, and `Failure.causes` lists the causes from the outermost
in.
-/

namespace Registrar

/-- Why messages of the running program are not logged. -/
inductive LogError where
  | invalidFilter (value : String)
  | notInstalled (reason : String)
  deriving DecidableEq, Repr

/-- What is said of logging that is not set up. -/
def LogError.message : LogError → String
  | .invalidFilter value => "APP_LOG_LEVEL '" ++ value ++ "' is not a valid tracing filter"
  | .notInstalled reason => "could not install tracing subscriber: " ++ reason

/-- Why the program fails. -/
inductive Failure where
  | settings (cause : SettingsError)
  | logging (cause : LogError)
  | io (reason : String)
  | server (reason : String)
  | catalog (cause : ImportError)
  | planner (cause : AdvisingError)
  deriving DecidableEq, Repr

/-- What is said of an address that cannot be read. -/
def addressComplaint : String := "invalid IP address syntax"

/-- The causes behind a variable's error. -/
def SettingsError.causes : SettingsError → List String
  | .invalidHost => [addressComplaint]
  | _ => []

/-- The causes behind an error of logging. -/
def LogError.causes : LogError → List String
  | .invalidFilter _ => []
  | .notInstalled reason => [reason]

/-- The causes behind an import that failed. -/
def ImportError.causes : ImportError → List String
  | .unreadable reason => [reason]
  | .unreadCatalog reason => [reason]
  | .unreadTranscript reason => [reason]
  | .json fault => [fault.message]
  | .csv fault => [fault.message]
  | .refused refusal => [refusal.message]
  | .prerequisites _ cause => [cause.message]
  | .unknownCourse _ _ => []
  | .unknownStatus _ _ => []

namespace Failure

/-- What is said of a failure. -/
def message : Failure → String
  | .settings cause => "configuration error: " ++ cause.message
  | .logging cause => "telemetry error: " ++ cause.message
  | .io reason => "io error: " ++ reason
  | .server reason => "server error: " ++ reason
  | .catalog cause => "catalog error: " ++ cause.message
  | .planner cause => "planner error: " ++ cause.message

/-- The causes of a failure from the outermost in. -/
def causes : Failure → List String
  | .settings cause => cause.message :: cause.causes
  | .logging cause => cause.message :: cause.causes
  | .io reason => [reason]
  | .server reason => [reason, reason]
  | .catalog cause => cause.message :: cause.causes
  | .planner cause => [cause.message]

/-- The status code of the answer that reports a failure. -/
def status : Failure → Nat
  | .catalog _ => 400
  | .planner (.unknown _) => 404
  | .planner (.invalid _) => 422
  | _ => 500

/-- The answer that reports a failure. -/
def response (f : Failure) : Http.Response :=
  .failure f.status f.message

end Failure

end Registrar
