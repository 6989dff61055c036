import Registrar.Net.Address
import Registrar.Prerequisite.Tree
import Registrar.Text.Case

/-!
# Settings

The program is set up by six variables of its environment, each with a default.
`Settings.ofEnvironment` reads them; a bad port is reported before a bad depth.  The host is
looked at only when its address is needed.
-/

namespace Registrar

/-- The stage that an installation is for. -/
inductive Stage where
  | development
  | test
  | production
  deriving DecidableEq, Repr

/-- How the program is set up. -/
structure Settings where
  stage : Stage
  host : String
  port : UInt16
  logFilter : String
  /-- The depth to which prerequisites are limited. -/
  depthLimit : Nat
  catalogPath : Option String
  deriving DecidableEq, Repr

/-- What is wrong with a variable. -/
inductive SettingsError where
  | invalidPort
  | invalidHost
  | invalidDepth (value : String)
  deriving DecidableEq, Repr

/-- What is said of a variable. -/
def SettingsError.message : SettingsError → String
  | .invalidPort => "APP_PORT must be a valid u16"
  | .invalidHost => "APP_HOST must parse to an IPv4 or IPv6 address"
  | .invalidDepth value =>
    "PLANNER_MAX_PREREQUISITE_DEPTH must be between 1 and "
      ++ toString Prerequisite.maxDepth ++ ", got '" ++ value ++ "'"

/-- The values of variables by name. -/
abbrev Environment := List (String × String)

namespace Settings

/-- The depth to which prerequisites are limited unless a variable says otherwise. -/
def defaultDepthLimit : Nat := 32

/-- The stage that a text means. -/
def stageOf (s : String) : Stage :=
  match Text.asciiLower (Text.trim s) with
  | "prod" | "production" => .production
  | "test" | "ci" => .test
  | _ => .development

/-- Reads a port. -/
def readPort (s : String) : Except SettingsError UInt16 :=
  match Text.readUInt16? s with
  | some port => .ok port
  | none => .error .invalidPort

/-- Reads a limit of depth, blanks around it left out. -/
def readDepth (s : String) : Except SettingsError Nat :=
  match Text.readNatural? 10 (Text.trimChars s.toList) with
  | some n => if 1 ≤ n ∧ n ≤ Prerequisite.maxDepth then .ok n else .error (.invalidDepth s)
  | none => .error (.invalidDepth s)

/-- Reads the variables. -/
def ofEnvironment (env : Environment) : Except SettingsError Settings := do
  let port ← readPort ((env.lookup "APP_PORT").getD "3000")
  let depthLimit ← match env.lookup "PLANNER_MAX_PREREQUISITE_DEPTH" with
    | some s => readDepth s
    | none => pure defaultDepthLimit
  pure
    { stage := stageOf ((env.lookup "APP_ENV").getD "development")
      host := (env.lookup "APP_HOST").getD "127.0.0.1"
      port
      logFilter := (env.lookup "APP_LOG_LEVEL").getD "info"
      depthLimit
      catalogPath := (env.lookup "PLANNER_CATALOG_PATH").filter fun path =>
        !Text.isBlankText path }

/-- The address and the port to serve at, as a text. -/
def endpoint (s : Settings) : Except SettingsError String :=
  if Text.sameUpToCase s.host "localhost" then .ok ((Net.Address.v4 127 0 0 1).withPort s.port)
  else match Net.Address.read? s.host with
    | some address => .ok (address.withPort s.port)
    | none => .error .invalidHost

end Settings

end Registrar
