import Registrar.Command.Arguments
import Registrar.Failure
import Registrar.LogFilter
import Registrar.Report
import Registrar.SettingsFile

/-!
# Runs of the program

`run` does what the arguments ask for and says how that ends.  Files are read in whatever monad
the caller supplies, so that a run is a function of the arguments, the environment, the day and
the contents of the files.

The variables of the settings file are added to the environment first, and a file that sets one
to a text no variable can have ends the run.  Then the settings are read, then the catalog, then
the transcript.  A report is made after that; a service is made ready after its address has been
looked at, and before its catalog is read the filter for log messages is.
-/

namespace Registrar.Command

/-- How a run ends. -/
inductive Outcome where
  /-- The text was to be printed. -/
  | printed (text : String)
  | misunderstood (error : ArgumentError)
  | failed (cause : Failure)
  /-- A settings file sets a variable to a text that no variable can have. -/
  | aborted
  /-- The service is to listen at an address. -/
  | serving (endpoint : String) (service : Http.Service)

namespace Outcome

/-- The exit code. -/
def exitCode : Outcome → UInt32
  | .printed _ => 0
  | .misunderstood _ => 2
  | .failed _ => 1
  | .aborted => 101
  | .serving _ _ => 0

/-- What is printed. -/
def output : Outcome → String
  | .printed text => text
  | _ => ""

/-- What is printed about what went wrong. -/
def complaint : Outcome → String
  | .misunderstood error => "error: " ++ error.message ++ "\n"
  | .failed cause => "degree planner error: " ++ cause.message ++ "\n"
  | .aborted => "failed to set an environment variable: its value holds a null character\n"
  | _ => ""

end Outcome

/-- What is printed about the version. -/
def versionText : String := "Degree Planner 0.1.0\n"

/-- What is printed about the use of the program. -/
def helpText : String :=
  "Serve or query prerequisite eligibility and degree progress\n\n"
    ++ "Usage: degree-planner [COMMAND]\n\n"
    ++ "Commands:\n"
    ++ "  serve        Start the HTTP service (default command)\n"
    ++ "               [--host HOST] [--port PORT]\n"
    ++ "  eligibility  Check whether a student may take a course and list what is missing\n"
    ++ "               --student ID --course ID [--json]\n"
    ++ "  progress     Print progress toward a student's declared majors\n"
    ++ "               --student ID [--major CODE_DESIGNATION] [--json]\n"
    ++ "  help         Print this message\n\n"
    ++ "Every command takes [--catalog FILE] [--transcript FILE].\n"

/-! ### Making ready -/

section

variable {m : Type → Type} [Monad m]

/-- Reads a file, or says why it cannot be read. -/
abbrev FileReader (m : Type → Type) := String → m (Except FileError Text.Bytes)

/-- What an import has yielded. -/
def imported {α : Type} (outcome : Except ImportError α) : ExceptT Failure m α :=
  ExceptT.mk (pure (outcome.mapError .catalog))

/-- The holdings that a catalog file lists. -/
def readCatalog (files : FileReader m) (path : String) (depthLimit : Nat) :
    ExceptT Failure m Holdings := do
  let contents ← files path
  imported do Holdings.ofBytes (← contents.mapError .ofCatalogFile) depthLimit

/-- The holdings with the transcript in a file applied to them. -/
def readTranscript (files : FileReader m) (path : String) (holdings : Holdings) :
    ExceptT Failure m Holdings := do
  let contents ← files path
  imported do
    let (_, holdings) ← holdings.applyTranscript (← contents.mapError .ofTranscriptFile)
    pure holdings

/-- The catalog with the transcript applied; the path from the arguments counts more than the one
from the settings, and without either there is nothing in the catalog. -/
def load (files : FileReader m) (settings : Settings) (sources : Sources) :
    ExceptT Failure m Holdings := do
  let holdings ← match sources.catalog <|> settings.catalogPath with
    | some path => readCatalog files path settings.depthLimit
    | none => pure Holdings.empty
  match sources.transcript with
  | some path => readTranscript files path holdings
  | none => pure holdings

/-- Settings that have been read. -/
def configured {α : Type} (outcome : Except SettingsError α) : ExceptT Failure m α :=
  ExceptT.mk (pure (outcome.mapError .settings))

/-- A desk over what is loaded. -/
def openDesk (files : FileReader m) (env : Environment) (sources : Sources) :
    ExceptT Failure m Desk := do
  let settings ← configured (Settings.ofEnvironment env)
  pure (Desk.ofHoldings (← load files settings sources) settings.depthLimit)

/-! ### Commands -/

/-- An answer of the desk. -/
def answered {α : Type} (outcome : Except AdvisingError α) : ExceptT Failure m α :=
  ExceptT.mk (pure (outcome.mapError .planner))

/-- A report in JSON, with a line break behind it. -/
def jsonText (v : Json.Value) : String :=
  v.pretty ++ "\n"

/-- The report on whether a student may take a course. -/
def reportEligibility (files : FileReader m) (env : Environment) (today : Calendar.Date)
    (student : StudentId) (course : CourseId) (json : Bool) (sources : Sources) :
    ExceptT Failure m String := do
  let desk ← openDesk files env sources
  let found ← answered (desk.eligibility student course)
  pure (if json then jsonText found.toJson else Report.eligibility student found today)

/-- The report on the progress of a student. -/
def reportProgress (files : FileReader m) (env : Environment) (today : Calendar.Date)
    (student : StudentId) (major : Option MajorKey) (json : Bool) (sources : Sources) :
    ExceptT Failure m String := do
  let desk ← openDesk files env sources
  let audits ← answered (Report.collect desk student major)
  pure
    (if json then jsonText (Report.progressJson audits)
      else Report.progress student audits today)

/-- Looks at the filter for log messages: the variable `RUST_LOG` counts where it is one. -/
def checkLogFilter (env : Environment) (settings : Settings) : Except Failure Unit :=
  if (env.lookup "RUST_LOG").any LogFilter.isValid || LogFilter.isValid settings.logFilter then
    .ok ()
  else .error (.logging (.invalidFilter settings.logFilter))

/-- Makes the service ready. -/
def prepareService (files : FileReader m) (env : Environment) (host : Option String)
    (port : Option UInt16) (sources : Sources) : ExceptT Failure m (String × Http.Service) := do
  let settings ← configured (Settings.ofEnvironment env)
  let settings :=
    { settings with host := host.getD settings.host, port := port.getD settings.port }
  ExceptT.mk (pure (checkLogFilter env settings))
  let holdings ← load files settings sources
  let endpoint ← configured settings.endpoint
  pure (endpoint, ⟨Desk.ofHoldings holdings settings.depthLimit, true⟩)

/-- Carries out a command. -/
def perform (files : FileReader m) (env : Environment) (today : Calendar.Date) :
    Invocation → ExceptT Failure m Outcome
  | .serve host port sources => do
    let (endpoint, service) ← prepareService files env host port sources
    pure (.serving endpoint service)
  | .eligibility student course json sources => do
    pure (.printed (← reportEligibility files env today student course json sources))
  | .progress student major json sources => do
    pure (.printed (← reportProgress files env today student major json sources))

/-! ### The program -/

/-- The command that is meant where none is named. -/
def defaultInvocation : Invocation :=
  .serve none none ⟨none, none⟩

/-- The name of the settings file. -/
def settingsFile : String := ".env"

/-- The variables of the environment, and those of the settings file if there is one; no answer
where the file sets one that cannot be set. -/
def environmentWithFile? (files : FileReader m) (env : Environment) : m (Option Environment) := do
  match ← files settingsFile with
  | .ok bs => pure (env.withFile? bs)
  | .error _ => pure (some env)

/-- Does what the arguments ask for. -/
def run (files : FileReader m) (env : Environment) (today : Calendar.Date)
    (arguments : List String) : m Outcome := do
  match Demand.read arguments with
  | .error error => pure (.misunderstood error)
  | .ok .help => pure (.printed helpText)
  | .ok .version => pure (.printed versionText)
  | .ok (.run invocation) => do
    match ← environmentWithFile? files env with
    | none => pure .aborted
    | some env =>
      match ← (perform files env today (invocation.getD defaultInvocation)).run with
      | .ok outcome => pure outcome
      | .error cause => pure (.failed cause)

end

end Registrar.Command
