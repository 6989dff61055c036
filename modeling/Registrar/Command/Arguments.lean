import Registrar.Enrollment
import Registrar.Major
import Registrar.Text.Natural
import Registrar.Text.Split

/-!
# The command line

`Demand.read` makes out what the arguments of the program ask for: help, the version, or an
`Invocation` of one of the commands `serve`, `eligibility` and `progress`, of which `serve` is
meant where none is named.

The options of a command are long names with a value, as `--student 7` or `--student=7`, and the
flag `--json`.  A value on its own may not begin with a hyphen, and is looked at only when the
next option has been recognised: up to there an unknown argument is the error that counts.
-/

namespace Registrar.Command

/-- Where a command takes its records from. -/
structure Sources where
  catalog : Option String
  transcript : Option String
  deriving DecidableEq, Repr

/-- A command and its options. -/
inductive Invocation where
  | serve (host : Option String) (port : Option UInt16) (sources : Sources)
  | eligibility (student : StudentId) (course : CourseId) (json : Bool) (sources : Sources)
  | progress (student : StudentId) (major : Option MajorKey) (json : Bool) (sources : Sources)
  deriving DecidableEq, Repr

/-- What the arguments ask for. -/
inductive Demand where
  | help
  | version
  | run (invocation : Option Invocation)
  deriving DecidableEq, Repr

/-- Why arguments are not understood. -/
inductive ArgumentError where
  /-- The value of an option does not read. -/
  | badValue (option value : String)
  /-- An option has no value, or an empty path. -/
  | missingValue (option : String)
  /-- A flag has a value. -/
  | surplusValue (option : String)
  | repeatedOption (option : String)
  | missingOption (option : String)
  | unknownArgument (argument : String)
  | unknownCommand (name : String)
  deriving DecidableEq, Repr

/-- What is said of arguments that are not understood. -/
def ArgumentError.message : ArgumentError → String
  | .badValue option value => "invalid value '" ++ value ++ "' for '--" ++ option ++ "'"
  | .missingValue option => "a value is required for '--" ++ option ++ "'"
  | .surplusValue option => "no value is allowed for '--" ++ option ++ "'"
  | .repeatedOption option => "'--" ++ option ++ "' cannot be used more than once"
  | .missingOption option => "'--" ++ option ++ "' is required"
  | .unknownArgument argument => "unexpected argument '" ++ argument ++ "'"
  | .unknownCommand name => "unrecognized command '" ++ name ++ "'"

/-! ### Words -/

/-- The form of an argument. -/
inductive Word where
  /-- A long name, perhaps with a value behind an equals sign. -/
  | long (name : String) (value : Option String)
  /-- Letters behind one hyphen, by the first of them. -/
  | short (letter : Char)
  /-- Two hyphens, behind which there are no options. -/
  | separator
  /-- Anything else, a hyphen on its own included. -/
  | plain
  deriving DecidableEq, Repr

/-- The form of an argument. -/
def Word.ofText (s : String) : Word :=
  match s.toList with
  | ['-', '-'] => .separator
  | '-' :: '-' :: rest =>
    let name := rest.takeWhile (· != '=')
    let value := match rest.dropWhile (· != '=') with
      | [] => none
      | _ :: value => some (String.ofList value)
    .long (String.ofList name) value
  | '-' :: letter :: _ => .short letter
  | _ => .plain

/-! ### Options -/

/-- The options that commands have. -/
inductive Field where
  | host
  | port
  | catalog
  | transcript
  | student
  | course
  | major
  | json
  deriving DecidableEq, Repr

/-- The long name of an option. -/
def Field.name : Field → String
  | .host => "host"
  | .port => "port"
  | .catalog => "catalog"
  | .transcript => "transcript"
  | .student => "student"
  | .course => "course"
  | .major => "major"
  | .json => "json"

/-- The commands. -/
inductive Verb where
  | serve
  | eligibility
  | progress
  deriving DecidableEq, Repr

/-- The command of this name. -/
def Verb.named? : String → Option Verb
  | "serve" => some .serve
  | "eligibility" => some .eligibility
  | "progress" => some .progress
  | _ => none

/-- The options of a command. -/
def Verb.fields : Verb → List Field
  | .serve => [.host, .port, .catalog, .transcript]
  | .eligibility => [.catalog, .transcript, .student, .course, .json]
  | .progress => [.catalog, .transcript, .student, .major, .json]

/-- The option of a command that has this name. -/
def Verb.field? (v : Verb) (name : String) : Option Field :=
  v.fields.find? fun f => f.name == name

/-- The options given so far. -/
structure Given where
  host : Option String
  port : Option UInt16
  catalog : Option String
  transcript : Option String
  student : Option StudentId
  course : Option CourseId
  major : Option MajorKey
  json : Bool
  deriving DecidableEq, Repr

namespace Given

/-- No options. -/
def empty : Given := ⟨none, none, none, none, none, none, none, false⟩

/-- Has the option been given? -/
def has (g : Given) : Field → Bool
  | .host => g.host.isSome
  | .port => g.port.isSome
  | .catalog => g.catalog.isSome
  | .transcript => g.transcript.isSome
  | .student => g.student.isSome
  | .course => g.course.isSome
  | .major => g.major.isSome
  | .json => g.json

/-- Where the records come from. -/
def sources (g : Given) : Sources := ⟨g.catalog, g.transcript⟩

/-- What an option's value reads as. -/
def reading {α : Type} (f : Field) (value : String) : Option α → Except ArgumentError α
  | some a => .ok a
  | none => .error (.badValue f.name value)

/-- A path, which may not be empty. -/
def readPath (f : Field) (value : String) : Except ArgumentError String :=
  if value = "" then .error (.missingValue f.name) else .ok value

/-- Sets an option to a value. -/
def set (g : Given) (f : Field) (value : String) : Except ArgumentError Given :=
  match f with
  | .host => .ok { g with host := value }
  | .port => do pure { g with port := ← reading f value (Text.readUInt16? value) }
  | .catalog => do pure { g with catalog := ← readPath f value }
  | .transcript => do pure { g with transcript := ← readPath f value }
  | .student => do pure { g with student := ← reading f value (Text.readUInt64? value) }
  | .course => do pure { g with course := ← reading f value (Text.readUInt64? value) }
  | .major => do pure { g with major := ← reading f value (MajorKey.read? value) }
  | .json => .ok { g with json := true }

/-- Takes up an option that has been given, the first time only. -/
def accept (g : Given) (f : Field) (value : String) : Except ArgumentError Given :=
  if g.has f then .error (.repeatedOption f.name) else g.set f value

/-- The value of an option that a command needs. -/
def require {α : Type} (f : Field) : Option α → Except ArgumentError α
  | some a => .ok a
  | none => .error (.missingOption f.name)

/-- The command with the options given. -/
def invocation (g : Given) : Verb → Except ArgumentError Invocation
  | .serve => .ok (.serve g.host g.port g.sources)
  | .eligibility => do
    let student ← require .student g.student
    let course ← require .course g.course
    pure (.eligibility student course g.json g.sources)
  | .progress => do
    let student ← require .student g.student
    pure (.progress student g.major g.json g.sources)

end Given

/-! ### Arguments of a command -/

/-- How far the arguments of a command have been read. -/
structure Progress where
  given : Given
  /-- The option met last, and its value if that has come. -/
  pending : Option (Field × Option String)
  deriving DecidableEq, Repr

namespace Progress

/-- Before the first argument. -/
def start : Progress := ⟨.empty, none⟩

/-- The options given, the pending one included. -/
def settle (p : Progress) : Except ArgumentError Given :=
  match p.pending with
  | none => .ok p.given
  | some (f, none) => .error (.missingValue f.name)
  | some (f, some value) => p.given.accept f value

/-- Takes an option, perhaps with a value behind an equals sign. -/
def takeOption (p : Progress) (f : Field) (value : Option String) :
    Except ArgumentError Progress :=
  match f, value with
  | .json, some _ => .error (.surplusValue f.name)
  | .json, none => do pure ⟨← (← p.settle).accept f "", none⟩
  | _, some value => do pure ⟨← (← p.settle).accept f value, none⟩
  | _, none => do pure ⟨← p.settle, some (f, none)⟩

/-- Takes an argument that is no option. -/
def takePlain (p : Progress) (word : String) : Except ArgumentError Progress :=
  match p.pending with
  | some (f, none) => .ok { p with pending := some (f, some word) }
  | _ => .error (.unknownArgument word)

end Progress

/-- Reads the arguments behind the name of a command. -/
def readOptions (verb : Verb) : Progress → List String → Except ArgumentError Demand
  | p, [] => do
    let invocation ← (← p.settle).invocation verb
    pure (.run invocation)
  | p, word :: words =>
    match Word.ofText word with
    | .plain => do readOptions verb (← p.takePlain word) words
    | .short 'h' => do
      let _ ← p.settle
      pure .help
    | .short _ => .error (.unknownArgument word)
    | .long "help" none => do
      let _ ← p.settle
      pure .help
    | .long "help" (some _) => .error (.surplusValue "help")
    | .long name value =>
      match verb.field? name with
      | some f => do readOptions verb (← p.takeOption f value) words
      | none => .error (.unknownArgument word)
    | .separator =>
      match words with
      | [] => do
        let invocation ← (← p.settle).invocation verb
        pure (.run invocation)
      -- No command takes plain arguments.
      | extra :: _ => .error (.unknownArgument extra)

/-! ### The whole line -/

/-- The word that asks for help, alone or with the name of a command. -/
def helpWord : String := "help"

/-- Is this the name of a command, or the word for help? -/
def isCommandWord (word : String) : Bool :=
  word == helpWord || (Verb.named? word).isSome

/-- What the words behind `help` ask for. -/
def readTopic : List String → Except ArgumentError Demand
  | [] => .ok .help
  | [topic] => if isCommandWord topic then .ok .help else .error (.unknownCommand topic)
  | topic :: next :: _ =>
    .error (.unknownCommand (if isCommandWord topic then next else topic))

/-- What a word at the place of a command asks for, and the words behind it. -/
def readCommand (word : String) (words : List String) : Except ArgumentError Demand :=
  if word == helpWord then readTopic words
  else match Verb.named? word with
    | some verb => readOptions verb .start words
    | none => .error (.unknownCommand word)

/-- Makes out what the arguments ask for. -/
def Demand.read : List String → Except ArgumentError Demand
  | [] => .ok (.run none)
  | word :: words =>
    match Word.ofText word with
    | .plain => readCommand word words
    | .short 'h' | .long "help" none => .ok .help
    | .short 'V' | .long "version" none => .ok .version
    | .long "help" (some _) => .error (.surplusValue "help")
    | .long "version" (some _) => .error (.surplusValue "version")
    | .short _ | .long _ _ => .error (.unknownArgument word)
    | .separator =>
      match words with
      | [] => .ok (.run none)
      | word :: _ =>
        .error (if isCommandWord word then .unknownArgument word else .unknownCommand word)

end Registrar.Command
