import Registrar.Catalog.File
import Registrar.Files
import Registrar.Prerequisite.Store
import Registrar.Transcript

/-!
# Importing catalogs and transcripts

`Holdings` are the records and the store of prerequisites together.  `Holdings.ofFile` builds
them from a catalog file, courses first, so that whatever refers to a course can be checked;
`Holdings.applyTranscript` applies the rows of a transcript to them, all or none.  Either stops
at the first fault and names it.
-/

namespace Registrar

/-- The records and the prerequisites. -/
structure Holdings where
  records : Records
  prerequisites : Prerequisite.Store
  deriving DecidableEq

/-- Why a catalog or a transcript is not imported. -/
inductive ImportError where
  /-- A file cannot be read. -/
  | unreadable (reason : String)
  /-- The catalog can be opened, but not be read. -/
  | unreadCatalog (reason : String)
  /-- The transcript can be opened, but not be read. -/
  | unreadTranscript (reason : String)
  | json (fault : Json.Fault)
  | csv (fault : Csv.Fault)
  | refused (refusal : Refusal)
  | unknownCourse (course : CourseId) (referrer : String)
  | prerequisites (course : CourseId) (cause : Prerequisite.Error)
  | unknownStatus (line : Nat) (value : String)
  deriving DecidableEq, Repr

/-- What is said of a text that does not decode. -/
def Json.Fault.message : Json.Fault → String
  | .truncated => "the text ends too early"
  | .malformed => "the text is malformed"
  | .unsuitable => "a value has the wrong shape"

/-- What is said of an import that failed. -/
def ImportError.message : ImportError → String
  | .unreadable reason => "failed to read catalog: " ++ reason
  | .unreadCatalog reason => "invalid catalog JSON: " ++ reason
  | .unreadTranscript reason => "invalid transcript CSV data: " ++ reason
  | .json fault => "invalid catalog JSON: " ++ fault.message
  | .csv fault => "invalid transcript CSV data: " ++ fault.message
  | .refused refusal => "could not store catalog data: " ++ refusal.message
  | .unknownCourse course referrer =>
    referrer ++ " references unknown course " ++ toString course.toNat
  | .prerequisites course cause =>
    "invalid prerequisites for course " ++ toString course.toNat ++ ": " ++ cause.message
  | .unknownStatus line value =>
    "unknown enrollment status '" ++ value ++ "' on transcript line " ++ toString line

/-- Why a catalog is not imported from a file that cannot be read. -/
def ImportError.ofCatalogFile (e : FileError) : ImportError :=
  match e with
  | .directory => .unreadCatalog e.message
  | _ => .unreadable e.message

/-- Why a transcript is not imported from a file that cannot be read. -/
def ImportError.ofTranscriptFile (e : FileError) : ImportError :=
  match e with
  | .directory => .unreadTranscript e.message
  | _ => .unreadable e.message

namespace Holdings

/-- Nothing at all. -/
def empty : Holdings := ⟨.empty, .empty⟩

instance : Inhabited Holdings := ⟨empty⟩

/-- The outcome of a write to the records. -/
def refusing {α : Type} (outcome : Except Refusal α) : Except ImportError α :=
  outcome.mapError .refused

/-! ### Catalog files -/

/-- Adds the listed courses. -/
def addCourses (records : Records) (courses : List ListedCourse) : Except ImportError Records :=
  courses.foldlM (fun records c => refusing (records.insertCourse c.course)) records

/-- Stores the prerequisites of a listed course, if it has any, after all of their courses have
been found on record. -/
def addPrerequisites (records : Records) (limit : Nat) (store : Prerequisite.Store)
    (c : ListedCourse) : Except ImportError Prerequisite.Store :=
  match c.prerequisites with
  | none => .ok store
  | some spec => do
    let tree ← (Prerequisite.Tree.ofSpec spec limit).mapError (.prerequisites c.id)
    match tree.courses.find? fun id => (records.course? id).isNone with
    | some unknown =>
      .error (.unknownCourse unknown ("prerequisites of course " ++ toString c.id.toNat))
    | none => .ok (store.replace c.id tree).2

/-- The course that something refers to as it is on record. -/
def findCourse (records : Records) (referrer : String) (id : CourseId) :
    Except ImportError Course :=
  match records.course? id with
  | some c => .ok c
  | none => .error (.unknownCourse id referrer)

/-- The courses of a listed requirement as they are on record. -/
def findCourses (records : Records) (referrer : String) (ids : List CourseId) :
    Except ImportError (List Course) :=
  ids.mapM (findCourse records referrer)

/-- Adds a listed requirement to its major, each of its courses once. -/
def addRequirement (key : MajorKey) (records : Records) (q : ListedRequirement) :
    Except ImportError Records := do
  let courses ← findCourses records ("requirement " ++ toString q.id.toNat) q.courses
  let requirement : Requirement := ⟨q.id, key, q.name, q.description, q.minCredits, courses⟩
  refusing (records.insertRequirement requirement.withDistinctCourses)

/-- Adds a listed major and its requirements. -/
def addMajor (records : Records) (m : ListedMajor) : Except ImportError Records := do
  let records ← refusing (records.insertMajor m.major)
  m.requirements.foldlM (addRequirement m.key) records

/-- Adds a listed enrollment of a student. -/
def addEnrollment (student : StudentId) (records : Records) (e : ListedEnrollment) :
    Except ImportError Records :=
  if (records.course? e.course).isNone then
    .error (.unknownCourse e.course ("enrollments of student " ++ toString student.toNat))
  else refusing (records.recordEnrollment (e.enrollment student))

/-- Adds a listed student, then the declared majors, then the enrollments. -/
def addStudent (records : Records) (s : ListedStudent) : Except ImportError Records := do
  let records ← refusing (records.insertStudent ⟨s.id, s.name, []⟩)
  let records ← s.declaredMajors.foldlM
    (fun records d => refusing (records.declareMajor s.id d.declaredMajor)) records
  s.enrollments.foldlM (addEnrollment s.id) records

/-- Builds holdings from what a catalog file lists, trees being limited to a depth. -/
def ofFile (file : CatalogFile) (limit : Nat) : Except ImportError Holdings := do
  -- All courses come first, so that prerequisites may name courses listed further on.
  let records ← addCourses .empty file.courses
  let store ← file.courses.foldlM (addPrerequisites records limit) .empty
  let records ← file.majors.foldlM addMajor records
  let records ← file.students.foldlM addStudent records
  pure ⟨records, store⟩

/-- Builds holdings from the bytes of a catalog file. -/
def ofBytes (bs : Text.Bytes) (limit : Nat) : Except ImportError Holdings := do
  let file ← (CatalogFile.read bs).mapError .json
  ofFile file limit

/-! ### Transcripts -/

/-- The enrollment of a transcript entry whose status has a meaning. -/
def enrollmentOf (entry : TranscriptEntry) : Except ImportError Enrollment :=
  match EnrollmentStatus.read? entry.status with
  | some status => .ok ⟨entry.student, entry.course, entry.semester, status⟩
  | none => .error (.unknownStatus entry.line entry.status)

/-- A change made in place: it leaves holdings behind also where it fails. -/
abbrev Change (α : Type) := EStateM ImportError Holdings α

/-- Carries out a change of the records. -/
def onRecords {α : Type} (change : Records.Change α) : Change α := fun h =>
  match change h.records with
  | .ok a records => .ok a { h with records }
  | .error refusal records => .error (.refused refusal) { h with records }

/-- Applies a transcript in place: a row with the key of an enrollment on record updates its
status, and any other is recorded.  Answers with the number of rows. -/
def importTranscript (bs : Text.Bytes) : Change Nat := do
  let entries ← ofExcept ((Transcript.read bs).mapError .csv)
  -- Every status is known before the first row is applied.
  let batch ← ofExcept (entries.mapM enrollmentOf)
  let _ ← onRecords (Records.settleBatch batch)
  pure batch.length

/-- Applies a transcript; answers with the number of rows. -/
def applyTranscript (h : Holdings) (bs : Text.Bytes) : Except ImportError (Nat × Holdings) :=
  match importTranscript bs h with
  | .ok rows h => .ok (rows, h)
  | .error e _ => .error e

end Holdings

end Registrar
