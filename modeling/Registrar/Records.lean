import Registrar.Ascending
import Registrar.Enrollment
import Registrar.Requirement

/-!
# Academic records

`Records` holds courses, majors, requirements, students and enrollments.  A write is refused with
`Refusal.conflict` where the record exists already and with `Refusal.notFound` where it refers to
one that does not; a refused write changes nothing.

Courses and requirements are listed by ascending id, enrollments in the order in which they were
recorded.
-/

namespace Registrar

/-- Why a store does not do what it is asked to. -/
inductive Refusal where
  | conflict
  | notFound
  | unavailable (reason : String)
  deriving DecidableEq, Repr

/-- What is said of a refusal. -/
def Refusal.message : Refusal → String
  | .conflict => "record already exists"
  | .notFound => "record not found"
  | .unavailable reason => "repository unavailable: " ++ reason

/-- A student and the majors declared so far, in order. -/
structure Student where
  id : StudentId
  name : String
  declaredMajors : List DeclaredMajor
  deriving DecidableEq

/-- The student with one more declared major, if this is the student who declares it. -/
def Student.declaring (id : StudentId) (d : DeclaredMajor) (s : Student) : Student :=
  if s.id == id then { s with declaredMajors := s.declaredMajors ++ [d] } else s

/-- The academic records. -/
structure Records where
  courses : List Course
  majors : List Major
  requirements : List Requirement
  students : List Student
  enrollments : List Enrollment
  deriving DecidableEq

/-- How many records there are of each kind. -/
structure RecordCounts where
  courses : Nat
  majors : Nat
  requirements : Nat
  students : Nat
  enrollments : Nat
  deriving DecidableEq, Repr

namespace Records

/-- No records. -/
def empty : Records := ⟨[], [], [], [], []⟩

instance : Inhabited Records := ⟨empty⟩

/-! ### Queries -/

/-- The course with this id. -/
def course? (r : Records) (id : CourseId) : Option Course :=
  r.courses.find? fun c => c.id == id

/-- The major with this key. -/
def major? (r : Records) (key : MajorKey) : Option Major :=
  r.majors.find? fun m => m.key == key

/-- The requirement with this id. -/
def requirement? (r : Records) (id : RequirementId) : Option Requirement :=
  r.requirements.find? fun q => q.id == id

/-- The requirements of a major, by ascending id. -/
def requirementsOf (r : Records) (key : MajorKey) : List Requirement :=
  r.requirements.filter fun q => q.major == key

/-- The student with this id. -/
def student? (r : Records) (id : StudentId) : Option Student :=
  r.students.find? fun s => s.id == id

/-- The majors that a student has declared, in order; none for a student nobody knows. -/
def declaredMajors (r : Records) (id : StudentId) : List DeclaredMajor :=
  match r.student? id with
  | some s => s.declaredMajors
  | none => []

/-- The courses in which a student has an enrollment of a status, ascending, each once. -/
def coursesWithStatus (r : Records) (student : StudentId) (status : EnrollmentStatus) :
    List CourseId :=
  let matching := r.enrollments.filter fun e => e.student == student && e.status == status
  ascending (matching.map Enrollment.course)

/-- The courses that a student has completed. -/
def completedCourses (r : Records) (student : StudentId) : List CourseId :=
  r.coursesWithStatus student .completed

/-- The courses that a student is enrolled in. -/
def coursesInProgress (r : Records) (student : StudentId) : List CourseId :=
  r.coursesWithStatus student .inProgress

/-- How many records there are of each kind. -/
def counts (r : Records) : RecordCounts :=
  ⟨r.courses.length, r.majors.length, r.requirements.length, r.students.length,
    r.enrollments.length⟩

/-! ### Writes -/

/-- Adds a course. -/
def insertCourse (r : Records) (c : Course) : Except Refusal Records :=
  if (r.course? c.id).isSome then .error .conflict
  else .ok { r with courses := insertAscending Course.id c r.courses }

/-- Adds a major. -/
def insertMajor (r : Records) (m : Major) : Except Refusal Records :=
  if (r.major? m.key).isSome then .error .conflict
  else .ok { r with majors := r.majors ++ [m] }

/-- Adds a requirement to a major. -/
def insertRequirement (r : Records) (q : Requirement) : Except Refusal Records :=
  if (r.requirement? q.id).isSome then .error .conflict
  else if (r.major? q.major).isNone then .error .notFound
  else .ok { r with requirements := insertAscending Requirement.id q r.requirements }

/-- Adds a student, with declared majors as they are given. -/
def insertStudent (r : Records) (s : Student) : Except Refusal Records :=
  if (r.student? s.id).isSome then .error .conflict
  else .ok { r with students := r.students ++ [s] }

/-- Declares a major for a student, who may declare each once. -/
def declareMajor (r : Records) (id : StudentId) (d : DeclaredMajor) : Except Refusal Records :=
  if (r.major? d.major).isNone then .error .notFound
  else match r.student? id with
    | none => .error .notFound
    | some s =>
      if s.declaredMajors.any fun known => known.major == d.major then .error .conflict
      else .ok { r with students := r.students.map (Student.declaring id d) }

/-- Are the student and the course of an enrollment on record? -/
def knows (r : Records) (e : Enrollment) : Bool :=
  (r.student? e.student).isSome && (r.course? e.course).isSome

/-- Records an enrollment with a new key. -/
def recordEnrollment (r : Records) (e : Enrollment) : Except Refusal Records :=
  if !r.knows e then .error .notFound
  else if r.enrollments.any fun known => known.sameKey e then .error .conflict
  else .ok { r with enrollments := r.enrollments ++ [e] }

/-- The enrollments with the status of one updated, which is added if its key is new. -/
def settle (e : Enrollment) : List Enrollment → List Enrollment
  | [] => [e]
  | known :: rest =>
    if known.sameKey e then { known with status := e.status } :: rest
    else known :: settle e rest

/-! ### Batches -/

/-- A change made in place: it leaves records behind also where it is refused. -/
abbrev Change (α : Type) := EStateM Refusal Records α

/-- Settles enrollments in order, each as soon as its turn comes; answers with the number of new
keys. -/
def settleAll : List Enrollment → Change Nat
  | [] => pure 0
  | e :: rest => do
    let r ← get
    set { r with enrollments := settle e r.enrollments }
    let others ← settleAll rest
    pure (if r.enrollments.any fun known => known.sameKey e then others else others + 1)

/-- Settles a batch of enrollments, once every one of them is found to be of a student and a
course on record. -/
def settleBatch (batch : List Enrollment) : Change Nat := do
  if batch.all (← get).knows then settleAll batch else throw .notFound

/-- Applies a batch of enrollments in order; answers with the number of new keys. -/
def applyEnrollments (r : Records) (batch : List Enrollment) : Except Refusal (Nat × Records) :=
  match settleBatch batch r with
  | .ok added r => .ok (added, r)
  | .error refusal _ => .error refusal

end Records

namespace RecordCounts

open Json

/-- Writes the counts. -/
def toJson (c : RecordCounts) : Value :=
  .object
    [("courses", .natural c.courses), ("majors", .natural c.majors),
      ("requirements", .natural c.requirements), ("students", .natural c.students),
      ("enrollments", .natural c.enrollments)]

end RecordCounts

end Registrar
