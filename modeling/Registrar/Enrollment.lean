import Registrar.Course
import Registrar.Text.Blank
import Registrar.Text.Case

/-!
# Enrollments

An enrollment is one attempt of a student at a course in a semester; student, course and semester
are its key.  Transcripts name the status of an enrollment in several ways, which
`EnrollmentStatus.read?` knows; JSON has one name for each.
-/

namespace Registrar

/-- The number by which a student is known. -/
abbrev StudentId := UInt64

/-- How an attempt at a course stands. -/
inductive EnrollmentStatus where
  | inProgress
  | completed
  | dropped
  deriving DecidableEq, Repr

/-- An attempt of a student at a course in a semester. -/
structure Enrollment where
  student : StudentId
  course : CourseId
  semester : String
  status : EnrollmentStatus
  deriving DecidableEq, Repr

namespace Enrollment

/-- Do two enrollments name the same student, course and semester? -/
def sameKey (a b : Enrollment) : Bool :=
  a.student == b.student && a.course == b.course && a.semester == b.semester

end Enrollment

namespace EnrollmentStatus

open Json

/-- The status in JSON. -/
def name : EnrollmentStatus → String
  | .inProgress => "in_progress"
  | .completed => "completed"
  | .dropped => "dropped"

/-- The status with this name in JSON. -/
def named : String → Option EnrollmentStatus
  | "in_progress" => some .inProgress
  | "completed" => some .completed
  | "dropped" => some .dropped
  | _ => none

/-- The status that a transcript means: blanks around it and the case of its letters do not
matter, and hyphens and blanks inside count as underscores. -/
def read? (s : String) : Option EnrollmentStatus :=
  let joined := (Text.asciiLower (Text.trim s)).toList.map fun c =>
    if c = '-' ∨ c = ' ' then '_' else c
  match String.ofList joined with
  | "in_progress" | "enrolled" => some .inProgress
  | "completed" | "complete" | "passed" => some .completed
  | "dropped" | "withdrawn" => some .dropped
  | _ => none

/-- Reads a status. -/
def decoder : Decoder EnrollmentStatus :=
  .choice named

/-- Writes a status. -/
def toJson (s : EnrollmentStatus) : Value :=
  .string s.name

end EnrollmentStatus

end Registrar
