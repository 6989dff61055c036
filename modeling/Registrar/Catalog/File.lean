import Registrar.Enrollment
import Registrar.Prerequisite.Spec
import Registrar.Requirement

/-!
# Catalog files

A catalog file is a JSON object that lists courses with their prerequisites, majors with their
requirements, and students with their declared majors and enrollments.  Requirements and
enrollments refer to courses by id.  `CatalogFile.decoder` reads a file; whether what it lists
fits together is for the import to say.
-/

namespace Registrar

open Json

/-- A course as a catalog file lists it. -/
structure ListedCourse where
  id : CourseId
  subject : String
  number : String
  title : String
  credits : Credits
  prerequisites : Option Prerequisite.Spec

/-- A requirement as a catalog file lists it under its major. -/
structure ListedRequirement where
  id : RequirementId
  name : String
  description : Option String
  minCredits : Option UInt32
  courses : List CourseId

/-- A major as a catalog file lists it. -/
structure ListedMajor where
  code : String
  designation : String
  name : String
  totalCreditsRequired : Credits
  requirements : List ListedRequirement

/-- A declared major as a catalog file lists it under a student. -/
structure ListedDeclaration where
  code : String
  designation : String
  declaredOn : Option Calendar.Date
  primary : Bool

/-- An enrollment as a catalog file lists it under a student. -/
structure ListedEnrollment where
  course : CourseId
  semester : String
  status : EnrollmentStatus

/-- A student as a catalog file lists it. -/
structure ListedStudent where
  id : StudentId
  name : String
  declaredMajors : List ListedDeclaration
  enrollments : List ListedEnrollment

/-- What a catalog file lists. -/
structure CatalogFile where
  courses : List ListedCourse
  majors : List ListedMajor
  students : List ListedStudent

namespace ListedCourse

/-- A listed course in JSON. -/
def record : Record ListedCourse :=
  ListedCourse.mk <$> .required "id" .uint64 <*> .required "subject" .string
    <*> .required "number" .string <*> .withDefault "title" .string ""
    <*> .required "credits" .uint32 <*> .optional "prerequisites" Prerequisite.Spec.decoder

/-- The course that is listed. -/
def course (c : ListedCourse) : Course :=
  ⟨c.id, c.subject, c.number, c.title, c.credits⟩

end ListedCourse

namespace ListedRequirement

/-- A listed requirement in JSON. -/
def record : Record ListedRequirement :=
  ListedRequirement.mk <$> .required "id" .uint64 <*> .required "name" .string
    <*> .optional "description" .string <*> .optional "minCredits" .uint32
    <*> .withDefault "courses" (.list .uint64) []

end ListedRequirement

namespace ListedMajor

/-- A listed major in JSON. -/
def record : Record ListedMajor :=
  ListedMajor.mk <$> .required "code" .string <*> .required "designation" .string
    <*> .required "name" .string <*> .required "totalCreditsRequired" .uint32
    <*> .withDefault "requirements" (.list ListedRequirement.record.decoder) []

/-- The key of a listed major. -/
def key (m : ListedMajor) : MajorKey :=
  ⟨m.code, m.designation⟩

/-- The major that is listed. -/
def major (m : ListedMajor) : Major :=
  ⟨m.key, m.name, m.totalCreditsRequired⟩

end ListedMajor

namespace ListedDeclaration

/-- A listed declaration in JSON. -/
def record : Record ListedDeclaration :=
  ListedDeclaration.mk <$> .required "code" .string <*> .required "designation" .string
    <*> .optional "declaredOn" (.parsed Calendar.Date.read?)
    <*> .withDefault "primary" .boolean false

/-- The declared major that is listed. -/
def declaredMajor (d : ListedDeclaration) : DeclaredMajor :=
  ⟨⟨d.code, d.designation⟩, d.declaredOn, d.primary⟩

end ListedDeclaration

namespace ListedEnrollment

/-- A listed enrollment in JSON. -/
def record : Record ListedEnrollment :=
  ListedEnrollment.mk <$> .required "courseId" .uint64 <*> .required "semester" .string
    <*> .required "status" EnrollmentStatus.decoder

/-- The enrollment that is listed under a student. -/
def enrollment (student : StudentId) (e : ListedEnrollment) : Enrollment :=
  ⟨student, e.course, e.semester, e.status⟩

end ListedEnrollment

namespace ListedStudent

/-- A listed student in JSON. -/
def record : Record ListedStudent :=
  ListedStudent.mk <$> .required "id" .uint64 <*> .required "name" .string
    <*> .withDefault "declaredMajors" (.list ListedDeclaration.record.decoder) []
    <*> .withDefault "enrollments" (.list ListedEnrollment.record.decoder) []

end ListedStudent

namespace CatalogFile

/-- A catalog file in JSON. -/
def record : Record CatalogFile :=
  CatalogFile.mk <$> .withDefault "courses" (.list ListedCourse.record.decoder) []
    <*> .withDefault "majors" (.list ListedMajor.record.decoder) []
    <*> .withDefault "students" (.list ListedStudent.record.decoder) []

/-- Reads a catalog file. -/
def read (bs : Text.Bytes) : Except Fault CatalogFile :=
  decodeText record.decoder bs

end CatalogFile

end Registrar
