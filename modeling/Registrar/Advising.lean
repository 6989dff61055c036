import Registrar.Audit
import Registrar.Catalog.Import

/-!
# Advising

A `Desk` answers questions about students and courses from its holdings, and maintains
prerequisites.  It gets at the holdings by twelve kinds of `Access`, and `outage` says which of
them are refused at the moment; an answer is refused at the first access it needs that is.

`AdvisingError.message` gives the wording of what goes wrong.
-/

namespace Registrar

/-- The ways of getting at the holdings. -/
inductive Access where
  | studentExists
  | course
  | courses
  | completedCourses
  | coursesInProgress
  | major
  | requirementsOfMajor
  | requirement
  | declaredMajors
  | tree
  | replaceTree
  | removeTree
  deriving DecidableEq, Repr

/-- What is asked about and not there. -/
inductive Unknown where
  | student (id : StudentId)
  | course (id : CourseId)
  | major (key : MajorKey)
  | requirement (id : RequirementId)
  /-- The student has not declared the major. -/
  | declaration (student : StudentId) (major : MajorKey)
  /-- The course has no prerequisites. -/
  | prerequisites (course : CourseId)
  deriving DecidableEq, Repr

/-- What is said of something that is not there. -/
def Unknown.message : Unknown → String
  | .student id => "student " ++ toString id.toNat ++ " not found"
  | .course id => "course " ++ toString id.toNat ++ " not found"
  | .major key => "major " ++ key.text ++ " not found"
  | .requirement id => "requirement " ++ toString id.toNat ++ " not found"
  | .declaration id key =>
    "student " ++ toString id.toNat ++ " has not declared major " ++ key.text
  | .prerequisites id => "course " ++ toString id.toNat ++ " has no prerequisites"

/-- Why a question has no answer. -/
inductive AdvisingError where
  | unknown (what : Unknown)
  | invalid (cause : Prerequisite.Error)
  | refused (refusal : Refusal)
  deriving DecidableEq, Repr

/-- What is said when a question has no answer. -/
def AdvisingError.message : AdvisingError → String
  | .unknown what => what.message
  | .invalid cause => cause.message
  | .refused refusal => refusal.message

/-- Whether a student may take a course. -/
structure Eligibility where
  course : Course
  eligible : Bool
  missingPrerequisites : List Course
  expression : Option String
  deriving DecidableEq, Repr

/-- Answers questions from holdings. -/
structure Desk where
  holdings : Holdings
  /-- The depth to which new prerequisites are limited. -/
  limit : Nat
  /-- The accesses that are refused. -/
  outage : Access → Option Refusal

namespace Desk

/-- A desk whose holdings are all within reach. -/
def ofHoldings (holdings : Holdings) (limit : Nat) : Desk :=
  ⟨holdings, limit, fun _ => none⟩

/-- What an access yields, unless it is refused. -/
def access {α : Type} (d : Desk) (kind : Access) (answer : α) : Except AdvisingError α :=
  match d.outage kind with
  | some refusal => .error (.refused refusal)
  | none => .ok answer

/-- Fails for what is not there. -/
def orUnknown {α : Type} (what : Unknown) : Option α → Except AdvisingError α
  | some a => .ok a
  | none => .error (.unknown what)

/-! ### Getting at the holdings -/

/-- Makes sure that a student is on record. -/
def requireStudent (d : Desk) (student : StudentId) : Except AdvisingError Unit := do
  let found ← d.access .studentExists (d.holdings.records.student? student).isSome
  if found then .ok () else .error (.unknown (.student student))

/-- The course with this id, if there is one. -/
def findCourse (d : Desk) (course : CourseId) : Except AdvisingError (Option Course) :=
  d.access .course (d.holdings.records.course? course)

/-- The course with this id. -/
def requireCourse (d : Desk) (course : CourseId) : Except AdvisingError Course := do
  orUnknown (.course course) (← d.findCourse course)

/-- The major with this key. -/
def requireMajor (d : Desk) (key : MajorKey) : Except AdvisingError Major := do
  orUnknown (.major key) (← d.access .major (d.holdings.records.major? key))

/-- The courses that a student has completed. -/
def completedCourses (d : Desk) (student : StudentId) : Except AdvisingError (List CourseId) :=
  d.access .completedCourses (d.holdings.records.completedCourses student)

/-- The requirements of a major. -/
def requirementsOf (d : Desk) (key : MajorKey) : Except AdvisingError (List Requirement) :=
  d.access .requirementsOfMajor (d.holdings.records.requirementsOf key)

/-- The majors that a student has declared. -/
def declaredMajors (d : Desk) (student : StudentId) :
    Except AdvisingError (List DeclaredMajor) :=
  d.access .declaredMajors (d.holdings.records.declaredMajors student)

/-- The tree of a course, if it has one. -/
def tree? (d : Desk) (course : CourseId) : Except AdvisingError (Option Prerequisite.Tree) :=
  d.access .tree (d.holdings.prerequisites.tree? course)

/-! ### Eligibility -/

/-- May the student take the course? -/
def isEligible (d : Desk) (student : StudentId) (course : CourseId) :
    Except AdvisingError Bool := do
  d.requireStudent student
  let _ ← d.requireCourse course
  let completed ← d.completedCourses student
  let tree ← d.tree? course
  pure (Prerequisite.satisfied completed tree)

/-- The courses with these ids, those that are not on record left out. -/
def findCourses (d : Desk) : List CourseId → Except AdvisingError (List Course)
  | [] => .ok []
  | id :: ids => do
    let course ← d.findCourse id
    let courses ← findCourses d ids
    pure (course.toList ++ courses)

/-- The courses that the student has to complete before the course. -/
def missingPrerequisites (d : Desk) (student : StudentId) (course : CourseId) :
    Except AdvisingError (List Course) := do
  d.requireStudent student
  let _ ← d.requireCourse course
  let completed ← d.completedCourses student
  let tree ← d.tree? course
  d.findCourses (Prerequisite.missing completed tree)

/-- Whether the student may take the course, and if not, what is missing. -/
def eligibility (d : Desk) (student : StudentId) (course : CourseId) :
    Except AdvisingError Eligibility := do
  d.requireStudent student
  let found ← d.requireCourse course
  let completed ← d.completedCourses student
  let tree ← d.tree? course
  let missing ← d.findCourses (Prerequisite.missing completed tree)
  pure ⟨found, Prerequisite.satisfied completed tree, missing, tree.map Prerequisite.Tree.text⟩

/-- Of some courses those that the student could take next, given what is completed and in
progress. -/
def selectEligible (d : Desk) (completed inProgress : List CourseId) :
    List Course → Except AdvisingError (List Course)
  | [] => .ok []
  | c :: rest =>
    if completed.contains c.id || inProgress.contains c.id then
      selectEligible d completed inProgress rest
    else do
      let tree ← d.tree? c.id
      let others ← selectEligible d completed inProgress rest
      pure (if Prerequisite.satisfied completed tree then c :: others else others)

/-- The courses that the student could take next, by ascending id: those neither completed nor
in progress whose prerequisites are fulfilled. -/
def eligibleCourses (d : Desk) (student : StudentId) : Except AdvisingError (List Course) := do
  d.requireStudent student
  let completed ← d.completedCourses student
  let inProgress ← d.access .coursesInProgress (d.holdings.records.coursesInProgress student)
  let courses ← d.access .courses d.holdings.records.courses
  d.selectEligible completed inProgress courses

/-! ### Audits -/

/-- What an audit of a major starts from: the major, its requirements and the courses that the
student has completed. -/
def majorInputs (d : Desk) (student : StudentId) (key : MajorKey) :
    Except AdvisingError (Major × List Requirement × List CourseId) := do
  d.requireStudent student
  let major ← d.requireMajor key
  let requirements ← d.requirementsOf key
  let completed ← d.completedCourses student
  pure (major, requirements, completed)

/-- The audit of a major that the student has declared. -/
def majorAudit (d : Desk) (student : StudentId) (key : MajorKey) :
    Except AdvisingError MajorAudit := do
  let (major, requirements, completed) ← d.majorInputs student key
  let declared ← d.declaredMajors student
  if declared.any fun known => known.major == key then
    pure (major.audit requirements completed)
  else .error (.unknown (.declaration student key))

/-- The audits of declared majors, in order. -/
def auditAll (d : Desk) (completed : List CourseId) :
    List DeclaredMajor → Except AdvisingError (List MajorAudit)
  | [] => .ok []
  | declared :: rest => do
    let major ← d.requireMajor declared.major
    let requirements ← d.requirementsOf declared.major
    let audits ← auditAll d completed rest
    pure (major.audit requirements completed :: audits)

/-- The audits of every major that the student has declared, in order of declaration. -/
def overallAudit (d : Desk) (student : StudentId) : Except AdvisingError (List MajorAudit) := do
  d.requireStudent student
  let completed ← d.completedCourses student
  let declared ← d.declaredMajors student
  d.auditAll completed declared

/-- The audit of one requirement. -/
def requirementAudit (d : Desk) (student : StudentId) (id : RequirementId) :
    Except AdvisingError RequirementAudit := do
  d.requireStudent student
  let found ← d.access .requirement (d.holdings.records.requirement? id)
  let requirement ← orUnknown (.requirement id) found
  let completed ← d.completedCourses student
  pure (requirement.audit completed)

/-- The credits that the student has completed toward a major, declared or not. -/
def creditsCompleted (d : Desk) (student : StudentId) (key : MajorKey) :
    Except AdvisingError Credits := do
  let (_, requirements, completed) ← d.majorInputs student key
  pure (creditsToward requirements completed)

/-- The audits of the requirements of a major that the student has fulfilled. -/
def completedRequirements (d : Desk) (student : StudentId) (key : MajorKey) :
    Except AdvisingError (List RequirementAudit) := do
  let (_, requirements, completed) ← d.majorInputs student key
  pure ((requirements.map fun r => r.audit completed).filter RequirementAudit.isComplete)

/-- The audits of the requirements of a major that the student has not fulfilled. -/
def remainingRequirements (d : Desk) (student : StudentId) (key : MajorKey) :
    Except AdvisingError (List RequirementAudit) := do
  let (_, requirements, completed) ← d.majorInputs student key
  pure ((requirements.map fun r => r.audit completed).filter fun a => !a.isComplete)

/-! ### Maintaining prerequisites -/

/-- The desk with another store of prerequisites. -/
def withStore (d : Desk) (store : Prerequisite.Store) : Desk :=
  { d with holdings := { d.holdings with prerequisites := store } }

/-- Makes sure that courses are on record, in order. -/
def requireCourses (d : Desk) : List CourseId → Except AdvisingError Unit
  | [] => .ok ()
  | id :: ids => do
    let _ ← d.requireCourse id
    requireCourses d ids

/-- Gives a course a tree, after it and every course of the tree have been found on record. -/
def install (d : Desk) (course : CourseId) (tree : Prerequisite.Tree) :
    Except AdvisingError (Prerequisite.Tree × Desk) := do
  let _ ← d.requireCourse course
  d.requireCourses tree.courses
  let (_, store) ← d.access .replaceTree (d.holdings.prerequisites.replace course tree)
  pure (tree, d.withStore store)

/-- Gives a course the prerequisites that have been sent. -/
def setPrerequisites (d : Desk) (course : CourseId) (spec : Prerequisite.Spec) :
    Except AdvisingError (Prerequisite.Tree × Desk) := do
  let tree ← (Prerequisite.Tree.ofSpec spec d.limit).mapError .invalid
  d.install course tree

/-- Gives a course the prerequisites that have been sent in the short form. -/
def setFlatPrerequisites (d : Desk) (course : CourseId) (spec : Prerequisite.FlatSpec) :
    Except AdvisingError (Prerequisite.Tree × Desk) := do
  let tree ← (Prerequisite.Tree.ofFlatSpec spec d.limit).mapError .invalid
  d.install course tree

/-- The prerequisites of a course. -/
def prerequisites (d : Desk) (course : CourseId) : Except AdvisingError Prerequisite.Tree := do
  let _ ← d.requireCourse course
  orUnknown (.prerequisites course) (← d.tree? course)

/-- Takes the prerequisites of a course away; answers whether there were any. -/
def removePrerequisites (d : Desk) (course : CourseId) : Except AdvisingError (Bool × Desk) := do
  let _ ← d.requireCourse course
  let (removed, store) ← d.access .removeTree (d.holdings.prerequisites.remove course)
  pure (removed.isSome, d.withStore store)

end Desk

/-! ### JSON -/

open Json

/-- Writes an answer about eligibility. -/
def Eligibility.toJson (e : Eligibility) : Value :=
  .object
    ([("course", e.course.toJson), ("eligible", .boolean e.eligible),
      ("missing_prerequisites", .array (e.missingPrerequisites.map Course.toJson))]
      ++ Value.optional "expression" e.expression .string)

end Registrar
