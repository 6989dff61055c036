import Registrar.Requirement

/-!
# Degree audits

An audit says how far completed courses fulfil a requirement or a major.  A course that a
requirement lists twice counts once, as it is listed first.  A course that several requirements
of a major list counts once toward the major, with the credits of its last listing.

All sums of credits are exact sums cut off at the greatest number of credits.
-/

namespace Registrar

/-- How far a requirement is fulfilled. -/
structure RequirementAudit where
  requirementId : RequirementId
  name : String
  mode : RequirementMode
  status : RequirementStatus
  completedCourses : List Course
  remainingCourses : List Course
  creditsCompleted : Credits
  creditsRemaining : Credits
  deriving DecidableEq, Repr

/-- How far a major is fulfilled. -/
structure MajorAudit where
  major : MajorKey
  name : String
  totalCreditsRequired : Credits
  creditsCompleted : Credits
  creditsRemaining : Credits
  percentComplete : Float
  requirements : List RequirementAudit

/-- What is left of a number of credits when others are taken off, never below none. -/
def Credits.minus (a b : Credits) : Credits :=
  UInt32.ofNat (a.toNat - b.toNat)

namespace Requirement

/-- The listed courses, each once. -/
def distinctCourses (r : Requirement) : List Course :=
  Course.distinct r.courses

/-- The status that completed courses and remaining courses make. -/
def statusOf (r : Requirement) (done left : List Course) : RequirementStatus :=
  match r.mode with
  | .creditThreshold least =>
    let credits := Credits.total (done.map Course.credits)
    if least ≤ credits then .complete else if 0 < credits then .inProgress else .notStarted
  | .enumeration =>
    if left.isEmpty then .complete else if done.isEmpty then .notStarted else .inProgress

/-- The credits that are still to be completed. -/
def creditsLeft (r : Requirement) (done left : List Course) : Credits :=
  match r.mode with
  | .creditThreshold least => Credits.minus least (Credits.total (done.map Course.credits))
  | .enumeration => Credits.total (left.map Course.credits)

/-- How far completed courses fulfil the requirement. -/
def audit (r : Requirement) (completed : List CourseId) : RequirementAudit :=
  let done := r.distinctCourses.filter fun c => completed.contains c.id
  let left := r.distinctCourses.filter fun c => !completed.contains c.id
  { requirementId := r.id
    name := r.name
    mode := r.mode
    status := r.statusOf done left
    completedCourses := done
    remainingCourses := left
    creditsCompleted := Credits.total (done.map Course.credits)
    creditsRemaining := r.creditsLeft done left }

end Requirement

namespace RequirementAudit

/-- Is the requirement fulfilled? -/
def isComplete (a : RequirementAudit) : Bool :=
  a.status = .complete

end RequirementAudit

/-! ### Majors -/

/-- The completed courses that the requirements list, each once, as it is listed last. -/
def countedCourses (requirements : List Requirement) (completed : List CourseId) : List Course :=
  let listed := requirements.flatMap Requirement.courses
  -- Reversed, the last listing comes first and is the one that is kept.
  Course.distinct (listed.filter fun c => completed.contains c.id).reverse

/-- The credits of the completed courses that the requirements list. -/
def creditsToward (requirements : List Requirement) (completed : List CourseId) : Credits :=
  Credits.total ((countedCourses requirements completed).map Course.credits)

/-- Completed credits as a percentage of the required ones, none where none are required. -/
def percentage (completed required : Credits) : Float :=
  if required = 0 then 0.0
  else completed.toFloat / required.toFloat * 100.0

namespace Major

/-- How far completed courses fulfil a major with these requirements. -/
def audit (m : Major) (requirements : List Requirement) (completed : List CourseId) :
    MajorAudit :=
  let credits := creditsToward requirements completed
  { major := m.key
    name := m.name
    totalCreditsRequired := m.totalCreditsRequired
    creditsCompleted := credits
    creditsRemaining := Credits.minus m.totalCreditsRequired credits
    percentComplete := percentage credits m.totalCreditsRequired
    requirements := requirements.map fun r => r.audit completed }

end Major

namespace MajorAudit

/-- The audits of the requirements that are fulfilled. -/
def completeRequirements (a : MajorAudit) : List RequirementAudit :=
  a.requirements.filter RequirementAudit.isComplete

/-- The audits of the requirements that are not fulfilled. -/
def openRequirements (a : MajorAudit) : List RequirementAudit :=
  a.requirements.filter fun r => !r.isComplete

end MajorAudit

/-! ### JSON -/

open Json

/-- Writes the audit of a requirement. -/
def RequirementAudit.toJson (a : RequirementAudit) : Value :=
  .object
    [("requirement_id", .natural a.requirementId.toNat), ("name", .string a.name),
      ("mode", a.mode.toJson), ("status", a.status.toJson),
      ("completed_courses", .array (a.completedCourses.map Course.toJson)),
      ("remaining_courses", .array (a.remainingCourses.map Course.toJson)),
      ("credits_completed", .natural a.creditsCompleted.toNat),
      ("credits_remaining", .natural a.creditsRemaining.toNat)]

/-- Writes the audit of a major. -/
def MajorAudit.toJson (a : MajorAudit) : Value :=
  .object
    [("major", a.major.toJson), ("name", .string a.name),
      ("total_credits_required", .natural a.totalCreditsRequired.toNat),
      ("credits_completed", .natural a.creditsCompleted.toNat),
      ("credits_remaining", .natural a.creditsRemaining.toNat),
      ("percent_complete", .float a.percentComplete),
      ("requirements", .array (a.requirements.map RequirementAudit.toJson))]

end Registrar
