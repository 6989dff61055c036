import Registrar.Advising

/-!
# Reports

`Report.eligibility` and `Report.progress` write an answer of the desk for people to read, under
the date of the day.  Percentages have one place after the point.
-/

namespace Registrar.Report

open Calendar

/-- Lines, each with its line break. -/
def unlines (lines : List String) : String :=
  String.join (lines.map fun line => line ++ "\n")

/-- A course by code, title and credits. -/
def courseLine (c : Course) : String :=
  c.code ++ " " ++ c.title ++ " (" ++ toString c.credits.toNat ++ " credits)"

/-- The lines about whether a student may take a course. -/
def eligibility (student : StudentId) (e : Eligibility) (today : Date) : String :=
  unlines
    ([ "Eligibility report (" ++ today.text ++ ")",
        "- Student " ++ toString student.toNat ++ " -> " ++ courseLine e.course,
        "- Prerequisites: " ++ e.expression.getD "none" ]
      ++ if e.eligible then ["- Status: eligible"]
        else
          [ "- Status: not eligible", "Missing prerequisites:" ]
            ++ e.missingPrerequisites.map fun c => "  - " ++ courseLine c)

/-- The rule of a requirement. -/
def ruleText : RequirementMode → String
  | .creditThreshold least => toString least.toNat ++ " credits from list"
  | .enumeration => "all listed courses"

/-- The lines about a requirement: what is left to choose from stands on a line of its own while
it is not fulfilled. -/
def requirementLines (a : RequirementAudit) : List String :=
  let options := a.remainingCourses.map Course.code
  ("  - [" ++ a.status.label ++ "] " ++ a.name ++ " (" ++ ruleText a.mode ++ "): "
      ++ toString a.creditsCompleted.toNat ++ " credits done, "
      ++ toString a.creditsRemaining.toNat ++ " to go")
    :: if a.isComplete || options.isEmpty then []
      else ["      options: " ++ ", ".intercalate options]

/-- The lines about a major, after an empty one. -/
def majorLines (a : MajorAudit) : List String :=
  [ "",
    a.major.text ++ " " ++ a.name ++ ": " ++ toString a.creditsCompleted.toNat ++ "/"
      ++ toString a.totalCreditsRequired.toNat ++ " credits ("
      ++ Decimal.onePlaceText a.percentComplete ++ "%), "
      ++ toString a.creditsRemaining.toNat ++ " remaining" ]
    ++ a.requirements.flatMap requirementLines

/-- The lines about the majors of a student. -/
def progress (student : StudentId) (audits : List MajorAudit) (today : Date) : String :=
  unlines
    (("Degree progress for student " ++ toString student.toNat ++ " (" ++ today.text ++ ")")
      :: if audits.isEmpty then ["- No declared majors"] else audits.flatMap majorLines)

/-- The audits that a report of progress is about: of one major, or of all that are declared. -/
def collect (d : Desk) (student : StudentId) (major : Option MajorKey) :
    Except AdvisingError (List MajorAudit) :=
  match major with
  | some key => (d.majorAudit student key).map fun audit => [audit]
  | none => d.overallAudit student

/-- Writes audits in JSON. -/
def progressJson (audits : List MajorAudit) : Json.Value :=
  .array (audits.map MajorAudit.toJson)

end Registrar.Report
