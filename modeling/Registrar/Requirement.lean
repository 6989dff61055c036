import Registrar.Course
import Registrar.Major

/-!
# Requirements of a major

A requirement asks for credits from a list of courses or for every course of the list; its `mode`
says which.  `RequirementStatus` orders how far a student has come.
-/

namespace Registrar

/-- The number by which a requirement is known. -/
abbrev RequirementId := UInt64

/-- How a requirement is fulfilled. -/
inductive RequirementMode where
  /-- By enough credits from the listed courses. -/
  | creditThreshold (minCredits : UInt32)
  /-- By every listed course. -/
  | enumeration
  deriving DecidableEq, Repr

/-- A rule of a major about the courses to be completed. -/
structure Requirement where
  id : RequirementId
  major : MajorKey
  name : String
  description : Option String
  minCredits : Option UInt32
  courses : List Course
  deriving DecidableEq, Repr

/-- How far a requirement is fulfilled. -/
inductive RequirementStatus where
  | notStarted
  | inProgress
  | complete
  deriving DecidableEq, Repr

namespace Requirement

/-- How the requirement is fulfilled. -/
def mode (r : Requirement) : RequirementMode :=
  match r.minCredits with
  | some credits => .creditThreshold credits
  | none => .enumeration

/-- The requirement with each of its courses listed once. -/
def withDistinctCourses (r : Requirement) : Requirement :=
  { r with courses := Course.distinct r.courses }

/-! ### JSON -/

open Json

/-- A requirement in JSON. -/
def record : Record Requirement :=
  Requirement.mk <$> .required "id" .uint64 <*> .required "major" MajorKey.record.decoder
    <*> .required "name" .string <*> .optional "description" .string
    <*> .optional "min_credits" .uint32
    <*> .withDefault "courses" (.list Course.record.decoder) []

/-- Writes a requirement. -/
def toJson (r : Requirement) : Value :=
  .object
    ([("id", .natural r.id.toNat), ("major", r.major.toJson), ("name", .string r.name)]
      ++ Value.optional "description" r.description .string
      ++ Value.optional "min_credits" r.minCredits (fun n => .natural n.toNat)
      ++ [("courses", .array (r.courses.map Course.toJson))])

end Requirement

namespace RequirementMode

open Json

/-- Writes a mode. -/
def toJson : RequirementMode → Value
  | .creditThreshold credits =>
    .object [("kind", .string "credit_threshold"), ("min_credits", .natural credits.toNat)]
  | .enumeration => .object [("kind", .string "enumeration")]

/-- The kinds of mode; a threshold still lacks its credits. -/
inductive Kind where
  | creditThreshold
  | enumeration
  deriving DecidableEq, Repr

/-- The kind with this name. -/
def Kind.named : String → Option Kind
  | "credit_threshold" => some .creditThreshold
  | "enumeration" => some .enumeration
  | _ => none

/-- Reads a kind, which is a string. -/
def Kind.decoder : Decoder Kind :=
  .parsed Kind.named

/-- The kind of a mode and its further members, all of them read before any is judged. -/
def ofMembers (room : Nat) (kind? : Option Kind) (others : List (String × Reading)) :
    Members → Except Fault (Kind × List (String × Reading))
  | .done =>
    match kind? with
    | some kind => .ok (kind, others)
    | none => .error .unsuitable
  | .cut found => .error (cutFault found)
  | .keyless found => .error (keyFault found)
  | .member key value rest => do
    let name ← stringText key
    if name = "kind" then
      match kind? with
      | some _ => .error .unsuitable
      | none => do
        let kind ← Kind.decoder room value
        ofMembers room (some kind) others rest
    else do
      value.readAny room
      ofMembers room kind? (others ++ [(name, value)]) rest

/-- The mode of a kind whose further members are these. -/
def ofKind (room : Nat) (others : List (String × Reading)) : Kind → Except Fault RequirementMode
  | .enumeration => .ok .enumeration
  | .creditThreshold =>
    match others.filter fun member => member.1 == "min_credits" with
    | [(_, value)] => (Decoder.uint32 room value).map .creditThreshold
    | _ => .error .unsuitable

/-- The mode of a kind that comes first in an array with these further items. -/
def ofKindItems (room : Nat) : Kind → Items → Except Fault RequirementMode
  | .enumeration, .done => .ok .enumeration
  | .creditThreshold, .item value .done => (Decoder.uint32 room value).map .creditThreshold
  | _, _ => .error .unsuitable

/-- Reads a mode: an object that names its kind, or an array that begins with it.  The whole
object or array is read before its members are judged. -/
def decoder : Decoder RequirementMode := fun room reading =>
  match reading, room with
  | .object _, 0 => .error .malformed
  | .array _, 0 => .error .malformed
  | .object members, room + 1 => do
    let (kind, others) ← ofMembers room none [] members
    ofKind room others kind
  | .array .done, _ => .error .unsuitable
  | .array (.cut found), _ => .error (cutFault found)
  | .array (.item first rest), room + 1 => do
    let kind ← Kind.decoder room first
    Reading.readAnyItems room rest
    ofKindItems room kind rest
  | _, _ => .error (mismatch reading)

end RequirementMode

namespace RequirementStatus

open Json

/-- The status in words of a report. -/
def label : RequirementStatus → String
  | .notStarted => "not_started"
  | .inProgress => "in_progress"
  | .complete => "complete"

/-- The status in JSON. -/
def name : RequirementStatus → String
  | .notStarted => "NOT_STARTED"
  | .inProgress => "IN_PROGRESS"
  | .complete => "COMPLETE"

/-- The status with this name in JSON. -/
def named : String → Option RequirementStatus
  | "NOT_STARTED" => some .notStarted
  | "IN_PROGRESS" => some .inProgress
  | "COMPLETE" => some .complete
  | _ => none

/-- Reads a status. -/
def decoder : Decoder RequirementStatus :=
  .choice named

/-- Writes a status. -/
def toJson (s : RequirementStatus) : Value :=
  .string s.name

/-- How far along a status is. -/
def rank : RequirementStatus → Nat
  | .notStarted => 0
  | .inProgress => 1
  | .complete => 2

end RequirementStatus

end Registrar
