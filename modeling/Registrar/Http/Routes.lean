import Registrar.Advising
import Registrar.Http.MediaType
import Registrar.Http.Path

/-!
# The HTTP interface

`findResource` finds the resource that a path names and `Service.handle` answers a request
for it.  A path without a resource is answered by 404, a resource that has not the method by 405,
and then the parameters of the path are read (400), for a write the content type (415) and the
body (413, 400 and 422), before the desk is asked.

A body is decoded from its front: what follows the value is not looked at.
-/

namespace Registrar.Http

open Text

/-- A request. -/
structure Request where
  method : String
  target : String
  contentType : Option String
  body : Bytes

/-- An answer: the status code and the text of a body of type `application/json`. -/
structure Response where
  status : Nat
  body : Option String
  deriving DecidableEq, Repr

/-- What answers requests: a desk, and whether it is ready to serve. -/
structure Service where
  desk : Desk
  ready : Bool

/-! ### Routes -/

/-- The resources. -/
inductive Resource where
  | health
  | readiness
  | metrics
  | summary
  | eligibility
  | eligibleCourses
  | overallAudit
  | majorAudit
  | completedRequirements
  | remainingRequirements
  | requirementAudit
  | prerequisites
  | flatPrerequisites
  deriving DecidableEq, Repr

/-- A part of the path of a resource. -/
inductive Pattern where
  | literal (s : String)
  | parameter
  deriving DecidableEq, Repr

namespace Resource

/-- Every resource. -/
def all : List Resource :=
  [.health, .readiness, .metrics, .summary, .eligibility, .eligibleCourses, .overallAudit,
    .majorAudit, .completedRequirements, .remainingRequirements, .requirementAudit,
    .prerequisites, .flatPrerequisites]

/-- The path of the students or courses part of the interface, then more. -/
def under (collection : String) (rest : List Pattern) : List Pattern :=
  [.literal "api", .literal "v1", .literal collection, .parameter] ++ rest

/-- The path of a resource. -/
def path : Resource → List Pattern
  | .health => [.literal "health"]
  | .readiness => [.literal "ready"]
  | .metrics => [.literal "metrics"]
  | .summary => [.literal "api", .literal "v1", .literal "catalog", .literal "summary"]
  | .eligibility => under "students" [.literal "eligibility", .parameter]
  | .eligibleCourses => under "students" [.literal "eligible-courses"]
  | .overallAudit => under "students" [.literal "progress"]
  | .majorAudit => under "students" [.literal "progress", .parameter, .parameter]
  | .completedRequirements =>
    under "students"
      [.literal "progress", .parameter, .parameter, .literal "completed-requirements"]
  | .remainingRequirements =>
    under "students"
      [.literal "progress", .parameter, .parameter, .literal "remaining-requirements"]
  | .requirementAudit =>
    under "students" [.literal "requirements", .parameter, .literal "progress"]
  | .prerequisites => under "courses" [.literal "prerequisites"]
  | .flatPrerequisites => under "courses" [.literal "prerequisites", .literal "flat"]

/-- The methods of a resource; what can be read can also be asked for its head. -/
def methods : Resource → List String
  | .prerequisites => ["GET", "HEAD", "PUT", "DELETE"]
  | .flatPrerequisites => ["PUT"]
  | _ => ["GET", "HEAD"]

end Resource

/-- The segments that stand for the parameters of a path; the last segment may not be an empty
parameter. -/
def matchPath : List Pattern → List (List Char) → Option (List (List Char))
  | [], [] => some []
  | [.parameter], [[]] => none
  | .literal s :: patterns, segment :: segments =>
    if segment = s.toList then matchPath patterns segments else none
  | .parameter :: patterns, segment :: segments =>
    (matchPath patterns segments).map (segment :: ·)
  | _, _ => none

/-- The resource that a path names, with the segments of its parameters. -/
def findResource (segments : List (List Char)) : Option (Resource × List (List Char)) :=
  Resource.all.findSome? fun r => (matchPath r.path segments).map fun params => (r, params)

/-- The parameters of a request for a resource, decoded. -/
inductive Route where
  | health
  | readiness
  | metrics
  | summary
  | eligibility (student : StudentId) (course : CourseId)
  | eligibleCourses (student : StudentId)
  | overallAudit (student : StudentId)
  | majorAudit (student : StudentId) (key : MajorKey)
  | completedRequirements (student : StudentId) (key : MajorKey)
  | remainingRequirements (student : StudentId) (key : MajorKey)
  | requirementAudit (student : StudentId) (requirement : RequirementId)
  | prerequisites (course : CourseId)
  | flatPrerequisites (course : CourseId)
  deriving DecidableEq, Repr

namespace Route

/-- Decodes the parameters student, code and designation. -/
def studentAndKey? : List (List Char) → Option (StudentId × MajorKey)
  | [student, code, designation] => do
    let student ← segmentId? student
    let code ← segmentText? code
    let designation ← segmentText? designation
    pure (student, ⟨code, designation⟩)
  | _ => none

/-- Decodes two ids. -/
def twoIds? : List (List Char) → Option (UInt64 × UInt64)
  | [first, second] => do
    let first ← segmentId? first
    let second ← segmentId? second
    pure (first, second)
  | _ => none

/-- Decodes one id. -/
def oneId? : List (List Char) → Option UInt64
  | [id] => segmentId? id
  | _ => none

/-- Decodes the parameters of a resource. -/
def ofResource? (parameters : List (List Char)) : Resource → Option Route
  | .health => some .health
  | .readiness => some .readiness
  | .metrics => some .metrics
  | .summary => some .summary
  | .eligibility => (twoIds? parameters).map fun (s, c) => .eligibility s c
  | .eligibleCourses => (oneId? parameters).map .eligibleCourses
  | .overallAudit => (oneId? parameters).map .overallAudit
  | .majorAudit => (studentAndKey? parameters).map fun (s, k) => .majorAudit s k
  | .completedRequirements =>
    (studentAndKey? parameters).map fun (s, k) => .completedRequirements s k
  | .remainingRequirements =>
    (studentAndKey? parameters).map fun (s, k) => .remainingRequirements s k
  | .requirementAudit => (twoIds? parameters).map fun (s, r) => .requirementAudit s r
  | .prerequisites => (oneId? parameters).map .prerequisites
  | .flatPrerequisites => (oneId? parameters).map .flatPrerequisites

end Route

/-! ### Answers -/

open Json

namespace Response

/-- An answer without a JSON body. -/
def bare (status : Nat) : Response := ⟨status, none⟩

/-- An answer with a JSON body. -/
def json (status : Nat) (v : Value) : Response := ⟨status, some v.compact⟩

/-- An answer that says what went wrong. -/
def failure (status : Nat) (message : String) : Response :=
  json status (.object [("error", .string message)])

/-- The status code of a question without an answer. -/
def statusOf : AdvisingError → Nat
  | .unknown _ => 404
  | .invalid _ => 422
  | .refused .conflict => 409
  | .refused .notFound => 404
  | .refused (.unavailable _) => 503

/-- The answer of the desk to a question. -/
def ofAnswer {α : Type} (toJson : α → Value) : Except AdvisingError α → Response
  | .ok a => json 200 (toJson a)
  | .error e => failure (statusOf e) e.message

/-- The answer to a request for the head: a JSON body is left empty. -/
def head (r : Response) : Response :=
  { r with body := r.body.map fun _ => "" }

end Response

/-- Writes a stored tree. -/
def treeView (course : CourseId) (t : Prerequisite.Tree) : Value :=
  .object
    [("course_id", .natural course.toNat), ("expression", .string t.text),
      ("depth", .natural t.depth), ("tree", t.toSpec.toJson)]

/-- Writes the courses that a student could take next. -/
def eligibleCoursesView (student : StudentId) (courses : List Course) : Value :=
  .object
    [("student_id", .natural student.toNat), ("courses", .array (courses.map Course.toJson))]

/-- Writes the audits of a student's majors. -/
def overallView (student : StudentId) (audits : List MajorAudit) : Value :=
  .object
    [("student_id", .natural student.toNat), ("majors", .array (audits.map MajorAudit.toJson))]

/-- Writes the audits of some requirements of a major. -/
def requirementsView (student : StudentId) (key : MajorKey) (audits : List RequirementAudit) :
    Value :=
  .object
    [("student_id", .natural student.toNat), ("major", key.toJson),
      ("requirements", .array (audits.map RequirementAudit.toJson))]

/-! ### Bodies -/

/-- The greatest size of a body. -/
def bodyLimit : Nat := 2097152

/-- Reads the body of a write, or gives the answer to a body that cannot be read. -/
def readBody {α : Type} (decode : Decoder α) (r : Request) : Except Response α :=
  if !(r.contentType.any announcesJson) then .error (.bare 415)
  else if r.body.length > bodyLimit then .error (.bare 413)
  -- What follows the value in the body is left unread.
  else match decodeFront decode r.body with
    | .ok a => .ok a
    | .error .unsuitable => .error (.bare 422)
    | .error _ => .error (.bare 400)

/-! ### Requests -/

namespace Service

/-- Answers a request to read. -/
def get (s : Service) : Route → Response
  | .health => .json 200 (.object [("status", .string "ok")])
  | .readiness =>
    if s.ready then .json 200 (.object [("status", .string "ready")])
    else .json 503 (.object [("status", .string "initializing")])
  | .metrics => .bare 200
  | .summary => .json 200 s.desk.holdings.records.counts.toJson
  | .eligibility student course =>
    .ofAnswer Eligibility.toJson (s.desk.eligibility student course)
  | .eligibleCourses student =>
    .ofAnswer (eligibleCoursesView student) (s.desk.eligibleCourses student)
  | .overallAudit student => .ofAnswer (overallView student) (s.desk.overallAudit student)
  | .majorAudit student key => .ofAnswer MajorAudit.toJson (s.desk.majorAudit student key)
  | .completedRequirements student key =>
    .ofAnswer (requirementsView student key) (s.desk.completedRequirements student key)
  | .remainingRequirements student key =>
    .ofAnswer (requirementsView student key) (s.desk.remainingRequirements student key)
  | .requirementAudit student requirement =>
    .ofAnswer RequirementAudit.toJson (s.desk.requirementAudit student requirement)
  | .prerequisites course => .ofAnswer (treeView course) (s.desk.prerequisites course)
  | .flatPrerequisites _ => .bare 405

/-- The answer to a write and the service after it. -/
def written {α : Type} (s : Service) (answer : α → Response) :
    Except AdvisingError (α × Desk) → Response × Service
  | .ok (a, desk) => (answer a, { s with desk })
  | .error e => (.failure (Response.statusOf e) e.message, s)

/-- Answers a request to write. -/
def put (s : Service) (r : Request) : Route → Response × Service
  | .prerequisites course =>
    match readBody Prerequisite.Spec.decoder r with
    | .error refusal => (refusal, s)
    | .ok spec =>
      s.written (fun t => .json 200 (treeView course t)) (s.desk.setPrerequisites course spec)
  | .flatPrerequisites course =>
    match readBody Prerequisite.FlatSpec.record.decoder r with
    | .error refusal => (refusal, s)
    | .ok spec =>
      s.written (fun t => .json 200 (treeView course t))
        (s.desk.setFlatPrerequisites course spec)
  | _ => (.bare 405, s)

/-- Answers a request to delete. -/
def delete (s : Service) : Route → Response × Service
  | .prerequisites course =>
    s.written (fun _ => .bare 204) (s.desk.removePrerequisites course)
  | _ => (.bare 405, s)

/-- Answers a request by a method that the resource has. -/
def perform (s : Service) (r : Request) (route : Route) : Response × Service :=
  match r.method with
  | "GET" => (s.get route, s)
  | "HEAD" => ((s.get route).head, s)
  | "PUT" => s.put r route
  | "DELETE" => s.delete route
  | _ => (.bare 405, s)

/-- Answers a request. -/
def handle (s : Service) (r : Request) : Response × Service :=
  match (segments? (pathOf r.target)).bind findResource with
  | none => (.bare 404, s)
  | some (resource, parameters) =>
    -- The method is looked at before the parameters are decoded.
    if !resource.methods.contains r.method then (.bare 405, s)
    else match Route.ofResource? parameters resource with
      | none => (.bare 400, s)
      | some route => s.perform r route

end Service

end Registrar.Http
