import Registrar.Course
import Registrar.Json.Record
import Registrar.Prerequisite.Operator

/-!
# Prerequisites as they are sent

A `Spec` is a prerequisite as clients and catalog files write it: an object that may have a
course id, an operator and items, in any combination.  Which combinations make a rule is decided
when a tree is built from it.  A `FlatSpec` is the short form for one operator over a list of
courses.
-/

namespace Registrar.Prerequisite

open Json

/-- A prerequisite as it is sent. -/
inductive Spec where
  | mk (courseId : Option CourseId) (operator : Option String) (items : Option (List Spec))
  deriving Repr

/-- A prerequisite of one operator over a list of courses, as it is sent. -/
structure FlatSpec where
  operator : String
  courseIds : List CourseId
  deriving DecidableEq, Repr

namespace Spec

/-- A spec that names a course and nothing else. -/
def ofCourse (id : CourseId) : Spec :=
  .mk (some id) none none

/-- A spec that has an operator and items and nothing else. -/
def ofGroup (operator : String) (items : List Spec) : Spec :=
  .mk none (some operator) (some items)

/-- The members of a spec, its items read by a given decoder. -/
def record (item : Decoder Spec) : Record Spec :=
  Spec.mk <$> .optional "courseId" .uint64
    <*> .member ["type", "operator"] (.nullable .string) (some none)
    <*> .optional "items" (.list item)

/-- Reads specs with at most so many specs inside each other. -/
def decoderWithin : Nat → Decoder Spec
  | 0 => fun _ _ => .error .malformed
  | levels + 1 => (record (decoderWithin levels)).decoder

/-- Reads a spec.  As many specs as there may be objects can stand inside each other. -/
def decoder : Decoder Spec :=
  decoderWithin (maxNesting + 1)

mutual

/-- Writes a spec, members that it lacks left out. -/
def toJson : Spec → Value
  | .mk courseId operator items =>
    .object
      (Value.optional "courseId" courseId (fun id => .natural id.toNat)
        ++ Value.optional "type" operator .string
        ++ match items with
          | some specs => [("items", .array (listToJson specs))]
          | none => [])

/-- Writes specs. -/
def listToJson : List Spec → List Value
  | [] => []
  | s :: ss => toJson s :: listToJson ss

end

end Spec

namespace FlatSpec

/-- A flat spec in JSON. -/
def record : Record FlatSpec :=
  FlatSpec.mk <$> .member ["type", "operator"] .string none
    <*> .withDefault "courseIds" (.list .uint64) []

/-- Writes a flat spec. -/
def toJson (s : FlatSpec) : Value :=
  .object
    [("type", .string s.operator),
      ("courseIds", .array (s.courseIds.map fun id => .natural id.toNat))]

end FlatSpec

end Registrar.Prerequisite
