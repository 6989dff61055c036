import Registrar.Distinct
import Registrar.Json.Record
import Registrar.Json.Value

/-!
# Courses and credits

A course is known by its id.  Credits are words of 32 bits, and their sums stop at the greatest
of them: `Credits.total` adds one number after another by `Credits.plus`, which goes no further.
-/

namespace Registrar

/-- The number by which a course is known. -/
abbrev CourseId := UInt64

/-- A number of credits. -/
abbrev Credits := UInt32

/-- The greatest number of credits. -/
def Credits.limit : Nat := 4294967295

/-- The sum of two numbers of credits, cut off at the greatest number of them. -/
def Credits.plus (a b : Credits) : Credits :=
  UInt32.ofNat (min (a.toNat + b.toNat) Credits.limit)

/-- The sum of credits, added one after another and cut off whenever it comes to be too great. -/
def Credits.total (credits : List Credits) : Credits :=
  credits.foldl Credits.plus 0

/-- A course of the catalog. -/
structure Course where
  id : CourseId
  subject : String
  number : String
  title : String
  credits : Credits
  deriving DecidableEq, Repr

namespace Course

/-- The code by which people know a course. -/
def code (c : Course) : String :=
  c.subject ++ " " ++ c.number

/-- The courses without those whose id came before. -/
def distinct (courses : List Course) : List Course :=
  distinctBy Course.id courses

/-! ### JSON -/

open Json

/-- A course in JSON. -/
def record : Record Course :=
  Course.mk <$> .required "id" .uint64 <*> .required "subject" .string
    <*> .required "number" .string <*> .withDefault "title" .string ""
    <*> .required "credits" .uint32

/-- Writes a course. -/
def toJson (c : Course) : Value :=
  .object
    [("id", .natural c.id.toNat), ("subject", .string c.subject), ("number", .string c.number),
      ("title", .string c.title), ("credits", .natural c.credits.toNat)]

end Course

end Registrar
