import Registrar.Calendar.Date
import Registrar.Json.Record
import Registrar.Json.Value

/-!
# Majors

A major is known by its code and its designation, as in `MATH` and `BS`.  `MajorKey.text` joins
the two by an underscore, and `MajorKey.read?` takes a text apart at the last underscore, or at
the last slash of a text without underscores.
-/

namespace Registrar

/-- What a major is known by. -/
structure MajorKey where
  code : String
  designation : String
  deriving DecidableEq, Repr

/-- A program that students declare. -/
structure Major where
  key : MajorKey
  name : String
  totalCreditsRequired : UInt32
  deriving DecidableEq, Repr

/-- A major as a student has declared it. -/
structure DeclaredMajor where
  major : MajorKey
  declaredOn : Option Calendar.Date
  primary : Bool
  deriving DecidableEq

namespace MajorKey

/-- Code and designation with an underscore between them. -/
def text (k : MajorKey) : String :=
  k.code ++ "_" ++ k.designation

/-- The parts before and after the last occurrence of a character. -/
def splitAtLast? (c : Char) (cs : List Char) : Option (List Char × List Char) :=
  let back := cs.reverse
  match back.dropWhile (· != c) with
  | [] => none
  | _ :: front => some (front.reverse, (back.takeWhile (· != c)).reverse)

/-- Reads a key, blanks around it left out.  Neither part may be empty. -/
def read? (raw : String) : Option MajorKey :=
  let cs := Text.trimChars raw.toList
  match splitAtLast? '_' cs <|> splitAtLast? '/' cs with
  | some (code@(_ :: _), designation@(_ :: _)) =>
    some ⟨String.ofList code, String.ofList designation⟩
  | _ => none

/-- What is said of a text that is no key. -/
def refusal (raw : String) : String :=
  "expected CODE_DESIGNATION, got '" ++ raw ++ "'"

/-! ### JSON -/

open Json

/-- A key in JSON. -/
def record : Record MajorKey :=
  MajorKey.mk <$> .required "code" .string <*> .required "designation" .string

/-- Writes a key. -/
def toJson (k : MajorKey) : Value :=
  .object [("code", .string k.code), ("designation", .string k.designation)]

end MajorKey

namespace Major

open Json

/-- A major in JSON. -/
def record : Record Major :=
  Major.mk <$> .required "key" MajorKey.record.decoder <*> .required "name" .string
    <*> .required "total_credits_required" .uint32

/-- Writes a major. -/
def toJson (m : Major) : Value :=
  .object
    [("key", m.key.toJson), ("name", .string m.name),
      ("total_credits_required", .natural m.totalCreditsRequired.toNat)]

end Major

namespace DeclaredMajor

open Json

/-- A declared major in JSON. -/
def record : Record DeclaredMajor :=
  DeclaredMajor.mk <$> .required "major" MajorKey.record.decoder
    <*> .optional "declared_on" (.parsed Calendar.Date.read?)
    <*> .withDefault "primary" .boolean false

/-- Writes a declared major. -/
def toJson (d : DeclaredMajor) : Value :=
  .object
    ([("major", d.major.toJson)]
      ++ Value.optional "declared_on" d.declaredOn (fun date => .string date.text)
      ++ [("primary", .boolean d.primary)])

end DeclaredMajor

end Registrar
