import Registrar.Csv.Table
import Registrar.Records
import Registrar.Text.Natural

/-!
# Transcripts

A transcript is a comma-separated table with the columns `student_id`, `course_id`, `semester`
and `status`, in any order and among others.  Only the semester may be missing or blank, and
counts as `unspecified` then.  `Transcript.read` yields one entry a row; what the status means is
decided afterwards, so that a row that cannot be read is a fault before any status is.
-/

namespace Registrar

open Csv

/-- A row of a transcript. -/
structure TranscriptEntry where
  line : Nat
  student : StudentId
  course : CourseId
  semester : String
  status : String
  deriving DecidableEq, Repr

namespace Transcript

/-- The semester of an entry that names none. -/
def unspecified : String := "unspecified"

/-- Reads an id: a decimal number, or a hexadecimal one behind `0x`. -/
def readId? (s : String) : Option UInt64 :=
  match s.toList with
  | '0' :: 'x' :: digits => (Text.readBelow? 16 UInt64.size digits).map UInt64.ofNat
  | _ => Text.readUInt64? s

/-- The semester that a cell names. -/
def semester? : Cell → Option String
  | .absent => some unspecified
  | .field s => some (if Text.isBlankText s then unspecified else s)
  | .ambiguous => none

/-- The text of a cell that must be there. -/
def text? : Cell → Option String
  | .field s => some s
  | _ => none

/-- Reads a row. -/
def entry? (row : NamedRow) : Option TranscriptEntry := do
  let student ← readId? (← text? (cell "student_id" row.columns))
  let course ← readId? (← text? (cell "course_id" row.columns))
  let semester ← semester? (cell "semester" row.columns)
  let status ← text? (cell "status" row.columns)
  pure ⟨row.line, student, course, semester, status⟩

/-- Reads the entries of a transcript, in order. -/
def read (bs : Text.Bytes) : Except Csv.Fault (List TranscriptEntry) :=
  readTable entry? bs

end Transcript

end Registrar
