import Registrar.Csv.Rows
import Registrar.Text.Blank

/-!
# Tables with a header

The first row of a comma-separated text names the columns.  `readTable` gives every further row
its columns by name, in order of the text: a row with more or fewer fields than the header and
one that is not UTF-8 are faults, and so is a row that the reader of the table cannot use.
Names and fields lose the blanks around them.
-/

namespace Registrar.Csv

open Text

/-- What is wrong with a row. -/
inductive Reason where
  /-- It has more or fewer fields than the header. -/
  | unequalLengths
  /-- A column is missing, comes twice or holds a field that cannot be used. -/
  | unusable
  /-- It is not UTF-8. -/
  | notUtf8
  deriving DecidableEq, Repr

/-- A row that is wrong. -/
structure Fault where
  reason : Reason
  line : Nat
  deriving DecidableEq, Repr

/-- What is said of a row that is wrong. -/
def Fault.message (f : Fault) : String :=
  let cause := match f.reason with
    | .unequalLengths => "the record has another number of fields than the header"
    | .unusable => "the record cannot be used"
    | .notUtf8 => "the record is not UTF-8"
  cause ++ " (line " ++ toString f.line ++ ")"

/-- The fields of a row as texts without blanks around them. -/
def Row.texts (r : Row) : Except Fault (List String) :=
  match r.fields.mapM text? with
  | some texts => .ok (texts.map trim)
  | none => .error ⟨.notUtf8, r.line⟩

/-- The field of a column by its name. -/
inductive Cell where
  | absent
  | field (s : String)
  /-- Two columns have the name. -/
  | ambiguous
  deriving DecidableEq, Repr

/-- The field of the column with a name, in a row of named fields. -/
def cell (name : String) (columns : List (String × String)) : Cell :=
  match columns.filter fun column => column.1 == name with
  | [] => .absent
  | [column] => .field column.2
  | _ => .ambiguous

/-- A row with the names of its columns. -/
structure NamedRow where
  line : Nat
  columns : List (String × String)
  deriving DecidableEq, Repr

/-- Reads a row under a header of so many fields. -/
def nameFields (header : List String) (row : Row) : Except Fault NamedRow := do
  if row.fields.length ≠ header.length then .error ⟨.unequalLengths, row.line⟩
  let fields ← row.texts
  pure ⟨row.line, header.zip fields⟩

/-- Reads the rows under a header with a function that may find one unusable, in order. -/
def readRows {α : Type} (read : NamedRow → Option α) (header : List String) :
    List Row → Except Fault (List α)
  | [] => .ok []
  | row :: rest => do
    let named ← nameFields header row
    match read named with
    | none => .error ⟨.unusable, row.line⟩
    | some a => do
      let as ← readRows read header rest
      pure (a :: as)

/-- Reads the rows of a text after its header, in order. -/
def readTable {α : Type} (read : NamedRow → Option α) (bs : Bytes) : Except Fault (List α) :=
  match rows bs with
  | [] => .ok []
  | header :: data => do
    let names ← header.texts
    readRows read names data

end Registrar.Csv
