import Registrar.Text.Bytes

/-!
# Comma-separated rows

`rows` cuts a text into rows of fields.  A comma ends a field; a line feed or a carriage return
ends a row, and at the start of a row they are skipped, so there are no empty rows.  A field that
begins with a quote runs to the next single quote, a doubled one standing for itself; what
follows the closing quote is added as it stands, and a quote inside an unquoted field is an
ordinary character.

The line of a row is one more than the line feeds up to the byte that ended the row before it.
-/

namespace Registrar.Csv

open Text

/-- A row of fields and the line it is reported under. -/
structure Row where
  line : Nat
  fields : List Bytes
  deriving DecidableEq, Repr

/-- Where in a row the scanner stands. -/
inductive Place where
  /-- Before the first byte of a row. -/
  | rowStart
  /-- Before the first byte of a field. -/
  | fieldStart
  /-- In a field, outside of quotes. -/
  | bare
  /-- In a field, inside quotes. -/
  | quoted
  /-- Behind a quote that closes the field or is the first of two. -/
  | quoteSeen
  deriving DecidableEq, Repr

/-- What the scanner knows of the row it is in. -/
structure Scan where
  place : Place
  /-- The bytes of the current field, last first. -/
  field : Bytes
  /-- The fields before the current one, last first. -/
  fields : List Bytes
  /-- The line of the row. -/
  line : Nat
  /-- One more than the line feeds so far. -/
  reached : Nat
  deriving DecidableEq, Repr

namespace Scan

/-- Before the first byte of a text. -/
def start : Scan := ⟨.rowStart, [], [], 1, 1⟩

/-- Does the byte end rows? -/
def isTerminator (b : UInt8) : Bool :=
  b == 0x0A || b == 0x0D

/-- The row made up by what has been scanned of it. -/
def row (s : Scan) : Row :=
  ⟨s.line, (s.field.reverse :: s.fields).reverse⟩

/-- Adds a byte to the field. -/
def add (s : Scan) (place : Place) (b : UInt8) : Scan :=
  { s with place, field := b :: s.field }

/-- Ends the field. -/
def endField (s : Scan) : Scan :=
  { s with place := .fieldStart, field := [], fields := s.field.reverse :: s.fields }

/-- Ends the row, and begins the next at the line reached. -/
def endRow (s : Scan) : Scan :=
  ⟨.rowStart, [], [], s.reached, s.reached⟩

/-- Takes a byte that stands outside of quotes. -/
def stepBare (s : Scan) (b : UInt8) : Scan × Option Row :=
  if b == 0x2C then (s.endField, none)
  else if isTerminator b then (s.endRow, some s.row)
  else (s.add .bare b, none)

/-- Takes a byte at the start of a field. -/
def stepFieldStart (s : Scan) (b : UInt8) : Scan × Option Row :=
  if b == 0x22 then ({ s with place := .quoted }, none) else s.stepBare b

/-- Takes a byte; answers with the row that it ends. -/
def step (s : Scan) (b : UInt8) : Scan × Option Row :=
  -- Line feeds count wherever they stand, between quotes as well.
  let s := if b == 0x0A then { s with reached := s.reached + 1 } else s
  match s.place with
  | .rowStart => if isTerminator b then (s, none) else s.stepFieldStart b
  | .fieldStart => s.stepFieldStart b
  | .bare => s.stepBare b
  | .quoted =>
    if b == 0x22 then ({ s with place := .quoteSeen }, none) else (s.add .quoted b, none)
  -- Two quotes are one, and the field goes on; a single one has closed it.
  | .quoteSeen => if b == 0x22 then (s.add .quoted b, none) else s.stepBare b

/-- The last row of a text that ends here, unless it ended before. -/
def finish (s : Scan) : Option Row :=
  match s.place with
  | .rowStart => none
  | _ => some s.row

/-- The rows that a text completes, after those found so far, which come last first. -/
def rowsAfter (found : List Row) (s : Scan) : Bytes → List Row
  | [] => (s.finish.toList ++ found).reverse
  | b :: rest =>
    let (s, row?) := s.step b
    rowsAfter (row?.toList ++ found) s rest

end Scan

/-- The rows of a text. -/
def rows (bs : Bytes) : List Row :=
  Scan.rowsAfter [] Scan.start (withoutMark bs)

end Registrar.Csv
