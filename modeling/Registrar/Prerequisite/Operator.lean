import Registrar.Json.Decoder
import Registrar.Json.Value
import Registrar.Text.Blank
import Registrar.Text.Case

/-!
# Operators of prerequisite rules

A group of a rule asks for all of its items or for any of them.  People write the operators in
any case and with blanks around them (`Operator.read?`); the label is the one canonical form.
-/

namespace Registrar.Prerequisite

/-- What a group asks of its items. -/
inductive Operator where
  /-- All of them. -/
  | and
  /-- Any of them. -/
  | or
  deriving DecidableEq, Repr

namespace Operator

open Json

/-- The canonical form of an operator. -/
def label : Operator → String
  | .and => "AND"
  | .or => "OR"

/-- The operator of this label. -/
def labelled : String → Option Operator
  | "AND" => some .and
  | "OR" => some .or
  | _ => none

/-- The operator that a text means. -/
def read? (s : String) : Option Operator :=
  labelled (Text.asciiUpper (Text.trim s))

/-- Reads an operator by its label. -/
def decoder : Decoder Operator :=
  .choice labelled

/-- Writes an operator. -/
def toJson (op : Operator) : Value :=
  .string op.label

end Operator

end Registrar.Prerequisite
