import Registrar.Decimal.Shortest
import Registrar.Json.Quoted

/-!
# Writing JSON

A `Value` is what this library writes: members keep their order, numbers are natural or
percentages.  `Value.compact` writes it without blanks and `Value.pretty` with one item or member
a line.
-/

namespace Registrar.Json

/-- A JSON value to be written. -/
inductive Value where
  | null
  | boolean (b : Bool)
  | natural (n : Nat)
  /-- A finite double that is not negative, by its shortest decimal. -/
  | float (x : Float)
  | string (s : String)
  | array (items : List Value)
  | object (members : List (String × Value))

namespace Value

/-- The value of an optional member: left out when there is none. -/
def optional {α : Type} (name : String) (a : Option α) (write : α → Value) :
    List (String × Value) :=
  match a with
  | some a => [(name, write a)]
  | none => []

/-! ### Without blanks -/

mutual

/-- The text of a value without blanks. -/
def compact : Value → String
  | .null => "null"
  | .boolean b => if b then "true" else "false"
  | .natural n => toString n
  | .float x => Decimal.shortestText x
  | .string s => quote s
  | .array items => "[" ++ compactItems items ++ "]"
  | .object members => "\x7b" ++ compactMembers members ++ "\x7d"

/-- The texts of items, with commas between them. -/
def compactItems : List Value → String
  | [] => ""
  | [v] => compact v
  | v :: w :: rest => compact v ++ "," ++ compactItems (w :: rest)

/-- The texts of members, with commas between them. -/
def compactMembers : List (String × Value) → String
  | [] => ""
  | [(k, v)] => quote k ++ ":" ++ compact v
  | (k, v) :: m :: rest => quote k ++ ":" ++ compact v ++ "," ++ compactMembers (m :: rest)

end

/-! ### One item a line -/

/-- A line break and two blanks for each level. -/
def newline (level : Nat) : String :=
  "\n" ++ String.ofList (List.replicate (2 * level) ' ')

mutual

/-- The text of a value at a level of nesting, one item or member a line. -/
def prettyAt (level : Nat) : Value → String
  | .array [] => "[]"
  | .array (v :: rest) =>
    "[" ++ newline (level + 1) ++ prettyAt (level + 1) v ++ prettyItems (level + 1) rest
      ++ newline level ++ "]"
  | .object [] => "\x7b\x7d"
  | .object ((k, v) :: rest) =>
    "\x7b" ++ newline (level + 1) ++ quote k ++ ": " ++ prettyAt (level + 1) v
      ++ prettyMembers (level + 1) rest ++ newline level ++ "\x7d"
  | .null => "null"
  | .boolean b => if b then "true" else "false"
  | .natural n => toString n
  | .float x => Decimal.shortestText x
  | .string s => quote s

/-- The items after the first, each after a comma on a line of its own. -/
def prettyItems (level : Nat) : List Value → String
  | [] => ""
  | v :: rest => "," ++ newline level ++ prettyAt level v ++ prettyItems level rest

/-- The members after the first, each after a comma on a line of its own. -/
def prettyMembers (level : Nat) : List (String × Value) → String
  | [] => ""
  | (k, v) :: rest =>
    "," ++ newline level ++ quote k ++ ": " ++ prettyAt level v ++ prettyMembers level rest

end

/-- The text of a value, one item or member a line. -/
def pretty (v : Value) : String :=
  prettyAt 0 v

end Value

end Registrar.Json
