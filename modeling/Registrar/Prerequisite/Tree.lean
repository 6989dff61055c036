import Registrar.Prerequisite.Missing
import Registrar.Prerequisite.Spec

/-!
# Admitted prerequisite trees

A `Tree` is a rule whose depth has been checked against a limit, together with that depth.
Whatever limit is asked for, the one that holds is between 1 and `maxDepth`.

`Tree.ofRule` admits a rule, `Tree.ofSpec` builds one from what a client has sent and names the
first node that is too deep, malformed or has an operator nobody knows, and `Tree.toSpec` goes
back.
-/

namespace Registrar.Prerequisite

/-- The greatest depth of a tree, whatever is configured. -/
def maxDepth : Nat := 64

/-- The limit that holds when this one is asked for. -/
def effectiveLimit (limit : Nat) : Nat :=
  max 1 (min limit maxDepth)

/-- Why a prerequisite is not admitted. -/
inductive Error where
  /-- A node is neither a course nor a group. -/
  | malformedNode (path : String)
  | unknownOperator (operator : String)
  | tooDeep (limit : Nat)
  deriving DecidableEq, Repr

/-- What is said of a prerequisite that is not admitted. -/
def Error.message : Error → String
  | .malformedNode path =>
    "malformed prerequisite node at " ++ path
      ++ ": expected either a courseId or a type with items"
  | .unknownOperator operator => "unknown prerequisite operator '" ++ operator ++ "'"
  | .tooDeep limit => "prerequisite tree exceeds the maximum depth of " ++ toString limit

/-- Reads an operator, or names the text that is none. -/
def readOperator (s : String) : Except Error Operator :=
  match Operator.read? s with
  | some op => .ok op
  | none => .error (.unknownOperator s)

/-! ### Rules from specs and back -/

/-- The path of an item of the node with this path. -/
def itemPath (path : String) (index : Nat) : String :=
  path ++ ".items[" ++ toString index ++ "]"

mutual

/-- The rule of a spec that stands at a path and a level, or the first fault in it. -/
def ruleOfSpec (limit : Nat) (path : String) (level : Nat) : Spec → Except Error Rule
  | .mk courseId operator items =>
    if level > limit then .error (.tooDeep limit)
    else match courseId, operator, items with
      | some id, none, none => .ok (.course id)
      | none, some operator, some specs => do
        let op ← readOperator operator
        let rules ← rulesOfSpecs limit path (level + 1) 0 specs
        pure (.group op rules)
      | _, _, _ => .error (.malformedNode path)

/-- The rules of specs that are items of the node at a path, from an index on. -/
def rulesOfSpecs (limit : Nat) (path : String) (level index : Nat) :
    List Spec → Except Error (List Rule)
  | [] => .ok []
  | s :: ss => do
    let rule ← ruleOfSpec limit (itemPath path index) level s
    let rules ← rulesOfSpecs limit path level (index + 1) ss
    pure (rule :: rules)

end

mutual

/-- The spec of a rule. -/
def Rule.toSpec : Rule → Spec
  | .course id => .ofCourse id
  | .group op items => .ofGroup op.label (rulesToSpecs items)

/-- The specs of rules. -/
def rulesToSpecs : List Rule → List Spec
  | [] => []
  | r :: rs => Rule.toSpec r :: rulesToSpecs rs

end

/-! ### Trees -/

/-- A rule that has been admitted, and its depth. -/
structure Tree where
  root : Rule
  depth : Nat
  deriving DecidableEq, Repr

namespace Tree

/-- Admits a rule that is not too deep. -/
def ofRule (root : Rule) (limit : Nat) : Except Error Tree :=
  let limit := effectiveLimit limit
  let depth := root.depth
  if depth > limit then .error (.tooDeep limit) else .ok ⟨root, depth⟩

/-- Builds a tree from what has been sent. -/
def ofSpec (spec : Spec) (limit : Nat) : Except Error Tree := do
  let root ← ruleOfSpec (effectiveLimit limit) "root" 1 spec
  pure ⟨root, root.depth⟩

/-- The tree of one operator over courses. -/
def flat (op : Operator) (courses : List CourseId) (limit : Nat) : Except Error Tree :=
  ofRule (.group op (courses.map .course)) limit

/-- Builds a tree from what has been sent in the short form. -/
def ofFlatSpec (spec : FlatSpec) (limit : Nat) : Except Error Tree := do
  let op ← readOperator spec.operator
  flat op spec.courseIds limit

/-- The tree as it would be sent. -/
def toSpec (t : Tree) : Spec :=
  t.root.toSpec

/-- Every course of the tree once, in the order in which they come first. -/
def courses (t : Tree) : List CourseId :=
  t.root.courses

/-- The tree as an expression. -/
def text (t : Tree) : String :=
  t.root.text

end Tree

/-! ### Courses with and without prerequisites -/

/-- Do the completed courses fulfil the prerequisites, if there are any? -/
def satisfied (completed : List CourseId) : Option Tree → Bool
  | some t => t.root.satisfiedBy completed
  | none => true

/-- The courses to be completed for the prerequisites, if there are any. -/
def missing (completed : List CourseId) : Option Tree → List CourseId
  | some t => t.root.missing completed
  | none => []

end Registrar.Prerequisite
