import Registrar.Course
import Registrar.Prerequisite.Operator

/-!
# Prerequisite rules

A `Rule` is an expression over courses: one course, or a group of rules of which all or any are
asked for.  Rules may be nested to any depth before they are admitted to the store, so the depth
and the list of courses are found with a stack of pending rules, which grows on the heap; each
step takes one node off the stack, so the total `weight` of what is pending falls.

`Rule.text` renders a rule as an expression, with parentheses around every group but the
outermost and those without items.
-/

namespace Registrar.Prerequisite

/-- An expression over courses. -/
inductive Rule where
  | course (id : CourseId)
  | group (op : Operator) (items : List Rule)
  deriving Repr

namespace Rule

/-! ### Equality -/

mutual

/-- Decides whether two rules are the same. -/
def decEq : (a b : Rule) → Decidable (a = b)
  | .course x, .course y =>
    if h : x = y then isTrue (by rw [h]) else isFalse (by simpa using h)
  | .group op xs, .group op' ys =>
    if h : op = op' then
      match decEqList xs ys with
      | isTrue h' => isTrue (by rw [h, h'])
      | isFalse h' => isFalse (by simp [h'])
    else isFalse (by simp [h])
  | .course _, .group _ _ => isFalse (by simp)
  | .group _ _, .course _ => isFalse (by simp)

/-- Decides whether two lists of rules are the same. -/
def decEqList : (xs ys : List Rule) → Decidable (xs = ys)
  | [], [] => isTrue rfl
  | x :: xs, y :: ys =>
    match decEq x y, decEqList xs ys with
    | isTrue h, isTrue h' => isTrue (by rw [h, h'])
    | isFalse h, _ => isFalse (by simp [h])
    | _, isFalse h' => isFalse (by simp [h'])
  | [], _ :: _ => isFalse (by simp)
  | _ :: _, [] => isFalse (by simp)

end

instance : DecidableEq Rule := decEq

/-! ### Weight -/

mutual

/-- The number of nodes of a rule. -/
def weight : Rule → Nat
  | .course _ => 1
  | .group _ items => weights items + 1

/-- The number of nodes of some rules together. -/
def weights : List Rule → Nat
  | [] => 0
  | r :: rs => weight r + weights rs

end

theorem weight_pos (r : Rule) : 0 < r.weight := by
  cases r <;> simp [weight]

theorem weights_append (xs ys : List Rule) : weights (xs ++ ys) = weights xs + weights ys := by
  induction xs with
  | nil => simp [weights]
  | cons x xs ih => simp [weights, ih]; omega

theorem weights_reverse (xs : List Rule) : weights xs.reverse = weights xs := by
  induction xs with
  | nil => rfl
  | cons x xs ih => simp [weights, weights_append, ih]; omega

/-! ### Depth -/

/-- The stack with these rules pushed on it one after another, each at the same level. -/
def pushAll (level : Nat) (items : List Rule) (pending : List (Rule × Nat)) :
    List (Rule × Nat) :=
  items.reverse.map (fun r => (r, level)) ++ pending

theorem map_fst_pushAll (level : Nat) (items : List Rule) (pending : List (Rule × Nat)) :
    (pushAll level items pending).map Prod.fst = items.reverse ++ pending.map Prod.fst := by
  have h : (Prod.fst ∘ fun r : Rule => (r, level)) = id := rfl
  simp [pushAll, h]

/-- The greatest level of a node, those of the pending rules and their parts included. -/
def deepest (found : Nat) : List (Rule × Nat) → Nat
  | [] => found
  | (.course _, level) :: pending => deepest (max found level) pending
  | (.group _ items, level) :: pending =>
    -- The last item is visited first; for a maximum the order does not matter.
    deepest (max found level) (pushAll (level + 1) items pending)
termination_by pending => weights (pending.map Prod.fst)
decreasing_by
  · simp [weights, weight]
  · simp only [map_fst_pushAll, weights_append, weights_reverse, List.map_cons, weights, weight]
    omega

/-- The number of nodes on the longest way from the rule down to one of its parts. -/
def depth (r : Rule) : Nat :=
  deepest 0 [(r, 1)]

/-! ### Courses -/

/-- The courses of the pending rules that are not among those found, which come last first. -/
def coursesAfter (found : List CourseId) : List Rule → List CourseId
  | [] => found.reverse
  | .course id :: pending =>
    coursesAfter (if found.contains id then found else id :: found) pending
  | .group _ items :: pending => coursesAfter found (items ++ pending)
termination_by pending => weights pending
decreasing_by
  · simp [weights, weight]
  · simp [weights, weight, weights_append]

/-- Every course of the rule once, in the order in which they come first. -/
def courses (r : Rule) : List CourseId :=
  coursesAfter [] [r]

/-! ### Rendering -/

mutual

/-- The expression of a rule; a group with items that is `inner` stands in parentheses. -/
def textWithin (inner : Bool) : Rule → String
  | .course id => toString id.toNat
  | .group op [] => op.label ++ "()"
  | .group op (first :: rest) =>
    let text := textWithin true first ++ textAfter op rest
    if inner then "(" ++ text ++ ")" else text

/-- The expressions of the items after the first, each after the operator. -/
def textAfter (op : Operator) : List Rule → String
  | [] => ""
  | r :: rs => " " ++ op.label ++ " " ++ textWithin true r ++ textAfter op rs

end

/-- The expression of a rule. -/
def text (r : Rule) : String :=
  textWithin false r

end Rule

end Registrar.Prerequisite
