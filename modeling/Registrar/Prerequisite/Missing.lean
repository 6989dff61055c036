import Registrar.Prerequisite.Rule

/-!
# Completed and missing courses

`Rule.satisfiedBy` evaluates a rule for a list of completed courses.  `Rule.missing` lists the
courses to be completed: every unmet part of a group that asks for all of its items, every
alternative of one that asks for any while none of them is met, and nothing of a part that is
met.
-/

namespace Registrar.Prerequisite.Rule

mutual

/-- Do the completed courses fulfil the rule? -/
def satisfiedBy (completed : List CourseId) : Rule → Bool
  | .course id => completed.contains id
  | .group .and items => allSatisfiedBy completed items
  | .group .or items => anySatisfiedBy completed items

/-- Do the completed courses fulfil every one of the rules? -/
def allSatisfiedBy (completed : List CourseId) : List Rule → Bool
  | [] => true
  | r :: rs => satisfiedBy completed r && allSatisfiedBy completed rs

/-- Do the completed courses fulfil one of the rules? -/
def anySatisfiedBy (completed : List CourseId) : List Rule → Bool
  | [] => false
  | r :: rs => satisfiedBy completed r || anySatisfiedBy completed rs

end

mutual

/-- The missing courses found so far, which come last first, and those of a rule. -/
def missingAfter (completed : List CourseId) (found : List CourseId) : Rule → List CourseId
  | .course id =>
    if completed.contains id || found.contains id then found else id :: found
  | .group .and items => missingAfterAll completed found items
  | .group .or items =>
    if anySatisfiedBy completed items then found else missingAfterAll completed found items

/-- The missing courses found so far, which come last first, and those of some rules. -/
def missingAfterAll (completed : List CourseId) (found : List CourseId) :
    List Rule → List CourseId
  | [] => found
  | r :: rs => missingAfterAll completed (missingAfter completed found r) rs

end

/-- The courses to be completed for a rule, each once, in the order in which they come first. -/
def missing (completed : List CourseId) (r : Rule) : List CourseId :=
  (missingAfter completed [] r).reverse

end Registrar.Prerequisite.Rule
