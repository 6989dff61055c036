import Registrar.Prerequisite.Rule
import Registrar.Proofs.Distinct
import Mathlib.Order.Nat

/-!
# Depth and courses of a rule

The depth of a rule and its list of courses are found with a stack of pending rules.  Both are
the values that recursion on the rule gives:

* `depth_eq_height`: the depth is one more than the greatest depth of an item.
* `courses_eq_distinct_leaves`: the courses are those of the leaves from left to right, each
  where it comes first.

Proofs about rules go by `Rule.itemsInduction`, which assumes of a group that the statement holds
of each of its items.

Of specs and of rules alike, a part is found by the indices that lead to it (`follow`).
-/

namespace Registrar.Prerequisite

/-! ### Paths -/

/-- What the indices lead to, from one thing to one of its parts after another. -/
def follow {α : Type} (parts : α → List α) : α → List Nat → Option α
  | a, [] => some a
  | a, i :: path => (parts a)[i]?.bind fun part => follow parts part path

theorem follow_cons_eq_some_iff {α : Type} {parts : α → List α} {a b : α} {i : Nat}
    {path : List Nat} :
    follow parts a (i :: path) = some b ↔
      ∃ part, (parts a)[i]? = some part ∧ follow parts part path = some b :=
  Option.bind_eq_some_iff

namespace Rule

/-! ### Induction -/

/-- To show something of every rule, show it of a course, and of a group all items of which have
it. -/
@[induction_eliminator]
theorem itemsInduction {motive : Rule → Prop} (course : ∀ id, motive (.course id))
    (group : ∀ op items, (∀ r ∈ items, motive r) → motive (.group op items)) (r : Rule) :
    motive r :=
  @Rule.rec motive (fun items => ∀ r ∈ items, motive r)
    course group
    (fun _ h => absurd h List.not_mem_nil)
    (fun _ _ first rest _ h => (List.mem_cons.mp h).elim (fun e => e ▸ first) (rest _)) r

/-! ### Depth -/

mutual

/-- One for a course and for a group without items, and otherwise one more than the greatest
height of an item. -/
def height : Rule → Nat
  | .course _ => 1
  | .group _ items => heights items + 1

/-- The greatest height of some rules, none for no rules. -/
def heights : List Rule → Nat
  | [] => 0
  | r :: rs => max (height r) (heights rs)

end

theorem heights_le_iff {items : List Rule} {n : Nat} :
    heights items ≤ n ↔ ∀ r ∈ items, r.height ≤ n := by
  induction items with
  | nil => simp [heights]
  | cons r rs ih => rw [heights, Nat.max_le, ih, List.forall_mem_cons]

/-- The levels on the stack reach as deep as the heights of the rules on it say, whatever the
order in which they are visited. -/
theorem deepest_le_iff {found : Nat} {pending : List (Rule × Nat)} {n : Nat} :
    deepest found pending ≤ n ↔ found ≤ n ∧ ∀ p ∈ pending, p.2 + p.1.height ≤ n + 1 := by
  -- By induction along the loop, whatever has been found and is pending.
  induction found, pending using deepest.induct with
  | case1 found => simp [deepest]
  | case2 found id level pending ih =>
    rw [deepest, ih, Nat.max_le, and_assoc, List.forall_mem_cons]
    simp [height]
  | case3 found op items level pending ih =>
    -- The items of the group go on one level below it.
    have hitems : (∀ r ∈ items, level + 1 + r.height ≤ n + 1) ∧ level ≤ n ↔
        level + (heights items + 1) ≤ n + 1 := by
      have h := @heights_le_iff items (n - level)
      constructor
      · rintro ⟨hr, hlevel⟩
        have := h.mpr fun r hr' => by have := hr r hr'; omega
        omega
      · intro hle
        refine ⟨fun r hr => ?_, by omega⟩
        have := h.mp (by omega) r hr
        omega
    rw [deepest, ih]
    simp only [pushAll, List.mem_append, List.mem_map, List.mem_reverse, List.mem_cons,
      Nat.max_le, height, forall_eq_or_imp, ← hitems]
    constructor
    · rintro ⟨⟨hfound, hlevel⟩, hp⟩
      exact ⟨hfound, ⟨fun r hr => hp (r, level + 1) (.inl ⟨r, hr, rfl⟩), hlevel⟩,
        fun p hp' => hp p (.inr hp')⟩
    · rintro ⟨hfound, ⟨hr, hlevel⟩, hp⟩
      refine ⟨⟨hfound, hlevel⟩, ?_⟩
      rintro p (⟨r, hr', rfl⟩ | hp')
      · exact hr r hr'
      · exact hp p hp'

/-- The depth found with a stack is the height. -/
theorem depth_eq_height (r : Rule) : r.depth = r.height := by
  refine eq_of_forall_ge_iff fun n => ?_
  rw [depth, deepest_le_iff]
  simp only [Nat.zero_le, List.mem_singleton, forall_eq, true_and]
  omega

/-! ### Courses -/

mutual

/-- The courses that the rule names from left to right, as often as it names them. -/
def leaves : Rule → List CourseId
  | .course id => [id]
  | .group _ items => leavesAll items

/-- The courses that some rules name from left to right. -/
def leavesAll : List Rule → List CourseId
  | [] => []
  | r :: rs => leaves r ++ leavesAll rs

end

theorem leavesAll_append (rs ss : List Rule) :
    leavesAll (rs ++ ss) = leavesAll rs ++ leavesAll ss := by
  induction rs with
  | nil => rfl
  | cons r rs ih => simp [leavesAll, ih]

theorem mem_leavesAll {rs : List Rule} {id : CourseId} :
    id ∈ leavesAll rs ↔ ∃ r ∈ rs, id ∈ r.leaves := by
  induction rs with
  | nil => simp [leavesAll]
  | cons r rs ih => simp [leavesAll, ih]

/-- The stack notes the leaves from left to right. -/
theorem coursesAfter_eq (found : List CourseId) (pending : List Rule) :
    coursesAfter found pending = ((leavesAll pending).foldl note found).reverse := by
  induction found, pending using coursesAfter.induct with
  | case1 found => simp [coursesAfter, leavesAll]
  | case2 found id pending ih =>
    rw [coursesAfter]
    simp only [dite_eq_ite] at ih
    exact ih
  | case3 found op items pending ih =>
    rw [coursesAfter, ih, leavesAll_append]
    rfl

/-- The courses found with a stack are the leaves, each where it comes first. -/
theorem courses_eq_distinct_leaves (r : Rule) : r.courses = distinct r.leaves := by
  rw [courses, coursesAfter_eq, reverse_foldl_note]
  simp [leavesAll, distinct, distinctBy]

@[simp] theorem mem_courses {r : Rule} {id : CourseId} : id ∈ r.courses ↔ id ∈ r.leaves := by
  rw [courses_eq_distinct_leaves, mem_distinct]

end Rule

end Registrar.Prerequisite
