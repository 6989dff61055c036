import Registrar.Proofs.Prerequisite.Contribution
import Mathlib.Logic.Function.Iterate

/-!
# The loops behind depth and courses

The depth of a rule and its courses are found by loops that take one rule after another off a
stack and push its items.  A turn of such a loop takes one node off the stack for good, so a loop
ends after as many turns as the rule has nodes, however deep the rule is and in whatever order the
items are pushed (`Drains.endsAfter`).  What is found then is what recursion on the rule gives
(`traversals_follow_recursion`).
-/

namespace Registrar.Prerequisite

/-! ### Loops over a stack -/

section

variable {φ ρ : Type}

/-- The loop that takes turns until its stack is empty ends after just this many turns, and then
it has found this. -/
structure EndsAfter (turn : φ × List ρ → φ × List ρ) (start : φ × List ρ) (turns : Nat)
    (found : φ) : Prop where
  stack_eq_nil_iff : ∀ n, (turn^[n] start).2 = [] ↔ turns ≤ n
  found_eq : (turn^[turns] start).1 = found

/-- A turn makes the stack lighter by one, and the loop that goes on from there finds the same. -/
structure Drains (turn : φ × List ρ → φ × List ρ) (load : List ρ → Nat)
    (result : φ × List ρ → φ) : Prop where
  load_eq_zero_iff : ∀ pending, load pending = 0 ↔ pending = []
  load_turn : ∀ s, load (turn s).2 = load s.2 - 1
  result_turn : ∀ s, result (turn s) = result s
  result_nil : ∀ found, result (found, []) = found

variable {turn : φ × List ρ → φ × List ρ} {load : List ρ → Nat} {result : φ × List ρ → φ}

theorem Drains.load_iterate (h : Drains turn load result) (n : Nat) (s : φ × List ρ) :
    load (turn^[n] s).2 = load s.2 - n := by
  induction n with
  | zero => rfl
  | succ n ih => rw [Function.iterate_succ_apply', h.load_turn, ih, Nat.sub_sub]

theorem Drains.result_iterate (h : Drains turn load result) (n : Nat) (s : φ × List ρ) :
    result (turn^[n] s) = result s := by
  induction n with
  | zero => rfl
  | succ n ih => rw [Function.iterate_succ_apply', h.result_turn, ih]

/-- The loop ends after as many turns as the stack weighs. -/
theorem Drains.endsAfter (h : Drains turn load result) (start : φ × List ρ) :
    EndsAfter turn start (load start.2) (result start) := by
  have hstack : ∀ n, (turn^[n] start).2 = [] ↔ load start.2 ≤ n := by
    intro n
    rw [← h.load_eq_zero_iff, h.load_iterate, Nat.sub_eq_zero_iff_le]
  refine ⟨hstack, ?_⟩
  -- On an empty stack the result is what has been found, and no turn has changed the result.
  have hend : turn^[load start.2] start = ((turn^[load start.2] start).1, []) :=
    Prod.ext rfl ((hstack _).mpr le_rfl)
  rw [← h.result_iterate (load start.2) start, hend, h.result_nil]

end

namespace Rule

theorem weights_eq_zero_iff {rules : List Rule} : weights rules = 0 ↔ rules = [] := by
  cases rules with
  | nil => simp [weights]
  | cons r rs =>
    have hpos := weight_pos r
    simp only [weights, List.cons_ne_nil, iff_false]
    omega

/-! ### Depth -/

/-- Takes a rule off the stack and notes its level.  The items are pushed one level further down,
so the last one is on top. -/
def noteLevel : Nat × List (Rule × Nat) → Nat × List (Rule × Nat)
  | (found, []) => (found, [])
  | (found, (.course _, level) :: pending) => (max found level, pending)
  | (found, (.group _ items, level) :: pending) =>
    (max found level, pushAll (level + 1) items pending)

theorem drains_noteLevel :
    Drains noteLevel (fun pending => weights (pending.map Prod.fst)) fun s => deepest s.1 s.2 where
  load_eq_zero_iff pending := by rw [weights_eq_zero_iff, List.map_eq_nil_iff]
  load_turn s := by
    obtain ⟨found, pending⟩ := s
    cases pending with
    | nil => rfl
    | cons top rest =>
      obtain ⟨r, level⟩ := top
      cases r with
      | course id => simp [noteLevel, weights, weight]
      | group op items =>
        -- The order of the items does not matter for their weight.
        simp only [noteLevel, map_fst_pushAll, weights_append, weights_reverse, List.map_cons,
          weights, weight]
        omega
  result_turn s := by
    obtain ⟨found, pending⟩ := s
    cases pending with
    | nil => rfl
    | cons top rest =>
      obtain ⟨r, level⟩ := top
      cases r with
      | course id => simp only [noteLevel, deepest]
      | group op items => simp only [noteLevel, deepest]
  result_nil found := by rw [deepest]

theorem heights_eq_max? (items : List Rule) :
    heights items = (items.map height).max?.getD 0 := by
  induction items with
  | nil => rfl
  | cons r rs ih =>
    rw [heights, ih, List.map_cons, List.max?_cons, Option.getD_some]
    cases (rs.map height).max? with
    -- Without further rules the first one has the greatest height.
    | none => exact Nat.max_zero _
    | some greatest => rfl

/-- The depth is one more than the greatest depth of an item, and one if there are no items. -/
theorem depth_eq_max? (r : Rule) : r.depth = 1 + (r.parts.map depth).max?.getD 0 := by
  have hdepth : depth = height := funext depth_eq_height
  rw [hdepth]
  cases r with
  | course id => rfl
  | group op items => rw [height, parts, heights_eq_max?, Nat.add_comm]

/-! ### Courses -/

/-- Takes a rule off the stack and notes a course.  The items are pushed so that the first one is
on top. -/
def noteCourse : List CourseId × List Rule → List CourseId × List Rule
  | (found, []) => (found, [])
  | (found, .course id :: pending) => (note found id, pending)
  | (found, .group _ items :: pending) => (found, items ++ pending)

theorem drains_noteCourse :
    Drains noteCourse weights fun s => (coursesAfter s.1 s.2).reverse where
  load_eq_zero_iff _ := weights_eq_zero_iff
  load_turn s := by
    obtain ⟨found, pending⟩ := s
    cases pending with
    | nil => rfl
    | cons r rest =>
      cases r with
      | course id => simp [noteCourse, weights, weight]
      | group op items =>
        -- The group is taken off, and its items come in its place.
        simp only [noteCourse, weights, weight, weights_append]
        omega
  result_turn s := by
    obtain ⟨found, pending⟩ := s
    cases pending with
    | nil => rfl
    | cons r rest =>
      cases r with
      | course id => simp only [noteCourse, coursesAfter, note]
      | group op items => simp only [noteCourse, coursesAfter]
  result_nil found := by rw [coursesAfter, List.reverse_reverse]

/-- A course is named exactly if a path leads to a leaf with it. -/
theorem mem_leaves_iff_exists_at? {r : Rule} {id : CourseId} :
    id ∈ r.leaves ↔ ∃ path, r.at? path = some (.course id) := by
  induction r with
  | course other =>
    simp only [leaves, List.mem_singleton, at?_course]
    constructor
    · rintro rfl
      exact ⟨[], rfl, rfl⟩
    · rintro ⟨_, _, h⟩
      exact Rule.course.inj h
  | group op items ih =>
    rw [leaves, mem_leavesAll]
    constructor
    · rintro ⟨item, hitem, hid⟩
      obtain ⟨path, hpath⟩ := (ih item hitem).mp hid
      obtain ⟨i, hi⟩ := List.mem_iff_getElem?.mp hitem
      exact ⟨i :: path, at?_cons_eq_some_iff.mpr ⟨item, hi, hpath⟩⟩
    · rintro ⟨path, hpath⟩
      -- At the empty path the group itself stands.
      cases path with
      | nil => exact absurd (Option.some.inj hpath) (by simp)
      | cons i path =>
        obtain ⟨item, hi, hpath⟩ := at?_cons_eq_some_iff.mp hpath
        have hitem : item ∈ items := List.mem_of_getElem? hi
        exact ⟨item, hitem, (ih item hitem).mpr ⟨path, hpath⟩⟩

/-- **The loops do what recursion does.**  For every rule, the loop behind its depth and the loop
behind its courses end after as many turns as the rule has nodes.  The depth is one more than the
greatest depth of an item, and one if there are no items.  The courses are those of the leaves from
left to right, each where it comes first, and a course is among them exactly if a leaf has it. -/
theorem traversals_follow_recursion (r : Rule) :
    EndsAfter noteLevel (0, [(r, 1)]) r.weight r.depth ∧
    r.depth = 1 + (r.parts.map depth).max?.getD 0 ∧
    EndsAfter noteCourse ([], [r]) r.weight r.courses.reverse ∧
    r.courses = r.leaves.eraseDups ∧
    ∀ id, id ∈ r.courses ↔ ∃ path, r.at? path = some (.course id) := by
  have hlevels := drains_noteLevel.endsAfter (0, [(r, 1)])
  have hcourses := drains_noteCourse.endsAfter ([], [r])
  refine ⟨hlevels, r.depth_eq_max?, hcourses, ?_, fun id => ?_⟩
  · rw [courses_eq_distinct_leaves, distinct_eq_eraseDups]
  · rw [mem_courses, mem_leaves_iff_exists_at?]

/-- A course that is named again stays where it came first. -/
example : courses (.group .and [.course 2, .group .or [.course 1, .course 2], .course 3]) =
    [2, 1, 3] := by
  cbv

end Rule

end Registrar.Prerequisite
