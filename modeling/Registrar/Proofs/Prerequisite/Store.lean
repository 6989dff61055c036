import Registrar.Prerequisite.Store
import Mathlib.Tactic.SplitIfs

/-!
# Laws of the store of prerequisites

`Store.tree?` is what a store means: `replace` and `remove` change it at one course
(`tree?_replace`, `tree?_remove`) and answer with what it was there.
-/

namespace Registrar.Prerequisite.Store

@[simp] theorem tree?_empty (course : CourseId) : empty.tree? course = none :=
  rfl

/-- The trees of other courses stay. -/
theorem lookup_others (s : Store) (course other : CourseId) :
    (s.others course).lookup other = if other = course then none else s.tree? other := by
  obtain ⟨entries⟩ := s
  simp only [others, tree?]
  induction entries with
  | nil => simp
  | cons entry rest ih =>
    obtain ⟨c, t⟩ := entry
    -- An entry of the course is left out, and it is found for no other course.
    by_cases hc : c = course
    · subst hc
      rw [List.filter_cons_of_neg (by simp), ih, List.lookup_cons]
      split_ifs with h
      · rfl
      · rw [beq_eq_false_iff_ne.mpr h]
    · rw [List.filter_cons_of_pos (by simpa using hc), List.lookup_cons, List.lookup_cons, ih]
      by_cases h : other = c
      · subst h
        simp [hc]
      · rw [beq_eq_false_iff_ne.mpr h]

@[simp] theorem tree?_replace (s : Store) (course other : CourseId) (t : Tree) :
    (s.replace course t).2.tree? other = if other = course then some t else s.tree? other := by
  simp only [replace, tree?, List.lookup_cons, lookup_others]
  by_cases h : other = course
  · simp [h]
  · rw [beq_eq_false_iff_ne.mpr h]
    simp [h]

/-- Storing the tree that is stored changes no tree. -/
theorem tree?_replace_self {s : Store} {course : CourseId} {t : Tree} (ht : s.tree? course = some t)
    (other : CourseId) : (s.replace course t).2.tree? other = s.tree? other := by
  rw [tree?_replace]
  split_ifs with hother
  · rw [hother, ht]
  · rfl

@[simp] theorem tree?_remove (s : Store) (course other : CourseId) :
    (s.remove course).2.tree? other = if other = course then none else s.tree? other :=
  lookup_others s course other

end Registrar.Prerequisite.Store
