import Registrar.Proofs.Prerequisite.Missing

/-!
# Further courses

Whoever completes further courses keeps every rule that is met, and nothing new comes to be
missing: what is unmet afterwards was unmet before, in the same order and no more often
(`unmet_sublist`).  For this only the courses that the rule names need to be kept, so no others
make a difference (`satisfiedBy_congr`, `unmet_congr`).

The missing courses are the unmet ones without repetitions.  They shrink as a set only: where a
group comes to be met, a course that it named first moves to its next occurrence.
-/

namespace Registrar.Prerequisite

namespace Rule

variable {completed more : List CourseId} {r : Rule}

theorem unmetAll_sublist {items : List Rule}
    (h : ∀ r ∈ items, (r.unmet more).Sublist (r.unmet completed)) :
    (unmetAll more items).Sublist (unmetAll completed items) := by
  induction items with
  | nil => exact List.Sublist.refl _
  | cons r rs ih =>
    have hfirst := h r List.mem_cons_self
    have hrest := ih fun r hr => h r (List.mem_cons_of_mem _ hr)
    exact hfirst.append hrest

/-- Where the courses that a rule names are kept, no more is unmet than before, and in the same
order. -/
theorem unmet_sublist (h : ∀ id ∈ r.leaves, id ∈ completed → id ∈ more) :
    (r.unmet more).Sublist (r.unmet completed) := by
  induction r with
  | course id =>
    -- A course that is completed afterwards is asked for no more.
    by_cases hmore : id ∈ more
    · rw [unmet_eq_nil (satisfiedBy_course.mpr hmore)]
      exact List.nil_sublist _
    · have hnow : id ∉ completed := fun hid => hmore (h id (List.mem_singleton_self id) hid)
      simp [unmet, hmore, hnow]
  | group op items ih =>
    cases hmore : (group op items).satisfiedBy more with
    | true =>
      rw [unmet_eq_nil hmore]
      exact List.nil_sublist _
    | false =>
      -- A group that is not met afterwards was not met before either.
      have hnow : (group op items).satisfiedBy completed = false := by
        rw [Bool.eq_false_iff] at hmore ⊢
        intro hmet
        exact hmore (satisfiedBy_of_leaves h hmet)
      have hitem : ∀ r ∈ items, (r.unmet more).Sublist (r.unmet completed) := by
        intro r hmem
        exact ih r hmem fun id hid => h id (mem_leavesAll.mpr ⟨r, hmem, hid⟩)
      rw [unmet_group op items hmore, unmet_group op items hnow]
      exact unmetAll_sublist hitem

theorem satisfiedBy_congr (h : ∀ id ∈ r.leaves, id ∈ completed ↔ id ∈ more) :
    r.satisfiedBy completed = r.satisfiedBy more := by
  rw [Bool.eq_iff_iff]
  exact ⟨satisfiedBy_of_leaves fun id hid => (h id hid).mp,
    satisfiedBy_of_leaves fun id hid => (h id hid).mpr⟩

theorem unmet_congr (h : ∀ id ∈ r.leaves, id ∈ completed ↔ id ∈ more) :
    r.unmet completed = r.unmet more := by
  have hto : (r.unmet completed).Sublist (r.unmet more) :=
    unmet_sublist fun id hid => (h id hid).mpr
  have hfrom : (r.unmet more).Sublist (r.unmet completed) :=
    unmet_sublist fun id hid => (h id hid).mp
  exact hto.antisymm hfrom

end Rule

/-- **Further courses never hurt, and only the courses of a tree matter to it.**  With further
courses a tree that is fulfilled stays so, and no course comes to be missing that was not missing
before.  Whoever has completed the same of the courses that the tree names is told the same: both
whether it is fulfilled and what is missing, in the same order. -/
theorem further_courses_never_hurt (t : Tree) :
    (∀ completed more, completed ⊆ more →
      (satisfied completed (some t) = true → satisfied more (some t) = true) ∧
      missing more (some t) ⊆ missing completed (some t)) ∧
    ∀ completed others, (∀ id ∈ t.courses, id ∈ completed ↔ id ∈ others) →
      satisfied completed (some t) = satisfied others (some t) ∧
      missing completed (some t) = missing others (some t) := by
  constructor
  · intro completed more h
    refine ⟨Rule.satisfiedBy_mono h, fun id hid => ?_⟩
    have hunmet : (t.root.unmet more).Sublist (t.root.unmet completed) :=
      Rule.unmet_sublist fun id _ hid => h hid
    exact Rule.mem_missing.mpr (hunmet.subset (Rule.mem_missing.mp hid))
  · -- Nothing else in the lists is looked at, as the leaves are the courses of the tree.
    intro completed others h
    have hleaves : ∀ id ∈ t.root.leaves, id ∈ completed ↔ id ∈ others :=
      fun id hid => h id (Rule.mem_courses.mpr hid)
    refine ⟨Rule.satisfiedBy_congr hleaves, ?_⟩
    show t.root.missing completed = t.root.missing others
    rw [Rule.missing_eq_distinct_unmet, Rule.missing_eq_distinct_unmet, Rule.unmet_congr hleaves]

/-- Who completes an alternative still misses some of what was missing before, but no longer in
that order; a course that the tree does not name makes no difference. -/
theorem further_courses_never_hurt_of_alternative :
    let t : Tree := ⟨.group .and [.group .or [.course 1, .course 2], .course 3, .course 1], 3⟩
    missing [2] (some t) ⊆ missing [] (some t) ∧
    missing [] (some t) = [1, 2, 3] ∧ missing [2] (some t) = [3, 1] ∧
    missing [2, 9] (some t) = missing [2] (some t) := by
  intro t
  obtain ⟨hfurther, hsame⟩ := further_courses_never_hurt t
  have hcourses : t.courses = [1, 2, 3] := by decide +kernel
  have hagree : ∀ id ∈ t.courses, id ∈ [2, 9] ↔ id ∈ [2] := by
    rw [hcourses]
    simp
  exact ⟨(hfurther [] [2] (List.nil_subset _)).2, by decide, by decide, (hsame _ _ hagree).2⟩

end Registrar.Prerequisite
