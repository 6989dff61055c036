import Registrar.Proofs.Audit.Exact
import Mathlib.Data.List.Forall2

/-!
# Audits with further courses

Whoever completes further courses falls behind in nothing (`RequirementAudit.Advances`).  All of it
comes from one observation: the courses that count are picked by id from a list that does not
depend on what is completed.  So with further courses the completed ones are picked from the same
list more generously, and the remaining ones more sparingly (`Course.picked_sublist`,
`Course.filter_remaining_sublist`), and sums of credits follow the sublists.
-/

namespace Registrar

variable {completed more : List CourseId} {courses others : List Course}

/-! ### Courses -/

theorem Course.creditSum_le_of_sublist (h : courses.Sublist others) :
    Course.creditSum courses ≤ Course.creditSum others :=
  Credits.sum_le_sum_of_sublist (h.map Course.credits)

theorem Course.picked_sublist (h : completed ⊆ more) (courses : List Course) :
    (Course.picked completed courses).Sublist (Course.picked more courses) := by
  apply List.monotone_filter_right
  intro c hc
  rw [List.contains_iff_mem] at hc ⊢
  exact h hc

theorem Course.filter_remaining_sublist (h : completed ⊆ more) (courses : List Course) :
    (courses.filter fun c => !more.contains c.id).Sublist
      (courses.filter fun c => !completed.contains c.id) := by
  apply List.monotone_filter_right
  intro c hc
  rw [Bool.not_eq_true', Bool.eq_false_iff, Ne, List.contains_iff_mem] at hc ⊢
  exact fun hmem => hc (h hmem)

theorem countedCourses_sublist (h : completed ⊆ more) (requirements : List Requirement) :
    (countedCourses requirements completed).Sublist (countedCourses requirements more) := by
  rw [countedCourses_eq, countedCourses_eq]
  exact Course.picked_sublist h _

/-! ### Requirements -/

/-- The second audit is of the same requirement and behind the first in nothing. -/
structure RequirementAudit.Advances (a b : RequirementAudit) : Prop where
  requirementId : b.requirementId = a.requirementId
  mode : b.mode = a.mode
  status : a.status.rank ≤ b.status.rank
  completedCourses : a.completedCourses.Sublist b.completedCourses
  remainingCourses : b.remainingCourses.Sublist a.remainingCourses
  creditsCompleted : a.creditsCompleted ≤ b.creditsCompleted
  creditsRemaining : b.creditsRemaining ≤ a.creditsRemaining

namespace RequirementStatus

theorem rank_le_complete (s : RequirementStatus) : s.rank ≤ complete.rank := by
  cases s <;> decide

theorem eq_complete_of_rank_le {s : RequirementStatus} (h : complete.rank ≤ s.rank) :
    s = complete := by
  cases s with
  | notStarted => exact absurd h (by decide)
  | inProgress => exact absurd h (by decide)
  | complete => rfl

/-- Where what makes for each of the later statuses is kept, the status is no less far along. -/
theorem rank_ladder_le {finished finished' started started' : Prop} [Decidable finished]
    [Decidable finished'] [Decidable started] [Decidable started']
    (hfinished : finished → finished') (hstarted : started → started') :
    (if finished then complete else if started then inProgress else notStarted).rank ≤
      (if finished' then complete else if started' then inProgress else notStarted).rank := by
  by_cases h : finished'
  · rw [if_pos h]
    exact rank_le_complete _
  · rw [if_neg h, if_neg (mt hfinished h)]
    by_cases h' : started'
    · rw [if_pos h']
      split_ifs <;> decide
    · rw [if_neg h', if_neg (mt hstarted h')]

end RequirementStatus

theorem RequirementAudit.Advances.isComplete {a b : RequirementAudit} (h : a.Advances b)
    (ha : a.isComplete = true) : b.isComplete = true := by
  have hstatus : a.status = .complete := by simpa [RequirementAudit.isComplete] using ha
  have hrank := h.status
  rw [hstatus] at hrank
  simp [RequirementAudit.isComplete, RequirementStatus.eq_complete_of_rank_le hrank]

namespace Requirement

variable {r : Requirement} {done left done' left' : List Course}

/-- With more courses completed and fewer left, a requirement is no less far along. -/
theorem rank_statusOf_le (hdone : done.Sublist done') (hleft : left'.Sublist left) :
    (r.statusOf done left).rank ≤ (r.statusOf done' left').rank := by
  -- A threshold looks at the sum of what is done, an enumeration at what is left.
  cases hmode : r.mode with
  | creditThreshold least =>
    have hsum := Course.creditSum_le_of_sublist hdone
    rw [statusOf_threshold hmode, statusOf_threshold hmode]
    exact RequirementStatus.rank_ladder_le (fun h => h.trans hsum) fun h => h.trans_le hsum
  | enumeration =>
    have hnone : left = [] → left' = [] := by
      rintro rfl
      exact List.sublist_nil.mp hleft
    have hsome : done ≠ [] → done' ≠ [] := by
      rintro hne rfl
      exact hne (List.sublist_nil.mp hdone)
    rw [statusOf_enumeration hmode, statusOf_enumeration hmode]
    exact RequirementStatus.rank_ladder_le hnone hsome

/-- With more courses completed and fewer left, no more credits remain. -/
theorem creditsLeft_le (hdone : done.Sublist done') (hleft : left'.Sublist left) :
    r.creditsLeft done' left' ≤ r.creditsLeft done left := by
  rw [UInt32.le_iff_toNat_le]
  cases hmode : r.mode with
  | creditThreshold least =>
    have hsum := Course.creditSum_le_of_sublist hdone
    rw [toNat_creditsLeft_threshold hmode, toNat_creditsLeft_threshold hmode]
    omega
  | enumeration =>
    have hsum := Course.creditSum_le_of_sublist hleft
    rw [toNat_creditsLeft_enumeration hmode, toNat_creditsLeft_enumeration hmode]
    omega

theorem audit_advances (h : completed ⊆ more) (r : Requirement) :
    (r.audit completed).Advances (r.audit more) := by
  have hdone := Course.picked_sublist h r.courses
  have hleft := Course.filter_remaining_sublist h r.distinctCourses
  constructor
  case requirementId => rfl
  case mode => rfl
  case status => exact rank_statusOf_le hdone hleft
  case completedCourses => exact hdone
  case remainingCourses => exact hleft
  case creditsCompleted => exact Credits.total_le_total_of_sublist (hdone.map Course.credits)
  case creditsRemaining => exact creditsLeft_le hdone hleft

end Requirement

/-! ### Majors -/

theorem creditsToward_le (h : completed ⊆ more) (requirements : List Requirement) :
    creditsToward requirements completed ≤ creditsToward requirements more :=
  Credits.total_le_total_of_sublist ((countedCourses_sublist h requirements).map Course.credits)

/-- The ids of the requirements that an audit finds complete, by the requirements themselves. -/
theorem Major.map_id_completeRequirements_audit (m : Major) (requirements : List Requirement)
    (completed : List CourseId) :
    (m.audit requirements completed).completeRequirements.map RequirementAudit.requirementId =
      (requirements.filter fun r => (r.audit completed).isComplete).map Requirement.id := by
  show ((requirements.map fun r => r.audit completed).filter RequirementAudit.isComplete).map
    RequirementAudit.requirementId = _
  rw [List.filter_map, List.map_map]
  rfl

/-- **Progress never regresses.**  With further courses every requirement of a major is at least as
far along as before, and so is the major: no fewer credits are completed, no more remain, and the
requirements that were complete are complete. -/
theorem progress_never_regresses (m : Major) (requirements : List Requirement)
    (h : completed ⊆ more) :
    let before := m.audit requirements completed
    let after := m.audit requirements more
    List.Forall₂ RequirementAudit.Advances before.requirements after.requirements ∧
    before.creditsCompleted ≤ after.creditsCompleted ∧
    after.creditsRemaining ≤ before.creditsRemaining ∧
    (before.completeRequirements.map RequirementAudit.requirementId).Sublist
      (after.completeRequirements.map RequirementAudit.requirementId) := by
  intro before after
  have hcredits : before.creditsCompleted ≤ after.creditsCompleted :=
    creditsToward_le h requirements
  refine ⟨?_, hcredits, Credits.minus_le_minus_left hcredits _, ?_⟩
  · show List.Forall₂ _ (requirements.map _) (requirements.map _)
    rw [List.forall₂_map_left_iff, List.forall₂_map_right_iff, List.forall₂_same]
    exact fun r _ => r.audit_advances h
  · -- Both lists are the same list of requirements, filtered by what is complete.
    rw [m.map_id_completeRequirements_audit, m.map_id_completeRequirements_audit]
    apply List.Sublist.map
    apply List.monotone_filter_right
    exact fun r hr => (r.audit_advances h).isComplete hr

/-- With the second of two courses a requirement of both comes to be complete, and one of some
credits, which was complete already, stays so. -/
theorem progress_never_regresses_of_second_course :
    let courses : List Course := [⟨1, "CS", "1", "", 3⟩, ⟨2, "CS", "2", "", 4⟩]
    let m : Major := ⟨⟨"CS", "BS"⟩, "Computing", 7⟩
    let requirements : List Requirement :=
      [⟨5, m.key, "Core", none, none, courses⟩, ⟨6, m.key, "Electives", none, some 3, courses⟩]
    ([1] : List CourseId) ⊆ [1, 2] ∧
    (m.audit requirements [1]).creditsCompleted ≤ (m.audit requirements [1, 2]).creditsCompleted ∧
    (m.audit requirements [1]).completeRequirements.map RequirementAudit.requirementId = [6] ∧
    [6].Sublist
      ((m.audit requirements [1, 2]).completeRequirements.map RequirementAudit.requirementId) := by
  intro courses m requirements
  have hmore : ([1] : List CourseId) ⊆ [1, 2] := by simp
  have hbefore : (m.audit requirements [1]).completeRequirements.map
      RequirementAudit.requirementId = [6] := by decide +kernel
  obtain ⟨-, hcredits, -, hcomplete⟩ := progress_never_regresses m requirements hmore
  rw [hbefore] at hcomplete
  exact ⟨hmore, hcredits, hbefore, hcomplete⟩

end Registrar
