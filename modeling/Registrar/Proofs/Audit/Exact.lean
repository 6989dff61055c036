import Registrar.Proofs.Audit.Credits
import Registrar.Proofs.Distinct

/-!
# Audits in exact sums

Audits reckon with totals that are cut off at the greatest number of credits.  What they say is
still what exact sums say (`Course.creditSum`): a threshold is a number of credits itself, so an
exact sum reaches it exactly if its total does, and what is left of it is the same.

The courses that count are picked by id from a list without repetitions (`Course.picked`), for a
requirement (`completedCourses_audit`) as well as for a major (`countedCourses_eq`), where it makes
no difference that they are picked first and cleared of repetitions then.  `Course.FirstListings`
says what such a pick is by the list and the ids alone.  Of a course that is listed more than once
the first listing counts toward a requirement and the last one toward a major.

`Requirement.AuditedExactly` says what an audit finds by the fields of the requirement: by its
least number of credits if it has one, and otherwise by its courses.
-/

namespace Registrar

/-- The exact sum of the credits of courses. -/
def Course.creditSum (courses : List Course) : Nat :=
  Credits.sum (courses.map Course.credits)

variable {completed : List CourseId} {least : UInt32} {c : Course}

/-! ### The courses that count -/

namespace Course

/-- Of the listed courses those are found whose ids are to be kept: in the order of the list, no
id twice, and each course as it is listed first. -/
structure FirstListings (kept : CourseId → Prop) [DecidablePred kept] (listed found : List Course) :
    Prop where
  sublist : found.Sublist listed
  nodup : (found.map Course.id).Nodup
  ids_eq : found.map Course.id = (listed.map Course.id).eraseDups.filter fun id => kept id
  mem_iff : ∀ c, c ∈ found ↔ (listed.find? fun d => d.id == c.id) = some c ∧ kept c.id

theorem firstListings_filter (kept : CourseId → Prop) [DecidablePred kept] (listed : List Course) :
    FirstListings kept listed ((Course.distinct listed).filter fun c => kept c.id) := by
  -- Clearing repetitions and taking ids may change places, and so may the filter.
  have hids : ((Course.distinct listed).filter fun c => kept c.id).map Course.id =
      (Registrar.distinct (listed.map Course.id)).filter fun id => kept id := by
    rw [← map_distinctBy, List.filter_map]
    rfl
  constructor
  · exact List.filter_sublist.trans (distinctBy_sublist Course.id listed)
  · rw [hids]
    exact (nodup_distinct _).filter _
  · rw [hids, distinct_eq_eraseDups]
  · intro c
    rw [List.mem_filter, decide_eq_true_iff]
    exact and_congr_left' mem_distinctBy_iff

/-- The completed ones of listed courses, each as it is listed first. -/
def picked (completed : List CourseId) (courses : List Course) : List Course :=
  (Course.distinct courses).filter fun c => completed.contains c.id

theorem firstListings_picked (completed : List CourseId) (courses : List Course) :
    FirstListings (· ∈ completed) courses (picked completed courses) := by
  simpa only [picked, List.contains_eq_mem] using firstListings_filter (· ∈ completed) courses

theorem mem_map_id_picked {courses : List Course} {id : CourseId} :
    id ∈ (picked completed courses).map Course.id ↔
      id ∈ courses.map Course.id ∧ id ∈ completed := by
  rw [(firstListings_picked completed courses).ids_eq, List.mem_filter, List.mem_eraseDups,
    decide_eq_true_iff]

/-- Courses are picked before or after the repetitions are cleared. -/
theorem distinct_filter (completed : List CourseId) (courses : List Course) :
    Course.distinct (courses.filter fun c => completed.contains c.id) = picked completed courses :=
  distinctBy_filter Course.id (fun id => completed.contains id) courses

end Course

theorem Requirement.completedCourses_audit (r : Requirement) (completed : List CourseId) :
    (r.audit completed).completedCourses = Course.picked completed r.courses := rfl

theorem Requirement.firstListings_remainingCourses (r : Requirement) (completed : List CourseId) :
    Course.FirstListings (· ∉ completed) r.courses (r.audit completed).remainingCourses := by
  have hfound := Course.firstListings_filter (· ∉ completed) r.courses
  simp only [decide_not, ← List.contains_eq_mem] at hfound
  exact hfound

/-- The courses that count toward a major are picked where the last listing of a course is the
first. -/
theorem countedCourses_eq (requirements : List Requirement) (completed : List CourseId) :
    countedCourses requirements completed =
      Course.picked completed (requirements.flatMap Requirement.courses).reverse := by
  show Course.distinct ((requirements.flatMap Requirement.courses).filter
    fun c => completed.contains c.id).reverse = _
  rw [← List.filter_reverse, Course.distinct_filter]

theorem firstListings_countedCourses (requirements : List Requirement)
    (completed : List CourseId) :
    Course.FirstListings (· ∈ completed) (requirements.flatMap Requirement.courses).reverse
      (countedCourses requirements completed) := by
  rw [countedCourses_eq]
  exact Course.firstListings_picked completed _

/-! ### What is reckoned from them -/

namespace Requirement

variable {r : Requirement}

/-- A least number of credits makes a threshold of it. -/
theorem mode_of_minCredits (hleast : r.minCredits = some least) :
    r.mode = .creditThreshold least := by
  rw [mode, hleast]

theorem mode_of_no_minCredits (hnone : r.minCredits = none) : r.mode = .enumeration := by
  rw [mode, hnone]

theorem statusOf_threshold (hmode : r.mode = .creditThreshold least)
    (done left : List Course) :
    r.statusOf done left =
      if least.toNat ≤ Course.creditSum done then .complete
      else if 0 < Course.creditSum done then .inProgress
      else .notStarted := by
  unfold statusOf
  rw [hmode]
  simp only [Credits.le_total_iff, Credits.total_pos_iff]
  rfl

theorem statusOf_enumeration (hmode : r.mode = .enumeration)
    (done left : List Course) :
    r.statusOf done left =
      if left = [] then .complete else if done ≠ [] then .inProgress else .notStarted := by
  unfold statusOf
  rw [hmode]
  simp only [List.isEmpty_iff, ne_eq, ite_not]

theorem toNat_creditsLeft_threshold (hmode : r.mode = .creditThreshold least)
    (done left : List Course) :
    (r.creditsLeft done left).toNat = least.toNat - Course.creditSum done := by
  unfold creditsLeft
  rw [hmode]
  exact Credits.toNat_minus_total least _

theorem toNat_creditsLeft_enumeration (hmode : r.mode = .enumeration)
    (done left : List Course) :
    (r.creditsLeft done left).toNat = min (Course.creditSum left) Credits.limit := by
  unfold creditsLeft
  rw [hmode]
  exact Credits.toNat_total _

/-- Nothing is left of a threshold exactly if it is reached. -/
theorem creditsLeft_eq_zero_iff (hmode : r.mode = .creditThreshold least)
    (done left : List Course) :
    r.creditsLeft done left = 0 ↔ r.statusOf done left = .complete := by
  have hleft := toNat_creditsLeft_threshold hmode done left
  rw [← UInt32.toNat_inj, hleft, UInt32.toNat_zero, statusOf_threshold hmode]
  split_ifs with hreached hsome
  · exact iff_of_true (by omega) rfl
  · exact iff_of_false (by omega) (by simp)
  · exact iff_of_false (by omega) (by simp)

end Requirement

/-- What is left of the credits of a major, by the exact sum of those that count. -/
theorem Major.toNat_creditsRemaining_audit (m : Major) (requirements : List Requirement)
    (completed : List CourseId) :
    (m.audit requirements completed).creditsRemaining.toNat =
      m.totalCreditsRequired.toNat -
        Course.creditSum (countedCourses requirements completed) :=
  Credits.toNat_minus_total _ _

/-! ### Audits -/

/-- What an audit of a requirement says, in exact sums: which courses it takes to be completed and
to remain, and what follows from the sums of their credits.  Where the requirement has a least
number of credits, these are compared with it; where it has none, every course is asked for. -/
structure Requirement.AuditedExactly (r : Requirement) (completed : List CourseId)
    (a : RequirementAudit) : Prop where
  completedCourses : Course.FirstListings (· ∈ completed) r.courses a.completedCourses
  remainingCourses : Course.FirstListings (· ∉ completed) r.courses a.remainingCourses
  creditsCompleted : a.creditsCompleted.toNat =
    min (Course.creditSum a.completedCourses) (2 ^ 32 - 1)
  threshold : ∀ least, r.minCredits = some least →
    a.mode = .creditThreshold least ∧
    a.status = (if least.toNat ≤ Course.creditSum a.completedCourses then .complete
      else if 0 < Course.creditSum a.completedCourses then .inProgress
      else .notStarted) ∧
    a.creditsRemaining.toNat = least.toNat - Course.creditSum a.completedCourses ∧
    (a.creditsRemaining = 0 ↔ a.status = .complete)
  enumeration : r.minCredits = none →
    a.mode = .enumeration ∧
    a.status = (if a.remainingCourses = [] then .complete
      else if a.completedCourses ≠ [] then .inProgress
      else .notStarted) ∧
    a.creditsRemaining.toNat = min (Course.creditSum a.remainingCourses) (2 ^ 32 - 1)

theorem Requirement.auditedExactly (r : Requirement) (completed : List CourseId) :
    r.AuditedExactly completed (r.audit completed) where
  completedCourses := Course.firstListings_picked completed r.courses
  remainingCourses := r.firstListings_remainingCourses completed
  creditsCompleted := Credits.toNat_total _
  threshold := by
    intro least hleast
    have hmode := mode_of_minCredits hleast
    exact ⟨hmode, statusOf_threshold hmode _ _, toNat_creditsLeft_threshold hmode _ _,
      creditsLeft_eq_zero_iff hmode _ _⟩
  enumeration := by
    intro hnone
    have hmode := mode_of_no_minCredits hnone
    exact ⟨hmode, statusOf_enumeration hmode _ _, toNat_creditsLeft_enumeration hmode _ _⟩

/-- **Cutting off totals never changes a verdict.**  The audit of a requirement takes the first
listing of each course, and its status and credits are those of exact sums; only the numbers of
credits that it reports stop at the limit.  For a major the last listing of each completed course
counts, once, and what is left of the required credits is what the exact sum leaves. -/
theorem audits_are_exact (completed : List CourseId) :
    (∀ r : Requirement, r.AuditedExactly completed (r.audit completed)) ∧
    ∀ (m : Major) (requirements : List Requirement),
      let listed := requirements.flatMap Requirement.courses
      let counted := countedCourses requirements completed
      (counted.map Course.id).Nodup ∧
      (∀ c, c ∈ counted ↔
        (listed.reverse.find? fun d => d.id == c.id) = some c ∧ c.id ∈ completed) ∧
      (m.audit requirements completed).creditsRemaining.toNat =
        m.totalCreditsRequired.toNat - Course.creditSum counted := by
  refine ⟨fun r => r.auditedExactly completed, fun m requirements => ?_⟩
  intro listed counted
  -- Only the first of several listings is picked, and the first of the reverse is the last.
  have hcounted : Course.FirstListings (· ∈ completed) listed.reverse counted :=
    firstListings_countedCourses requirements completed
  exact ⟨hcounted.nodup, hcounted.mem_iff, m.toNat_creditsRemaining_audit requirements completed⟩

/-- The credits of two courses are more than can be reported, and a threshold at the limit is
reached all the same. -/
example :
    let a := Requirement.audit ⟨1, ⟨"CS", "BS"⟩, "Core", none, some 4294967295,
      [⟨1, "CS", "1", "", 4294967295⟩, ⟨2, "CS", "2", "", 5⟩, ⟨1, "CS", "1", "", 9⟩]⟩ [1, 2]
    a.creditsCompleted = 4294967295 ∧ a.status = .complete ∧ a.creditsRemaining = 0 := by
  decide

end Registrar
