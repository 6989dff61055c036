import Registrar.Proofs.Audit.Shared
import Registrar.Proofs.Keyed

/-!
# Courses that are listed more than once

Nothing keeps a requirement from listing a course twice with different credits.  The audit of the
requirement takes the first listing then (`Requirement.toNat_creditsCompleted_audit`), and the
credits toward its major take the last one (`toNat_creditsToward`), so the two counts need not
agree (`two_listings_count_differently`).

They agree for every student exactly if the first and the last listing of each course have the
same credits, as they have where the repetitions have been cleared
(`counts_agree_iff_listings_agree`).
-/

namespace Registrar

variable {completed : List CourseId} {r : Requirement}

/-! ### What a list gives to a course -/

/-- The credits of the first listing of a course, none if it is not listed. -/
def Course.creditsListed (courses : List Course) (id : CourseId) : Credits :=
  match courses.find? fun c => c.id == id with
  | some c => c.credits
  | none => 0

/-- The credits of the last listing of a course, none if it is not listed. -/
def Course.creditsListedLast (courses : List Course) (id : CourseId) : Credits :=
  Course.creditsListed courses.reverse id

namespace Course

variable {courses : List Course} {id : CourseId}

theorem creditsListed_of_find? {c : Course} (h : (courses.find? fun d => d.id == id) = some c) :
    creditsListed courses id = c.credits := by
  rw [creditsListed, h]

theorem creditsListed_of_not_mem (h : id ∉ courses.map Course.id) :
    creditsListed courses id = 0 := by
  rw [creditsListed, (find?_key_eq_none_iff Course.id).mpr h]

theorem creditsListedLast_of_not_mem (h : id ∉ courses.map Course.id) :
    creditsListedLast courses id = 0 := by
  apply creditsListed_of_not_mem
  rwa [List.map_reverse, List.mem_reverse]

/-- Picked courses have the credits of their first listings. -/
theorem creditSum_picked_listed (completed : List CourseId) (courses : List Course) :
    creditSum (picked completed courses) =
      ∑ id ∈ (courses.map Course.id).toFinset.filter (· ∈ completed),
        (creditsListed courses id).toNat :=
  creditSum_picked fun c hc =>
    (creditsListed_of_find? (((firstListings_picked completed courses).mem_iff c).mp hc).1).symm

/-- Where no course is listed twice, the first listing is the last one. -/
theorem creditsListedLast_of_nodup (h : (courses.map Course.id).Nodup) (id : CourseId) :
    creditsListedLast courses id = creditsListed courses id := by
  induction courses with
  | nil => rfl
  | cons first rest ih =>
    obtain ⟨hnew, hrest⟩ := List.nodup_cons.mp h
    -- The last listing is looked for behind the first course before it is tried.
    have hlast : creditsListedLast (first :: rest) id =
        match rest.reverse.find? fun c => c.id == id with
        | some c => c.credits
        | none => creditsListed [first] id := by
      rw [creditsListedLast, creditsListed, List.reverse_cons, List.find?_append]
      cases rest.reverse.find? fun c => c.id == id <;> rfl
    by_cases hid : first.id = id
    · have hnone : (rest.reverse.find? fun c => c.id == id) = none := by
        rw [find?_key_eq_none_iff Course.id, List.map_reverse, List.mem_reverse, ← hid]
        exact hnew
      rw [hlast, hnone]
      simp [creditsListed, hid]
    · have hskip : creditsListed (first :: rest) id = creditsListed rest id := by
        rw [creditsListed, List.find?_cons_of_neg (by simpa using hid), creditsListed]
      have hsingle : creditsListed [first] id = 0 :=
        creditsListed_of_not_mem (by simpa using Ne.symm hid)
      rw [hlast, hsingle, hskip, ← ih hrest]
      rfl

end Course

/-! ### What the two counts take -/

/-- The audit of a requirement takes the first listing of each course. -/
theorem Requirement.toNat_creditsCompleted_audit (r : Requirement) (completed : List CourseId) :
    (r.audit completed).creditsCompleted.toNat =
      min (∑ id ∈ completedListed [r] completed, (Course.creditsListed r.courses id).toNat)
        Credits.limit := by
  have hlisted : listedIds [r] = r.courses.map Course.id := by simp [listedIds]
  rw [completedListed, hlisted, ← Course.creditSum_picked_listed]
  exact Credits.toNat_total _

/-- The credits toward a major take the last listing of each course in all its requirements. -/
theorem toNat_creditsToward (requirements : List Requirement) (completed : List CourseId) :
    (creditsToward requirements completed).toNat =
      min (∑ id ∈ completedListed requirements completed,
        (Course.creditsListedLast (requirements.flatMap Requirement.courses) id).toNat)
        Credits.limit := by
  have hsum : Course.creditSum (countedCourses requirements completed) =
      ∑ id ∈ completedListed requirements completed,
        (Course.creditsListedLast (requirements.flatMap Requirement.courses) id).toNat := by
    rw [countedCourses_eq, Course.creditSum_picked_listed, List.map_reverse,
      List.toFinset_reverse]
    rfl
  rw [← hsum]
  exact Credits.toNat_total _

theorem toNat_creditsToward_singleton (r : Requirement) (completed : List CourseId) :
    (creditsToward [r] completed).toNat =
      min (∑ id ∈ completedListed [r] completed, (Course.creditsListedLast r.courses id).toNat)
        Credits.limit := by
  rw [toNat_creditsToward, List.flatMap_singleton]

/-! ### Where they agree -/

/-- A student whose completed courses have one number of credits each has both counts alike. -/
theorem creditsToward_singleton_of_agree
    (h : ∀ id ∈ completed,
      Course.creditsListedLast r.courses id = Course.creditsListed r.courses id) :
    creditsToward [r] completed = (r.audit completed).creditsCompleted := by
  have hsum : ∑ id ∈ completedListed [r] completed, (Course.creditsListedLast r.courses id).toNat =
      ∑ id ∈ completedListed [r] completed, (Course.creditsListed r.courses id).toNat := by
    refine Finset.sum_congr rfl fun id hid => ?_
    rw [h id (mem_completedListed.mp hid).2]
  apply UInt32.toNat_inj.mp
  rw [toNat_creditsToward_singleton, hsum, Requirement.toNat_creditsCompleted_audit]

/-- Who has completed one course has its credits: no sum is cut off. -/
theorem sum_completedListed_singleton {id : CourseId} (h : id ∈ r.courses.map Course.id)
    (f : CourseId → Credits) :
    min (∑ i ∈ completedListed [r] [id], (f i).toNat) Credits.limit = (f id).toNat := by
  have hset : completedListed [r] [id] = {id} := by
    ext i
    simp only [mem_completedListed, List.mem_singleton, Finset.mem_singleton]
    refine and_iff_right_of_imp ?_
    rintro rfl
    simpa [listedIds] using h
  rw [hset, Finset.sum_singleton]
  exact Nat.min_eq_left (f id).toNat_le_limit

/-- Where the counts agree for every student, they do for who has completed one course and no
other, and so the listings of that course agree. -/
theorem listings_agree_of_counts
    (h : ∀ completed, creditsToward [r] completed = (r.audit completed).creditsCompleted)
    (id : CourseId) :
    Course.creditsListedLast r.courses id = Course.creditsListed r.courses id := by
  by_cases hid : id ∈ r.courses.map Course.id
  · have hcounts := congrArg UInt32.toNat (h [id])
    rw [toNat_creditsToward_singleton, Requirement.toNat_creditsCompleted_audit,
      sum_completedListed_singleton hid, sum_completedListed_singleton hid] at hcounts
    exact UInt32.toNat_inj.mp hcounts
  · rw [Course.creditsListedLast_of_not_mem hid, Course.creditsListed_of_not_mem hid]

/-- **The two counts of a requirement agree where its listings do.**  Its own audit counts each
completed course as it is listed first, and the credits toward a major of this requirement alone
count it as it is listed last.  They are the same for every student exactly if the two listings of
each course have the same credits, for a student whose completed courses have, and always once the
repetitions have been cleared. -/
theorem counts_agree_iff_listings_agree (r : Requirement) :
    (∀ completed,
      (r.audit completed).creditsCompleted.toNat =
        min (∑ id ∈ completedListed [r] completed, (Course.creditsListed r.courses id).toNat)
          Credits.limit ∧
      (creditsToward [r] completed).toNat =
        min (∑ id ∈ completedListed [r] completed, (Course.creditsListedLast r.courses id).toNat)
          Credits.limit) ∧
    ((∀ completed, creditsToward [r] completed = (r.audit completed).creditsCompleted) ↔
      ∀ id, Course.creditsListedLast r.courses id = Course.creditsListed r.courses id) ∧
    (∀ completed, (∀ id ∈ completed,
        Course.creditsListedLast r.courses id = Course.creditsListed r.courses id) →
      creditsToward [r] completed = (r.audit completed).creditsCompleted) ∧
    ∀ completed, creditsToward [r.withDistinctCourses] completed =
      (r.withDistinctCourses.audit completed).creditsCompleted := by
  refine ⟨fun completed => ?_, ⟨listings_agree_of_counts, fun h completed => ?_⟩, ?_, ?_⟩
  · exact ⟨r.toNat_creditsCompleted_audit completed, toNat_creditsToward_singleton r completed⟩
  · exact creditsToward_singleton_of_agree fun id _ => h id
  · exact fun completed => creditsToward_singleton_of_agree
  · intro completed
    -- Requirements that are built have no course twice.
    have hnodup : (r.withDistinctCourses.courses.map Course.id).Nodup := by
      show ((Course.distinct r.courses).map Course.id).Nodup
      rw [Course.distinct, map_distinctBy]
      exact nodup_distinct _
    exact creditsToward_singleton_of_agree fun id _ => Course.creditsListedLast_of_nodup hnodup id

/-- A course is listed with three credits and again with five.  Who has completed it has three
credits of the requirement and five toward a major that asks for nothing else. -/
theorem two_listings_count_differently :
    let r : Requirement := ⟨1, ⟨"CS", "BS"⟩, "Core", none, none,
      [⟨1, "CS", "101", "", 3⟩, ⟨1, "CS", "101", "", 5⟩]⟩
    (r.audit [1]).creditsCompleted = 3 ∧ creditsToward [r] [1] = 5 ∧
    ¬ ∀ (r : Requirement) (completed : List CourseId),
      creditsToward [r] completed = (r.audit completed).creditsCompleted := by
  intro r
  have hdiffer : creditsToward [r] [1] ≠ (r.audit [1]).creditsCompleted := by decide
  exact ⟨by decide, by decide, fun h => hdiffer (h r [1])⟩

end Registrar
