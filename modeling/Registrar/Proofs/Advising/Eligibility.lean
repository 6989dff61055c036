import Registrar.Proofs.Holdings.Ascending

/-!
# Views of eligibility

Four questions are about which courses a student may take: the list of all such courses, the flag
for one course, the missing courses, and the report that has both with the expression.

* `isEligible_eq`, `missingPrerequisites_eq` and `eligibility_eq` answer for a student and a course
  on record from the same completed courses and the same tree.
* `eligibleCourses_eq` is the list of courses, and `couldTake_iff` says by enrollments which ones
  are in it.

`eligibility_views_agree` puts them together for reachable holdings, in which courses are listed by
strictly ascending id.
-/

namespace Registrar

/-- Nothing is missing of prerequisites that are fulfilled. -/
theorem Prerequisite.missing_eq_nil {completed : List CourseId} {tree : Option Prerequisite.Tree}
    (h : satisfied completed tree = true) : missing completed tree = [] := by
  cases tree with
  | none => rfl
  | some t =>
    have hunmet : t.root.unmet completed = [] := Rule.unmet_eq_nil h
    rw [missing, Rule.missing_eq_distinct_unmet, hunmet]
    rfl

namespace Desk

open Prerequisite (satisfied missing)

variable {h : Holdings} {limit : Nat} {student : StudentId} {course : CourseId}

/-! ### One course -/

/-- A student on record may take a course on record if the completed courses fulfil its tree. -/
theorem isEligible_eq (hstudent : student ∈ h.records.studentIds)
    (hcourse : course ∈ h.records.courseIds) :
    (ofHoldings h limit).isEligible student course =
      .ok (satisfied (h.records.completedCourses student) (h.prerequisites.tree? course)) := by
  obtain ⟨c, hc⟩ := (exists_requireCourse_iff limit).mpr hcourse
  rw [isEligible, requireStudent_eq_ok_iff.mpr hstudent, hc]
  rfl

theorem eligibility_eq (hstudent : student ∈ h.records.studentIds) {c : Course}
    (hc : h.records.course? course = some c) :
    (ofHoldings h limit).eligibility student course =
      .ok ⟨c, satisfied (h.records.completedCourses student) (h.prerequisites.tree? course),
        (missing (h.records.completedCourses student)
          (h.prerequisites.tree? course)).filterMap h.records.course?,
        (h.prerequisites.tree? course).map Prerequisite.Tree.text⟩ := by
  rw [eligibility, requireStudent_eq_ok_iff.mpr hstudent, requireCourse_eq_ok_iff.mpr hc]
  show ((ofHoldings h limit).findCourses (missing _ _) >>= _) = _
  rw [findCourses_eq]
  rfl

/-- The answer about one course is what the other questions about it are answered with. -/
structure Reports (desk : Desk) (student : StudentId) (course : CourseId) (e : Eligibility) :
    Prop where
  flag : desk.isEligible student course = .ok e.eligible
  missing : desk.missingPrerequisites student course = .ok e.missingPrerequisites
  nothing_missing : e.eligible = true → e.missingPrerequisites = []
  expression_iff : ∀ text, e.expression = some text ↔
    ∃ t, desk.prerequisites course = .ok t ∧ t.text = text

/-- About a student and a course on record all is answered alike. -/
theorem exists_reports (hstudent : student ∈ h.records.studentIds)
    (hcourse : course ∈ h.records.courseIds) :
    ∃ e, (ofHoldings h limit).eligibility student course = .ok e ∧
      h.records.course? course = some e.course ∧ (ofHoldings h limit).Reports student course e := by
  obtain ⟨c, hc⟩ := Option.isSome_iff_exists.mp (Records.isSome_course?_iff.mpr hcourse)
  refine ⟨_, eligibility_eq hstudent hc, hc, isEligible_eq hstudent hcourse,
    missingPrerequisites_eq hstudent hcourse, ?_, ?_⟩
  · intro hfulfilled
    show (missing _ _).filterMap _ = []
    rw [Prerequisite.missing_eq_nil hfulfilled]
    rfl
  · intro text
    simp only [prerequisites_eq_ok_iff, hcourse, true_and, Option.map_eq_some_iff]

/-! ### All courses -/

/-- The student could take the course next: it is neither completed nor in progress, and the
completed courses fulfil its prerequisites. -/
def couldTake (h : Holdings) (student : StudentId) (c : Course) : Bool :=
  !((h.records.completedCourses student).contains c.id
    || (h.records.coursesInProgress student).contains c.id)
    && satisfied (h.records.completedCourses student) (h.prerequisites.tree? c.id)

theorem selectEligible_eq (courses : List Course) :
    (ofHoldings h limit).selectEligible (h.records.completedCourses student)
        (h.records.coursesInProgress student) courses =
      .ok (courses.filter (couldTake h student)) := by
  induction courses with
  | nil => rfl
  | cons c rest ih =>
    rw [selectEligible, List.filter_cons, couldTake, ih]
    cases (h.records.completedCourses student).contains c.id
        || (h.records.coursesInProgress student).contains c.id with
    | true => rfl
    | false =>
      show Except.ok (if satisfied _ (h.prerequisites.tree? c.id) then _ else _) = _
      cases satisfied (h.records.completedCourses student) (h.prerequisites.tree? c.id) <;> rfl

theorem eligibleCourses_eq (hstudent : student ∈ h.records.studentIds) :
    (ofHoldings h limit).eligibleCourses student =
      .ok (h.records.courses.filter (couldTake h student)) := by
  rw [eligibleCourses, requireStudent_eq_ok_iff.mpr hstudent]
  exact selectEligible_eq h.records.courses

/-- A course on record could be taken next exactly if the student may take it and has neither
completed it nor is in it, in whatever semester. -/
theorem couldTake_iff (hstudent : student ∈ h.records.studentIds) {c : Course}
    (hc : c.id ∈ h.records.courseIds) :
    couldTake h student c = true ↔
      (ofHoldings h limit).isEligible student c.id = .ok true ∧
      ∀ e ∈ h.records.enrollments, e.student = student → e.course = c.id →
        e.status ≠ .completed ∧ e.status ≠ .inProgress := by
  -- The courses with a status are found in the enrollments of the student.
  have hcompleted : c.id ∈ h.records.completedCourses student ↔
      ∃ e ∈ h.records.enrollments, e.student = student ∧ e.course = c.id ∧ e.status = .completed :=
    Records.mem_coursesWithStatus
  have hinProgress : c.id ∈ h.records.coursesInProgress student ↔
      ∃ e ∈ h.records.enrollments, e.student = student ∧ e.course = c.id ∧
        e.status = .inProgress :=
    Records.mem_coursesWithStatus
  rw [isEligible_eq hstudent hc, Except.ok.injEq, couldTake, Bool.and_eq_true, Bool.not_eq_true',
    Bool.or_eq_false_iff, ← Bool.not_eq_true, ← Bool.not_eq_true, List.contains_iff_mem,
    List.contains_iff_mem, hcompleted, hinProgress, and_comm]
  refine and_congr_right fun _ => ⟨?_, ?_⟩
  · rintro ⟨hnone, hnone'⟩ e he hs hid
    exact ⟨fun hstatus => hnone ⟨e, he, hs, hid, hstatus⟩,
      fun hstatus => hnone' ⟨e, he, hs, hid, hstatus⟩⟩
  · intro hall
    constructor
    · rintro ⟨e, he, hs, hid, hstatus⟩
      exact (hall e he hs hid).1 hstatus
    · rintro ⟨e, he, hs, hid, hstatus⟩
      exact (hall e he hs hid).2 hstatus

/-! ### Unknown students -/

/-- About an unknown student nothing is answered, whatever the course. -/
structure Rejects (desk : Desk) (student : StudentId) (e : AdvisingError) : Prop where
  eligibleCourses : desk.eligibleCourses student = .error e
  isEligible : ∀ course, desk.isEligible student course = .error e
  missingPrerequisites : ∀ course, desk.missingPrerequisites student course = .error e
  eligibility : ∀ course, desk.eligibility student course = .error e

theorem rejects_of_not_mem (hstudent : student ∉ h.records.studentIds) :
    (ofHoldings h limit).Rejects student (.unknown (.student student)) := by
  have hrequire : (ofHoldings h limit).requireStudent student = _ :=
    requireStudent_of_not_mem hstudent
  constructor
  · rw [Desk.eligibleCourses, hrequire]
    rfl
  · intro course
    rw [Desk.isEligible, hrequire]
    rfl
  · intro course
    rw [Desk.missingPrerequisites, hrequire]
    rfl
  · intro course
    rw [Desk.eligibility, hrequire]
    rfl

/-! ### Reachable holdings -/

/-- **All views of eligibility agree.**  In reachable holdings the courses that a student on record
could take next are listed by strictly ascending id, and they are those on record that the student
may take and has no enrollment in that is completed or in progress.  The report about a course on
record carries the flag and the missing courses that are answered by themselves, none where the flag
is set, and the expression of the tree exactly if there is one.  And an unknown student is named as
such, also where the course is unknown too. -/
theorem eligibility_views_agree (hreach : h.Reachable) (limit : Nat) (student : StudentId) :
    let desk := ofHoldings h limit
    (student ∈ h.records.studentIds →
      (∃ courses, desk.eligibleCourses student = .ok courses ∧
        (courses.Pairwise fun a b => a.id < b.id) ∧
        ∀ c, c ∈ courses ↔ c ∈ h.records.courses ∧ desk.isEligible student c.id = .ok true ∧
          ∀ e ∈ h.records.enrollments, e.student = student → e.course = c.id →
            e.status ≠ .completed ∧ e.status ≠ .inProgress) ∧
      ∀ course ∈ h.records.courseIds, ∃ e, desk.eligibility student course = .ok e ∧
        h.records.course? course = some e.course ∧ desk.Reports student course e) ∧
    (student ∉ h.records.studentIds → desk.Rejects student (.unknown (.student student))) := by
  intro desk
  refine ⟨fun hstudent => ⟨?_, fun course hcourse => exists_reports hstudent hcourse⟩,
    rejects_of_not_mem⟩
  refine ⟨_, eligibleCourses_eq hstudent, ?_, fun c => ?_⟩
  · -- The courses that could be taken are a part of those on record, which ascend.
    exact hreach.ascending.courses.sublist List.filter_sublist
  · rw [List.mem_filter]
    exact and_congr_right fun hc => couldTake_iff hstudent (List.mem_map_of_mem hc)

/-- A catalog asks for course 1 before course 2 and for course 2 before course 3.  After a
transcript with course 1, a student could take course 2 next, and is told that it is missing for
course 3. -/
theorem eligibility_views_agree_of_transcript :
    let second : Course := ⟨2, "CS", "2", "", 3⟩
    ∃ h : Holdings, h.Reachable ∧
      (∃ courses, (ofHoldings h 8).eligibleCourses 9 = .ok courses ∧ second ∈ courses) ∧
      (∃ e, (ofHoldings h 8).eligibility 9 3 = .ok e ∧ (ofHoldings h 8).Reports 9 3 e ∧
        e.missingPrerequisites = [second]) ∧
      (ofHoldings h 8).Rejects 5 (.unknown (.student 5)) := by
  intro second
  let catalog := Text.bytes
    ("\x7b\"courses\":[\x7b\"id\":1,\"subject\":\"CS\",\"number\":\"1\",\"credits\":3\x7d,"
      ++ "\x7b\"id\":2,\"subject\":\"CS\",\"number\":\"2\",\"credits\":3,"
      ++ "\"prerequisites\":\x7b\"courseId\":1\x7d\x7d,"
      ++ "\x7b\"id\":3,\"subject\":\"CS\",\"number\":\"3\",\"credits\":3,"
      ++ "\"prerequisites\":\x7b\"courseId\":2\x7d\x7d],"
      ++ "\"students\":[\x7b\"id\":9,\"name\":\"Ada\"\x7d]\x7d")
  let transcript := Text.bytes "student_id,course_id,semester,status\n9,1,F1,passed\n"
  let start : Holdings :=
    ⟨⟨[⟨1, "CS", "1", "", 3⟩, second, ⟨3, "CS", "3", "", 3⟩], [], [], [⟨9, "Ada", []⟩], []⟩,
      ⟨[(3, ⟨.course 2, 1⟩), (2, ⟨.course 1, 1⟩)]⟩⟩
  have himport : Holdings.ofBytes catalog 8 = .ok start := by decide +kernel
  let h := start.run [.importTranscript transcript]
  have hreach : h.Reachable :=
    ⟨start, _, .imported himport, by simp [Holdings.Write.DeclaresNothing], rfl⟩
  -- The transcript completes the first course, which makes the second one eligible.
  obtain ⟨hknown, hunknown⟩ := eligibility_views_agree hreach 8 9
  obtain ⟨⟨courses, hcourses, -, hmem⟩, hreports⟩ := hknown (by decide +kernel)
  obtain ⟨e, he, -, hreported⟩ := hreports 3 (by decide +kernel)
  refine ⟨h, hreach, ⟨courses, hcourses, (hmem second).mpr ?_⟩, ⟨e, he, hreported, ?_⟩, ?_⟩
  · exact ⟨by decide +kernel, by decide +kernel, by decide +kernel⟩
  · have hmissing : (ofHoldings h 8).missingPrerequisites 9 3 = .ok [second] := by decide +kernel
    exact Except.ok.inj (hreported.missing.symm.trans hmissing)
  · exact (eligibility_views_agree hreach 8 5).2 (by decide +kernel)

end Desk

end Registrar
