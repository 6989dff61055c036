import Registrar.Proofs.Holdings.Run

/-!
# Writes about other students

All enrollments stand in one list, and all students in another.  What the records know of one
student (`Records.SameAbout`) is the student and the enrollments with the student's id, and a write
that names other students alone leaves it as it is (`Records.Step.sameAbout`).

A desk needs nothing else of the records to answer a question about the student, courses, majors
and requirements apart (`Desk.SameAbout.sameAnswers`).  So whatever is written about others changes
no answer (`Desk.answers_unaffected_by_others`).
-/

namespace Registrar

/-! ### What records know of a student -/

namespace Records

variable {student : StudentId} {r r' r'' : Records} {w : Write}

/-- Other records know of the student, and of everything but students, what these know. -/
structure SameAbout (student : StudentId) (r r' : Records) : Prop where
  courses : r'.courses = r.courses
  majors : r'.majors = r.majors
  requirements : r'.requirements = r.requirements
  student? : r'.student? student = r.student? student
  enrollments : (r'.enrollments.filter fun e => e.student == student) =
    r.enrollments.filter fun e => e.student == student

theorem SameAbout.refl (student : StudentId) (r : Records) : r.SameAbout student r :=
  ⟨rfl, rfl, rfl, rfl, rfl⟩

theorem SameAbout.trans (h : r.SameAbout student r') (h' : r'.SameAbout student r'') :
    r.SameAbout student r'' :=
  ⟨h'.courses.trans h.courses, h'.majors.trans h.majors, h'.requirements.trans h.requirements,
    h'.student?.trans h.student?, h'.enrollments.trans h.enrollments⟩

/-- The courses with a status are read off the student's own enrollments. -/
theorem SameAbout.coursesWithStatus (h : r.SameAbout student r') (status : EnrollmentStatus) :
    r'.coursesWithStatus student status = r.coursesWithStatus student status := by
  have hown (es : List Enrollment) :
      (es.filter fun e => e.student == student && e.status == status) =
        (es.filter fun e => e.student == student).filter fun e => e.status == status := by
    simp only [List.filter_filter, Bool.and_comm]
  rw [Records.coursesWithStatus, Records.coursesWithStatus, hown, hown, h.enrollments]

theorem SameAbout.declaredMajors (h : r.SameAbout student r') :
    r'.declaredMajors student = r.declaredMajors student := by
  rw [Records.declaredMajors, Records.declaredMajors, h.student?]

/-! ### Writes that name other students -/

/-- All students that the write names are others, and it writes about nothing but students. -/
def Write.OnlyOthers (student : StudentId) : Write → Prop
  | .insertStudent s => s.id ≠ student
  | .declareMajor id _ => id ≠ student
  | .recordEnrollment e => e.student ≠ student
  | .applyEnrollments batch => ∀ e ∈ batch, e.student ≠ student
  | .insertCourse _ | .insertMajor _ | .insertRequirement _ => False

/-- A student that is added is not found under another id. -/
theorem student?_append {s : Student} (h : s.id ≠ student) (students : List Student) :
    ((students ++ [s]).find? fun known => known.id == student) =
      students.find? fun known => known.id == student := by
  rw [List.find?_append, List.find?_singleton, if_neg (by simpa using h), Option.or_none]

/-- A declaration of one student leaves the others as they are. -/
theorem student?_declaring {id : StudentId} (h : id ≠ student) (d : DeclaredMajor)
    (students : List Student) :
    ((students.map (Student.declaring id d)).find? fun known => known.id == student) =
      students.find? fun known => known.id == student := by
  induction students with
  | nil => rfl
  | cons first rest ih =>
    have hid : (first.declaring id d).id = first.id := by
      unfold Student.declaring
      split_ifs <;> rfl
    rw [List.map_cons, List.find?_cons, List.find?_cons, hid, ih]
    -- The student who is found is not the one who declares the major.
    cases hfound : first.id == student with
    | false => rfl
    | true =>
      have hother : ¬ (first.id == id) = true := by
        rw [beq_iff_eq.mp hfound, beq_iff_eq]
        exact h.symm
      rw [Student.declaring, if_neg hother]

/-- Settling an enrollment of one student touches no enrollment of another. -/
theorem filter_settle {e : Enrollment} (h : e.student ≠ student) (known : List Enrollment) :
    ((settle e known).filter fun e => e.student == student) =
      known.filter fun e => e.student == student := by
  induction known with
  | nil => simp [settle, h]
  | cons first rest ih =>
    rw [settle]
    split_ifs with hkey
    · -- The enrollment that is rewritten has the key of the new one.
      have hfirst : first.student = e.student :=
        congrArg Prod.fst (Enrollment.sameKey_iff.mp hkey)
      simp [hfirst, h]
    · rw [List.filter_cons, List.filter_cons, ih]

theorem filter_settled {batch : List Enrollment} (h : ∀ e ∈ batch, e.student ≠ student)
    (known : List Enrollment) :
    ((settled batch known).filter fun e => e.student == student) =
      known.filter fun e => e.student == student := by
  induction batch generalizing known with
  | nil => rfl
  | cons e rest ih =>
    obtain ⟨he, hrest⟩ := List.forall_mem_cons.mp h
    exact (ih hrest (settle e known)).trans (filter_settle he known)

theorem Step.sameAbout (hw : w.OnlyOthers student) (h : Step r w r') : r.SameAbout student r' := by
  cases h with
  | insertStudent => exact { SameAbout.refl student r with student? := student?_append hw _ }
  | declareMajor => exact { SameAbout.refl student r with student? := student?_declaring hw _ _ }
  | @recordEnrollment e =>
    have hne : e.student ≠ student := hw
    have hnew : [e].filter (fun e => e.student == student) = [] := by simpa using hne
    refine { SameAbout.refl student r with enrollments := ?_ }
    rw [List.filter_append, hnew, List.append_nil]
  | applyEnrollments =>
    exact { SameAbout.refl student r with enrollments := filter_settled hw _ }
  | insertCourse | insertMajor | insertRequirement => exact hw.elim

end Records

/-! ### What holdings know of a student -/

namespace Holdings

variable {student : StudentId} {h h' h'' : Holdings} {w : Write}

/-- Other holdings know of the student, and of everything but students, what these know. -/
structure SameAbout (student : StudentId) (h h' : Holdings) : Prop where
  records : h.records.SameAbout student h'.records
  prerequisites : h'.prerequisites = h.prerequisites

theorem SameAbout.refl (student : StudentId) (h : Holdings) : h.SameAbout student h :=
  ⟨.refl student h.records, rfl⟩

theorem SameAbout.trans (hfirst : h.SameAbout student h') (hsecond : h'.SameAbout student h'') :
    h.SameAbout student h'' :=
  ⟨hfirst.records.trans hsecond.records, hsecond.prerequisites.trans hfirst.prerequisites⟩

/-- All students that the write names are others, and it writes about nothing but students.  A
transcript names the students of its rows. -/
def Write.OnlyOthers (student : StudentId) : Write → Prop
  | .records w => w.OnlyOthers student
  | .importTranscript bs =>
    ∀ entries, Transcript.Lists bs entries → ∀ e ∈ entries, e.student ≠ student
  | .setPrerequisites _ _ _ | .setFlatPrerequisites _ _ _ | .removePrerequisites _ _ => False

/-- The enrollments that entries ask for are of the students of the entries. -/
theorem student_ne_of_enrolls {entries : List TranscriptEntry} {batch : List Enrollment}
    (h : List.Forall₂ Enrolls entries batch) (hothers : ∀ e ∈ entries, e.student ≠ student) :
    ∀ e ∈ batch, e.student ≠ student := by
  induction h with
  | nil => simp
  | cons hfirst _ ih =>
    obtain ⟨status, -, rfl⟩ := hfirst
    obtain ⟨hentry, hrest⟩ := List.forall_mem_cons.mp hothers
    exact List.forall_mem_cons.mpr ⟨hentry, ih hrest⟩

theorem Step.sameAbout (hw : w.OnlyOthers student) (hstep : Step h w h') :
    h.SameAbout student h' := by
  cases hstep with
  | records hstep => exact ⟨hstep.sameAbout hw, rfl⟩
  | @importTranscript bs entries batch records hread hbatch hstep =>
    have hentries : ∀ e ∈ entries, e.student ≠ student :=
      hw entries (Transcript.read_eq_ok_iff.mp hread)
    have hothers : (Records.Write.applyEnrollments batch).OnlyOthers student :=
      student_ne_of_enrolls hbatch hentries
    exact ⟨hstep.sameAbout hothers, rfl⟩
  | setPrerequisites | setFlatPrerequisites | removePrerequisites => exact hw.elim

theorem sameAbout_run {ws : List Write} (hws : ∀ w ∈ ws, w.OnlyOthers student) (h : Holdings) :
    h.SameAbout student (h.run ws) :=
  run_induction (.refl student h) fun _ hsame w hw =>
    hsame.trans (after_induction (.refl student _) fun _ => Step.sameAbout (hws w hw))

end Holdings

/-! ### What a desk answers about a student -/

namespace Desk

variable {student : StudentId} {d d' : Desk}

/-- Another desk has the same accesses refused, and its holdings know of the student what those of
this one know. -/
structure SameAbout (student : StudentId) (d d' : Desk) : Prop where
  holdings : d.holdings.SameAbout student d'.holdings
  outage : d'.outage = d.outage

/-- Another desk gives the same answer to every question about the student, also where the answer
is an error. -/
structure SameAnswers (student : StudentId) (d d' : Desk) : Prop where
  isEligible : ∀ course, d'.isEligible student course = d.isEligible student course
  missingPrerequisites : ∀ course,
    d'.missingPrerequisites student course = d.missingPrerequisites student course
  eligibility : ∀ course, d'.eligibility student course = d.eligibility student course
  eligibleCourses : d'.eligibleCourses student = d.eligibleCourses student
  majorAudit : ∀ key, d'.majorAudit student key = d.majorAudit student key
  overallAudit : d'.overallAudit student = d.overallAudit student
  requirementAudit : ∀ id, d'.requirementAudit student id = d.requirementAudit student id
  creditsCompleted : ∀ key, d'.creditsCompleted student key = d.creditsCompleted student key
  completedRequirements : ∀ key,
    d'.completedRequirements student key = d.completedRequirements student key
  remainingRequirements : ∀ key,
    d'.remainingRequirements student key = d.remainingRequirements student key

namespace SameAbout

/-! Every access yields the same. -/

theorem access (h : d.SameAbout student d') {α : Type} (kind : Access) (answer : α) :
    d'.access kind answer = d.access kind answer := by
  rw [Desk.access, Desk.access, h.outage]

theorem requireStudent (h : d.SameAbout student d') :
    d'.requireStudent student = d.requireStudent student := by
  rw [Desk.requireStudent, Desk.requireStudent, h.access, h.holdings.records.student?]

theorem findCourse (h : d.SameAbout student d') (course : CourseId) :
    d'.findCourse course = d.findCourse course := by
  rw [Desk.findCourse, Desk.findCourse, h.access, Records.course?, Records.course?,
    h.holdings.records.courses]

theorem requireCourse (h : d.SameAbout student d') (course : CourseId) :
    d'.requireCourse course = d.requireCourse course := by
  rw [Desk.requireCourse, Desk.requireCourse, h.findCourse]

theorem requireMajor (h : d.SameAbout student d') (key : MajorKey) :
    d'.requireMajor key = d.requireMajor key := by
  rw [Desk.requireMajor, Desk.requireMajor, h.access, Records.major?, Records.major?,
    h.holdings.records.majors]

theorem completedCourses (h : d.SameAbout student d') :
    d'.completedCourses student = d.completedCourses student := by
  rw [Desk.completedCourses, Desk.completedCourses, h.access, Records.completedCourses,
    Records.completedCourses, h.holdings.records.coursesWithStatus]

theorem requirementsOf (h : d.SameAbout student d') (key : MajorKey) :
    d'.requirementsOf key = d.requirementsOf key := by
  rw [Desk.requirementsOf, Desk.requirementsOf, h.access, Records.requirementsOf,
    Records.requirementsOf, h.holdings.records.requirements]

theorem declaredMajors (h : d.SameAbout student d') :
    d'.declaredMajors student = d.declaredMajors student := by
  rw [Desk.declaredMajors, Desk.declaredMajors, h.access, h.holdings.records.declaredMajors]

theorem tree? (h : d.SameAbout student d') (course : CourseId) :
    d'.tree? course = d.tree? course := by
  rw [Desk.tree?, Desk.tree?, h.access, h.holdings.prerequisites]

theorem majorInputs (h : d.SameAbout student d') (key : MajorKey) :
    d'.majorInputs student key = d.majorInputs student key := by
  rw [Desk.majorInputs, Desk.majorInputs, h.requireStudent, h.requireMajor, h.requirementsOf,
    h.completedCourses]

/-! So do the loops over accesses. -/

theorem findCourses (h : d.SameAbout student d') (ids : List CourseId) :
    d'.findCourses ids = d.findCourses ids := by
  induction ids with
  | nil => rfl
  | cons id rest ih => rw [Desk.findCourses, Desk.findCourses, h.findCourse, ih]

theorem selectEligible (h : d.SameAbout student d') (completed inProgress : List CourseId)
    (courses : List Course) :
    d'.selectEligible completed inProgress courses =
      d.selectEligible completed inProgress courses := by
  induction courses with
  | nil => rfl
  | cons c rest ih => rw [Desk.selectEligible, Desk.selectEligible, h.tree?, ih]

theorem auditAll (h : d.SameAbout student d') (completed : List CourseId)
    (declared : List DeclaredMajor) :
    d'.auditAll completed declared = d.auditAll completed declared := by
  induction declared with
  | nil => rfl
  | cons first rest ih =>
    rw [Desk.auditAll, Desk.auditAll, h.requireMajor, h.requirementsOf, ih]

theorem sameAnswers (h : d.SameAbout student d') : d.SameAnswers student d' where
  isEligible course := by
    simp only [Desk.isEligible, h.requireStudent, h.requireCourse, h.completedCourses, h.tree?]
  missingPrerequisites course := by
    simp only [Desk.missingPrerequisites, h.requireStudent, h.requireCourse, h.completedCourses,
      h.tree?, h.findCourses]
  eligibility course := by
    simp only [Desk.eligibility, h.requireStudent, h.requireCourse, h.completedCourses, h.tree?,
      h.findCourses]
  eligibleCourses := by
    simp only [Desk.eligibleCourses, h.requireStudent, h.completedCourses, h.access,
      Records.coursesInProgress, h.holdings.records.coursesWithStatus, h.holdings.records.courses,
      h.selectEligible]
  majorAudit key := by
    simp only [Desk.majorAudit, h.majorInputs, h.declaredMajors]
  overallAudit := by
    simp only [Desk.overallAudit, h.requireStudent, h.completedCourses, h.declaredMajors,
      h.auditAll]
  requirementAudit id := by
    simp only [Desk.requirementAudit, h.requireStudent, h.access, Records.requirement?,
      h.holdings.records.requirements, h.completedCourses]
  creditsCompleted key := by
    simp only [Desk.creditsCompleted, h.majorInputs]
  completedRequirements key := by
    simp only [Desk.completedRequirements, h.majorInputs]
  remainingRequirements key := by
    simp only [Desk.remainingRequirements, h.majorInputs]

end SameAbout

/-- Whatever is written about other students, accepted or refused, every question about the student
is answered as before. -/
theorem answers_unaffected_by_others (h : Holdings) (limit : Nat)
    (outage : Access → Option Refusal) (student : StudentId) {ws : List Holdings.Write}
    (hothers : ∀ w ∈ ws, w.OnlyOthers student) :
    SameAnswers student ⟨h, limit, outage⟩ ⟨h.run ws, limit, outage⟩ :=
  SameAbout.sameAnswers ⟨Holdings.sameAbout_run hothers h, rfl⟩

/-- Students 7 and 9 take the same course in the same semester.  Student 7 passes it, which opens
the next course to student 7, declares a major and is refused an enrollment, and student 5 comes in;
student 9 gets the same answers as before. -/
theorem answers_unaffected_by_others_of_classmate :
    let key : MajorKey := ⟨"CS", "BS"⟩
    let transcript := Text.bytes "student_id,course_id,semester,status\n7,1,F1,passed\n"
    let h : Holdings :=
      ⟨⟨[⟨1, "CS", "1", "", 3⟩, ⟨2, "CS", "2", "", 3⟩], [⟨key, "Computing", 6⟩], [],
        [⟨7, "Grace", []⟩, ⟨9, "Ada", []⟩],
        [⟨7, 1, "F1", .inProgress⟩, ⟨9, 1, "F1", .inProgress⟩]⟩,
        ⟨[(2, ⟨.course 1, 1⟩)]⟩⟩
    let ws : List Holdings.Write :=
      [.importTranscript transcript, .records (.declareMajor 7 ⟨key, none, true⟩),
        .records (.recordEnrollment ⟨7, 1, "F1", .dropped⟩),
        .records (.insertStudent ⟨5, "Eve", []⟩)]
    (∀ w ∈ ws, w.OnlyOthers 9) ∧
      ((ofHoldings h 8).isEligible 7 2 = .ok false ∧
        (ofHoldings (h.run ws) 8).isEligible 7 2 = .ok true) ∧
      SameAnswers 9 (ofHoldings h 8) (ofHoldings (h.run ws) 8) := by
  intro key transcript h ws
  -- The rows of the transcript name student 7 only.
  have hread : Transcript.read transcript = .ok [⟨2, 7, 1, "F1", "passed"⟩] := by decide +kernel
  have hrows : Holdings.Write.OnlyOthers 9 (.importTranscript transcript) := by
    intro entries hlists
    obtain rfl := Except.ok.inj (hread.symm.trans (Transcript.read_eq_ok_iff.mpr hlists))
    decide
  have hseven : (7 : StudentId) ≠ 9 := by decide
  have hfive : (5 : StudentId) ≠ 9 := by decide
  have hothers : ∀ w ∈ ws, w.OnlyOthers 9 := by
    simp only [ws, List.forall_mem_cons]
    exact ⟨hrows, hseven, hseven, hfive, fun _ hw => absurd hw List.not_mem_nil⟩
  refine ⟨hothers, ⟨by decide +kernel, by decide +kernel⟩, ?_⟩
  exact answers_unaffected_by_others h 8 (fun _ => none) 9 hothers

end Desk

end Registrar
