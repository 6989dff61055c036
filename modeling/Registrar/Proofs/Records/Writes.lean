import Registrar.Records
import Registrar.Proofs.Keyed
import Mathlib.Tactic.SplitIfs

/-!
# When writes to the records are accepted

For every write one lemma says when it is accepted and what the records are then
(`insertCourse_eq_ok_iff` and the others).  The conditions speak of the ids and keys on record,
and a write that is accepted changes one list and no other.

A batch of enrollments is settled in place.  `settleBatch_eq` says what it leaves behind: where a
student or a course is unknown, the records as they were.
-/

namespace Registrar

/-- What no two enrollments on record share. -/
def Enrollment.key (e : Enrollment) : StudentId × CourseId × String :=
  (e.student, e.course, e.semester)

theorem Enrollment.sameKey_iff {a b : Enrollment} : a.sameKey b = true ↔ a.key = b.key := by
  simp [Enrollment.sameKey, Enrollment.key, and_assoc]

namespace Records

variable {r r' : Records}

/-! ### Ids and keys on record -/

/-- The ids of the courses on record. -/
def courseIds (r : Records) : List CourseId := r.courses.map Course.id

/-- The keys of the majors on record. -/
def majorKeys (r : Records) : List MajorKey := r.majors.map Major.key

/-- The ids of the requirements on record. -/
def requirementIds (r : Records) : List RequirementId := r.requirements.map Requirement.id

/-- The ids of the students on record. -/
def studentIds (r : Records) : List StudentId := r.students.map Student.id

/-- The keys of the enrollments on record. -/
def enrollmentKeys (r : Records) : List (StudentId × CourseId × String) :=
  r.enrollments.map Enrollment.key

@[simp] theorem isSome_course?_iff {id : CourseId} :
    (r.course? id).isSome = true ↔ id ∈ r.courseIds :=
  isSome_find?_key Course.id

@[simp] theorem isSome_major?_iff {key : MajorKey} :
    (r.major? key).isSome = true ↔ key ∈ r.majorKeys :=
  isSome_find?_key Major.key

@[simp] theorem isSome_requirement?_iff {id : RequirementId} :
    (r.requirement? id).isSome = true ↔ id ∈ r.requirementIds :=
  isSome_find?_key Requirement.id

@[simp] theorem isSome_student?_iff {id : StudentId} :
    (r.student? id).isSome = true ↔ id ∈ r.studentIds :=
  isSome_find?_key Student.id

/-- Ids on record are the ids of the courses found under them, in the same order. -/
theorem map_id_filterMap_course? {ids : List CourseId} (h : ∀ id ∈ ids, id ∈ r.courseIds) :
    (ids.filterMap r.course?).map Course.id = ids := by
  induction ids with
  | nil => rfl
  | cons id rest ih =>
    obtain ⟨hid, hrest⟩ := List.forall_mem_cons.mp h
    obtain ⟨c, hc⟩ := Option.isSome_iff_exists.mp (isSome_course?_iff.mpr hid)
    rw [List.filterMap_cons_some hc, List.map_cons, ih hrest, key_of_find?_key Course.id hc]

/-- Courses that were looked up are on record under their own ids. -/
theorem course?_of_mem_filterMap {ids : List CourseId} {c : Course}
    (h : c ∈ ids.filterMap r.course?) : r.course? c.id = some c := by
  obtain ⟨id, -, hc⟩ := List.mem_filterMap.mp h
  rwa [key_of_find?_key Course.id hc]

theorem isNone_course?_iff {id : CourseId} :
    (r.course? id).isNone = true ↔ id ∉ r.courseIds := by
  rw [← isSome_course?_iff, Option.not_isSome_iff_eq_none, Option.isNone_iff_eq_none]

theorem isNone_major?_iff {key : MajorKey} :
    (r.major? key).isNone = true ↔ key ∉ r.majorKeys := by
  rw [← isSome_major?_iff, Option.not_isSome_iff_eq_none, Option.isNone_iff_eq_none]

theorem knows_iff {e : Enrollment} :
    r.knows e = true ↔ e.student ∈ r.studentIds ∧ e.course ∈ r.courseIds := by
  simp [knows]

/-! ### Single writes -/

theorem insertCourse_eq_ok_iff {c : Course} :
    r.insertCourse c = .ok r' ↔ c.id ∉ r.courseIds ∧
      r' = { r with courses := insertAscending Course.id c r.courses } := by
  simp only [insertCourse, isSome_course?_iff]
  split_ifs with h <;> simp [h, eq_comm]

theorem insertMajor_eq_ok_iff {m : Major} :
    r.insertMajor m = .ok r' ↔ m.key ∉ r.majorKeys ∧ r' = { r with majors := r.majors ++ [m] } := by
  simp only [insertMajor, isSome_major?_iff]
  split_ifs with h <;> simp [h, eq_comm]

theorem insertRequirement_eq_ok_iff {q : Requirement} :
    r.insertRequirement q = .ok r' ↔ q.id ∉ r.requirementIds ∧ q.major ∈ r.majorKeys ∧
      r' = { r with requirements := insertAscending Requirement.id q r.requirements } := by
  simp only [insertRequirement, isSome_requirement?_iff, isNone_major?_iff]
  split_ifs with hid hmajor <;> simp_all [eq_comm]

theorem insertStudent_eq_ok_iff {s : Student} :
    r.insertStudent s = .ok r' ↔ s.id ∉ r.studentIds ∧
      r' = { r with students := r.students ++ [s] } := by
  simp only [insertStudent, isSome_student?_iff]
  split_ifs with h <;> simp [h, eq_comm]

theorem declareMajor_eq_ok_iff {id : StudentId} {d : DeclaredMajor} :
    r.declareMajor id d = .ok r' ↔ d.major ∈ r.majorKeys ∧
      (∃ s, r.student? id = some s ∧ d.major ∉ s.declaredMajors.map DeclaredMajor.major) ∧
      r' = { r with students := r.students.map (Student.declaring id d) } := by
  by_cases hmajor : d.major ∈ r.majorKeys
  · cases hs : r.student? id with
    | none => simp [declareMajor, hmajor, hs]
    | some s =>
      have hany : (s.declaredMajors.any fun known => known.major == d.major) = true ↔
          d.major ∈ s.declaredMajors.map DeclaredMajor.major := by
        simp
      simp only [declareMajor, isNone_major?_iff, hmajor, not_true_eq_false, if_false, hs, hany,
        true_and, Option.some.injEq, exists_eq_left']
      split_ifs with hd <;> simp [hd, eq_comm]
  · simp only [declareMajor, isNone_major?_iff, hmajor, not_false_eq_true, if_true, reduceCtorEq,
      false_and]

theorem recordEnrollment_eq_ok_iff {e : Enrollment} :
    r.recordEnrollment e = .ok r' ↔ e.student ∈ r.studentIds ∧ e.course ∈ r.courseIds ∧
      e.key ∉ r.enrollmentKeys ∧ r' = { r with enrollments := r.enrollments ++ [e] } := by
  have hany : (r.enrollments.any fun known => known.sameKey e) = true ↔
      e.key ∈ r.enrollmentKeys := by
    simp [Enrollment.sameKey_iff, enrollmentKeys]
  by_cases hknown : r.knows e = true
  · obtain ⟨hstudent, hcourse⟩ := knows_iff.mp hknown
    simp only [recordEnrollment, hknown, Bool.not_true, Bool.false_eq_true, if_false, hany,
      hstudent, hcourse, true_and]
    split_ifs with hkey <;> simp [hkey, eq_comm]
  · simp only [recordEnrollment, hknown, Bool.not_false, if_true, reduceCtorEq, false_iff]
    exact fun h => hknown (knows_iff.mpr ⟨h.1, h.2.1⟩)

/-! ### Batches -/

/-- The enrollments after those of a batch have been settled in order. -/
def settled (batch known : List Enrollment) : List Enrollment :=
  batch.foldl (fun known e => settle e known) known

theorem length_settle (e : Enrollment) (known : List Enrollment) :
    (settle e known).length =
      if known.any (fun other => other.sameKey e) then known.length else known.length + 1 := by
  induction known with
  | nil => rfl
  | cons other rest ih =>
    by_cases h : other.sameKey e = true
    · simp [settle, h]
    · rw [Bool.not_eq_true] at h
      simp only [settle, h, Bool.false_eq_true, if_false, List.length_cons, ih, List.any_cons,
        Bool.false_or]
      split_ifs <;> rfl

/-- Settling in place ends with the enrollments settled in order and the number of new keys. -/
theorem settleAll_eq (batch : List Enrollment) (r : Records) :
    ∃ added, settleAll batch r = .ok added { r with enrollments := settled batch r.enrollments } ∧
      (settled batch r.enrollments).length = r.enrollments.length + added := by
  induction batch generalizing r with
  | nil => exact ⟨0, rfl, rfl⟩
  | cons e rest ih =>
    obtain ⟨others, hrun, hlength⟩ := ih { r with enrollments := settle e r.enrollments }
    -- The first enrollment is settled before the others are looked at.
    have hstep : settleAll (e :: rest) r = EStateM.bind (settleAll rest) (fun others =>
        pure (if r.enrollments.any fun known => known.sameKey e then others else others + 1))
        { r with enrollments := settle e r.enrollments } := rfl
    rw [hstep, EStateM.bind, hrun]
    refine ⟨_, rfl, ?_⟩
    simp only [settled, List.foldl_cons] at hlength ⊢
    -- A row adds an enrollment exactly if it is counted.
    rw [hlength, length_settle]
    split_ifs <;> omega

/-- A batch is settled if all of its students and courses are known, and otherwise it leaves the
records as they were. -/
theorem settleBatch_eq (batch : List Enrollment) (r : Records) :
    (batch.all r.knows = true ∧ ∃ added, settleBatch batch r =
        .ok added { r with enrollments := settled batch r.enrollments } ∧
      (settled batch r.enrollments).length = r.enrollments.length + added) ∨
    (batch.all r.knows = false ∧ settleBatch batch r = .error .notFound r) := by
  have hbatch : settleBatch batch r =
      (if batch.all r.knows then settleAll batch else throw .notFound : Change Nat) r := rfl
  rw [hbatch]
  cases h : batch.all r.knows with
  | true => exact Or.inl ⟨rfl, settleAll_eq batch r⟩
  | false => exact Or.inr ⟨rfl, rfl⟩

/-- A batch is applied if all of its students and courses are known. -/
theorem exists_applyEnrollments_eq_ok {batch : List Enrollment}
    (h : batch.all r.knows = true) : ∃ added, r.applyEnrollments batch =
      .ok (added, { r with enrollments := settled batch r.enrollments }) := by
  rcases settleBatch_eq batch r with ⟨-, added, hsettle, -⟩ | ⟨hall, -⟩
  · exact ⟨added, by rw [applyEnrollments, hsettle]⟩
  · exact absurd h (Bool.eq_false_iff.mp hall)

end Records

end Registrar
