import Registrar.Proofs.Outcome
import Registrar.Proofs.Records.Writes

/-!
# Runs of writes to the records

A `Records.Write` is one of the writes with what it is given, and `Records.after` are the records
that it leaves behind, refused or not.  `Step` says once what writes can do: `after_induction`
reduces whatever is kept by all of them to its cases.

So no course and no major is ever lost (`Step.grows`), and as long as students are inserted
without declared majors, every declared major is on record (`DeclaredOnRecord.step`).
-/

namespace Registrar.Records

/-- A write to the records. -/
inductive Write where
  | insertCourse (c : Course)
  | insertMajor (m : Major)
  | insertRequirement (q : Requirement)
  | insertStudent (s : Student)
  | declareMajor (student : StudentId) (d : DeclaredMajor)
  | recordEnrollment (e : Enrollment)
  | applyEnrollments (batch : List Enrollment)
  deriving DecidableEq

/-- The records that a write leaves behind. -/
def after (r : Records) : Write → Records
  | .insertCourse c => orKept r (r.insertCourse c)
  | .insertMajor m => orKept r (r.insertMajor m)
  | .insertRequirement q => orKept r (r.insertRequirement q)
  | .insertStudent s => orKept r (r.insertStudent s)
  | .declareMajor student d => orKept r (r.declareMajor student d)
  | .recordEnrollment e => orKept r (r.recordEnrollment e)
  | .applyEnrollments batch => leftBy (settleBatch batch r)

variable {r r' : Records} {w : Write}

/-! ### Steps -/

/-- The records become others by a write that is accepted. -/
inductive Step (r : Records) : Write → Records → Prop
  | insertCourse {c : Course} (hid : c.id ∉ r.courseIds) :
    Step r (.insertCourse c) { r with courses := insertAscending Course.id c r.courses }
  | insertMajor {m : Major} (hkey : m.key ∉ r.majorKeys) :
    Step r (.insertMajor m) { r with majors := r.majors ++ [m] }
  | insertRequirement {q : Requirement} (hid : q.id ∉ r.requirementIds)
    (hmajor : q.major ∈ r.majorKeys) :
    Step r (.insertRequirement q)
      { r with requirements := insertAscending Requirement.id q r.requirements }
  | insertStudent {s : Student} (hid : s.id ∉ r.studentIds) :
    Step r (.insertStudent s) { r with students := r.students ++ [s] }
  | declareMajor {student : StudentId} {d : DeclaredMajor} {s : Student}
    (hmajor : d.major ∈ r.majorKeys) (hs : r.student? student = some s)
    (hnew : d.major ∉ s.declaredMajors.map DeclaredMajor.major) :
    Step r (.declareMajor student d)
      { r with students := r.students.map (Student.declaring student d) }
  | recordEnrollment {e : Enrollment} (hstudent : e.student ∈ r.studentIds)
    (hcourse : e.course ∈ r.courseIds) (hkey : e.key ∉ r.enrollmentKeys) :
    Step r (.recordEnrollment e) { r with enrollments := r.enrollments ++ [e] }
  | applyEnrollments {batch : List Enrollment}
    (hknown : ∀ e ∈ batch, e.student ∈ r.studentIds ∧ e.course ∈ r.courseIds) :
    Step r (.applyEnrollments batch) { r with enrollments := settled batch r.enrollments }

/-- A write leaves records behind that have what they had before, if they have it also after
every step. -/
theorem after_induction {P : Records → Prop} (hkept : P r) (hstep : ∀ r', Step r w r' → P r') :
    P (r.after w) := by
  -- A refused write keeps the records, and an accepted one is the step of its kind.
  cases w with
  | insertCourse c =>
    refine orKept_induction hkept fun r' h => hstep r' ?_
    obtain ⟨hid, rfl⟩ := insertCourse_eq_ok_iff.mp h
    exact .insertCourse hid
  | insertMajor m =>
    refine orKept_induction hkept fun r' h => hstep r' ?_
    obtain ⟨hkey, rfl⟩ := insertMajor_eq_ok_iff.mp h
    exact .insertMajor hkey
  | insertRequirement q =>
    refine orKept_induction hkept fun r' h => hstep r' ?_
    obtain ⟨hid, hmajor, rfl⟩ := insertRequirement_eq_ok_iff.mp h
    exact .insertRequirement hid hmajor
  | insertStudent s =>
    refine orKept_induction hkept fun r' h => hstep r' ?_
    obtain ⟨hid, rfl⟩ := insertStudent_eq_ok_iff.mp h
    exact .insertStudent hid
  | declareMajor student d =>
    refine orKept_induction hkept fun r' h => hstep r' ?_
    obtain ⟨hmajor, ⟨s, hs, hnew⟩, rfl⟩ := declareMajor_eq_ok_iff.mp h
    exact .declareMajor hmajor hs hnew
  | recordEnrollment e =>
    refine orKept_induction hkept fun r' h => hstep r' ?_
    obtain ⟨hstudent, hcourse, hkey, rfl⟩ := recordEnrollment_eq_ok_iff.mp h
    exact .recordEnrollment hstudent hcourse hkey
  | applyEnrollments batch =>
    rcases settleBatch_eq batch r with ⟨hall, added, hsettle, -⟩ | ⟨-, hsettle⟩
    · rw [after, hsettle]
      refine hstep _ (.applyEnrollments fun e he => ?_)
      exact knows_iff.mp (List.all_eq_true.mp hall e he)
    · rw [after, hsettle]
      exact hkept

/-! ### Nothing is lost -/

/-- Other records have all the courses and majors that these have. -/
structure Grows (r r' : Records) : Prop where
  courses : r.courseIds ⊆ r'.courseIds
  majors : r.majorKeys ⊆ r'.majorKeys

theorem Step.grows (h : Step r w r') : r.Grows r' := by
  cases h with
  | @insertCourse c hid =>
    refine ⟨fun id hid => ?_, List.Subset.refl _⟩
    have hperm := (insertAscending_perm Course.id c r.courses).map Course.id
    exact hperm.mem_iff.mpr (List.mem_cons_of_mem _ hid)
  | insertMajor =>
    refine ⟨List.Subset.refl _, ?_⟩
    simp only [majorKeys, List.map_append]
    exact List.subset_append_left _ _
  | insertRequirement | insertStudent | declareMajor | recordEnrollment | applyEnrollments =>
    exact ⟨List.Subset.refl _, List.Subset.refl _⟩

/-! ### Declared majors -/

/-- Every major that a student has declared is on record. -/
def DeclaredOnRecord (r : Records) : Prop :=
  ∀ s ∈ r.students, ∀ d ∈ s.declaredMajors, d.major ∈ r.majorKeys

/-- The write inserts no student with declared majors. -/
def Write.DeclaresNothing : Write → Prop
  | .insertStudent s => s.declaredMajors = []
  | _ => True

theorem DeclaredOnRecord.step (h : r.DeclaredOnRecord) (hw : w.DeclaresNothing)
    (hstep : Step r w r') : r'.DeclaredOnRecord := by
  cases hstep with
  | @insertStudent s =>
    refine List.forall_mem_append.mpr ⟨h, List.forall_mem_singleton.mpr ?_⟩
    intro d hd
    rw [hw] at hd
    exact absurd hd List.not_mem_nil
  | @declareMajor student d _ hmajor =>
    intro s hs known hknown
    obtain ⟨old, hold, rfl⟩ := List.mem_map.mp hs
    simp only [Student.declaring] at hknown
    -- Only the student who declares gets a major, and that has just been looked up.
    split_ifs at hknown
    · rcases List.mem_append.mp hknown with hknown | hknown
      · exact h old hold known hknown
      · exact List.mem_singleton.mp hknown ▸ hmajor
    · exact h old hold known hknown
  | insertMajor hkey =>
    exact fun s hs d hd => (Step.insertMajor hkey).grows.majors (h s hs d hd)
  | insertCourse | insertRequirement | recordEnrollment | applyEnrollments => exact h

end Registrar.Records
