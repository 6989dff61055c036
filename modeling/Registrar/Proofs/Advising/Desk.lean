import Registrar.Advising
import Registrar.Proofs.Outcome
import Registrar.Proofs.Prerequisite.Rule
import Registrar.Proofs.Records.Writes

/-!
# Desks with everything within reach

At `Desk.ofHoldings` no access is refused, so questions fail only for what is not there.

* `install_eq_ok_iff`: a tree is installed exactly if the course and every course of the tree are
  on record, and only the store of prerequisites changes.
* `missingPrerequisites_eq`: the missing courses are looked up one by one, and those that are not
  on record left out.
* `exists_overallAudit`: all declared majors are audited if they are on record.
-/

namespace Registrar.Desk

open Prerequisite (Tree Spec FlatSpec)

variable {h : Holdings} {limit : Nat} {student : StudentId} {course : CourseId} {key : MajorKey}

/-! ### Getting at the holdings -/

@[simp] theorem access_ofHoldings {α : Type} (kind : Access) (answer : α) :
    (ofHoldings h limit).access kind answer = .ok answer :=
  rfl

@[simp] theorem orUnknown_eq_ok_iff {α : Type} {what : Unknown} {found : Option α} {a : α} :
    orUnknown what found = .ok a ↔ found = some a := by
  cases found <;> simp [orUnknown]

@[simp] theorem holdings_ofHoldings : (ofHoldings h limit).holdings = h :=
  rfl

theorem requireStudent_eq_ok_iff :
    (ofHoldings h limit).requireStudent student = .ok () ↔ student ∈ h.records.studentIds := by
  simp only [requireStudent, access_ofHoldings, holdings_ofHoldings, bind_eq_ok_iff,
    Except.ok.injEq, exists_eq_left', ← Records.isSome_student?_iff]
  split_ifs with hfound <;> simp [hfound]

theorem requireStudent_of_not_mem (hstudent : student ∉ h.records.studentIds) :
    (ofHoldings h limit).requireStudent student = .error (.unknown (.student student)) := by
  have hfound : (h.records.student? student).isSome = false := by
    rw [← Bool.not_eq_true, Records.isSome_student?_iff]
    exact hstudent
  simp [requireStudent, hfound, bind, Except.bind]

theorem requireCourse_eq_ok_iff {c : Course} :
    (ofHoldings h limit).requireCourse course = .ok c ↔ h.records.course? course = some c := by
  simp [requireCourse, findCourse]

/-- A course is found exactly if it is on record. -/
theorem exists_requireCourse_iff (limit : Nat) :
    (∃ c, (ofHoldings h limit).requireCourse course = .ok c) ↔ course ∈ h.records.courseIds := by
  simp only [requireCourse_eq_ok_iff, ← Records.isSome_course?_iff, Option.isSome_iff_exists]

theorem requireCourses_eq_ok_iff {ids : List CourseId} :
    (ofHoldings h limit).requireCourses ids = .ok () ↔ ∀ id ∈ ids, id ∈ h.records.courseIds := by
  induction ids with
  | nil => simp [requireCourses]
  | cons id rest ih =>
    rw [requireCourses, bind_eq_ok_iff, List.forall_mem_cons, ← ih,
      ← exists_requireCourse_iff limit]
    simp

theorem requireCourse_of_isNone (hcourse : (h.records.course? course).isNone = true) :
    (ofHoldings h limit).requireCourse course = .error (.unknown (.course course)) := by
  simp [requireCourse, findCourse, Option.isNone_iff_eq_none.mp hcourse, bind, Except.bind,
    orUnknown]

/-- The first course that is not on record is named. -/
theorem requireCourses_eq (ids : List CourseId) :
    (ofHoldings h limit).requireCourses ids =
      match ids.find? fun id => (h.records.course? id).isNone with
      | some unknown => .error (.unknown (.course unknown))
      | none => .ok () := by
  -- The courses are looked up from the front, and the first that is unknown ends it.
  induction ids with
  | nil => rfl
  | cons id rest ih =>
    rw [requireCourses]
    cases hnone : (h.records.course? id).isNone with
    | true =>
      rw [requireCourse_of_isNone hnone, List.find?_cons_of_pos (by exact hnone)]
      rfl
    | false =>
      obtain ⟨c, hc⟩ := Option.isSome_iff_exists.mp (Option.isNone_eq_false_iff.mp hnone)
      rw [requireCourse_eq_ok_iff.mpr hc, List.find?_cons_of_neg (by simp [hnone])]
      exact ih

/-- Courses are looked up one by one. -/
theorem findCourses_eq (ids : List CourseId) :
    (ofHoldings h limit).findCourses ids = .ok (ids.filterMap h.records.course?) := by
  induction ids with
  | nil => rfl
  | cons id rest ih =>
    simp only [findCourses, findCourse, access_ofHoldings, holdings_ofHoldings, ih]
    cases hfound : h.records.course? id <;> simp [hfound, bind, Except.bind, pure, Except.pure]

/-! ### Missing prerequisites -/

/-- The missing courses that are on record are what a student on record is told. -/
theorem missingPrerequisites_eq (hstudent : student ∈ h.records.studentIds)
    (hcourse : course ∈ h.records.courseIds) :
    (ofHoldings h limit).missingPrerequisites student course =
      .ok ((Prerequisite.missing (h.records.completedCourses student)
        (h.prerequisites.tree? course)).filterMap h.records.course?) := by
  obtain ⟨c, hc⟩ := (exists_requireCourse_iff limit).mpr hcourse
  rw [missingPrerequisites, requireStudent_eq_ok_iff.mpr hstudent, hc]
  exact findCourses_eq _

/-! ### Audits -/

theorem requireMajor_eq_ok_iff {m : Major} :
    (ofHoldings h limit).requireMajor key = .ok m ↔ h.records.major? key = some m := by
  simp [requireMajor]

theorem requireMajor_of_not_mem (hkey : key ∉ h.records.majorKeys) :
    (ofHoldings h limit).requireMajor key = .error (.unknown (.major key)) := by
  have hnone : h.records.major? key = none := (find?_key_eq_none_iff Major.key).mpr hkey
  simp [requireMajor, hnone, bind, Except.bind, orUnknown]

theorem exists_requireMajor (hkey : key ∈ h.records.majorKeys) :
    ∃ m, (ofHoldings h limit).requireMajor key = .ok m ∧ m.key = key := by
  obtain ⟨m, hm⟩ := Option.isSome_iff_exists.mp (Records.isSome_major?_iff.mpr hkey)
  exact ⟨m, by simp [requireMajor, hm, bind, Except.bind, orUnknown], key_of_find?_key Major.key hm⟩

/-- Declared majors on record are all audited, in order. -/
theorem exists_auditAll {declared : List DeclaredMajor} (limit : Nat) (completed : List CourseId)
    (hdeclared : ∀ d ∈ declared, d.major ∈ h.records.majorKeys) :
    ∃ audits, (ofHoldings h limit).auditAll completed declared = .ok audits ∧
      audits.map MajorAudit.major = declared.map DeclaredMajor.major := by
  induction declared with
  | nil => exact ⟨[], rfl, rfl⟩
  | cons d rest ih =>
    obtain ⟨hd, hrest⟩ := List.forall_mem_cons.mp hdeclared
    obtain ⟨m, hm, hkey⟩ := exists_requireMajor hd
    obtain ⟨audits, haudits, hmajors⟩ := ih hrest
    refine ⟨m.audit (h.records.requirementsOf d.major) completed :: audits, ?_, ?_⟩
    · rw [auditAll, hm, haudits]
      rfl
    · rw [List.map_cons, List.map_cons, hmajors, ← hkey]
      rfl

/-- A student on record whose declared majors are on record is audited in all of them. -/
theorem exists_overallAudit (hstudent : student ∈ h.records.studentIds)
    (hdeclared : ∀ d ∈ h.records.declaredMajors student, d.major ∈ h.records.majorKeys) :
    ∃ audits, (ofHoldings h limit).overallAudit student = .ok audits ∧
      audits.map MajorAudit.major =
        (h.records.declaredMajors student).map DeclaredMajor.major := by
  obtain ⟨audits, haudits, hmajors⟩ :=
    exists_auditAll limit (h.records.completedCourses student) hdeclared
  refine ⟨audits, ?_, hmajors⟩
  rw [overallAudit, requireStudent_eq_ok_iff.mpr hstudent]
  exact haudits

/-! ### Maintaining prerequisites -/

/-- A tree is installed if the course and all courses of the tree are on record. -/
theorem install_eq_ok_iff {t : Tree} {answer : Tree × Desk} :
    (ofHoldings h limit).install course t = .ok answer ↔
      course ∈ h.records.courseIds ∧ (∀ leaf ∈ t.root.leaves, leaf ∈ h.records.courseIds) ∧
      answer = (t, ofHoldings
        { h with prerequisites := (h.prerequisites.replace course t).2 } limit) := by
  -- The courses of a tree are its leaves without repetitions.
  have hcourses : (ofHoldings h limit).requireCourses t.courses = .ok () ↔
      ∀ leaf ∈ t.root.leaves, leaf ∈ h.records.courseIds := by
    simp [requireCourses_eq_ok_iff, Tree.courses]
  rw [← hcourses, ← exists_requireCourse_iff limit]
  simp only [install, bind_eq_ok_iff, access_ofHoldings, Except.ok.injEq, exists_eq_left',
    pure_eq_ok_iff]
  constructor
  · rintro ⟨c, hc, ⟨⟩, hleaves, rfl⟩
    exact ⟨⟨c, hc⟩, hleaves, rfl⟩
  · rintro ⟨⟨c, hc⟩, hleaves, rfl⟩
    exact ⟨c, hc, (), hleaves, rfl⟩

/-- On a course on record, the first course of the tree that is unknown keeps it from being
installed. -/
theorem install_eq (limit : Nat) (t : Tree) (hcourse : course ∈ h.records.courseIds) :
    (ofHoldings h limit).install course t =
      match t.courses.find? fun id => (h.records.course? id).isNone with
      | some unknown => .error (.unknown (.course unknown))
      | none => .ok (t, ofHoldings
          { h with prerequisites := (h.prerequisites.replace course t).2 } limit) := by
  obtain ⟨c, hc⟩ := (exists_requireCourse_iff limit).mpr hcourse
  rw [install, hc, requireCourses_eq]
  cases t.courses.find? fun id => (h.records.course? id).isNone <;> rfl

/-- The prerequisites of a course on record are answered if it has any. -/
theorem prerequisites_eq_ok_iff {t : Tree} :
    (ofHoldings h limit).prerequisites course = .ok t ↔
      course ∈ h.records.courseIds ∧ h.prerequisites.tree? course = some t := by
  simp [prerequisites, ← exists_requireCourse_iff limit, tree?]

/-- Without prerequisites it is said what is not there. -/
theorem exists_unknown_of_tree?_eq_none (ht : h.prerequisites.tree? course = none) (limit : Nat) :
    ∃ what, (ofHoldings h limit).prerequisites course = .error (.unknown what) := by
  cases hfound : h.records.course? course with
  | none =>
    exact ⟨.course course, by simp [prerequisites, requireCourse, findCourse, hfound, bind,
      Except.bind, orUnknown]⟩
  | some c =>
    exact ⟨.prerequisites course, by simp [prerequisites, requireCourse, findCourse, hfound, bind,
      Except.bind, orUnknown, tree?, ht]⟩

theorem setPrerequisites_eq_ok_iff {spec : Spec} {answer : Tree × Desk} :
    (ofHoldings h limit).setPrerequisites course spec = .ok answer ↔
      ∃ t, Tree.ofSpec spec limit = .ok t ∧
        (ofHoldings h limit).install course t = .ok answer := by
  simp only [setPrerequisites, bind_eq_ok_iff, mapError_eq_ok_iff]
  rfl

theorem setFlatPrerequisites_eq_ok_iff {spec : FlatSpec} {answer : Tree × Desk} :
    (ofHoldings h limit).setFlatPrerequisites course spec = .ok answer ↔
      ∃ t, Tree.ofFlatSpec spec limit = .ok t ∧
        (ofHoldings h limit).install course t = .ok answer := by
  simp only [setFlatPrerequisites, bind_eq_ok_iff, mapError_eq_ok_iff]
  rfl

/-- The tree of a course is taken away if the course is on record. -/
theorem removePrerequisites_eq_ok_iff {answer : Bool × Desk} :
    (ofHoldings h limit).removePrerequisites course = .ok answer ↔
      course ∈ h.records.courseIds ∧
      answer = ((h.prerequisites.tree? course).isSome, ofHoldings
        { h with prerequisites := (h.prerequisites.remove course).2 } limit) := by
  rw [← exists_requireCourse_iff limit]
  simp only [removePrerequisites, bind_eq_ok_iff, access_ofHoldings, Except.ok.injEq,
    exists_eq_left', pure_eq_ok_iff]
  constructor
  · rintro ⟨c, hc, rfl⟩
    exact ⟨⟨c, hc⟩, rfl⟩
  · rintro ⟨⟨c, hc⟩, rfl⟩
    exact ⟨c, hc, rfl⟩

end Registrar.Desk
