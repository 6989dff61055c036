import Registrar.Catalog.Import
import Registrar.Proofs.Distinct
import Registrar.Proofs.Prerequisite.Rule
import Registrar.Proofs.Prerequisite.Store
import Registrar.Proofs.Records.Writes

/-!
# What a catalog file says

`CatalogFile.Consistent` gathers what the parts of a file ask of each other: no id and no key
comes twice, and whatever refers to a course or a major refers to one of the file.

`CatalogFile.holdings` are the holdings that a file describes, section by section, without
asking whether it is consistent.  `Holdings.Reflects` says entry by entry and field by field, in
the words of the file alone, that holdings are what a file describes, and `reflects_holdings` that
those of a consistent file are.
-/

namespace Registrar

open Prerequisite (Tree Store)

/-! ### The entries -/

/-- The tree that a listed course asks for. -/
def ListedCourse.tree? (limit : Nat) (c : ListedCourse) : Option Tree :=
  c.prerequisites.bind fun spec => (Tree.ofSpec spec limit).toOption

/-- The requirement that is listed under a major, each of its courses once and as it is on
record. -/
def ListedRequirement.requirement (records : Records) (key : MajorKey) (q : ListedRequirement) :
    Requirement :=
  ⟨q.id, key, q.name, q.description, q.minCredits,
    (distinct q.courses).filterMap records.course?⟩

/-- The requirements that are listed under a major. -/
def ListedMajor.requirementsOn (records : Records) (m : ListedMajor) : List Requirement :=
  m.requirements.map (ListedRequirement.requirement records m.key)

@[simp] theorem ListedMajor.map_id_requirementsOn (records : Records) (m : ListedMajor) :
    (m.requirementsOn records).map Requirement.id = m.requirements.map ListedRequirement.id := by
  rw [requirementsOn, List.map_map]
  rfl

/-- The student that is listed. -/
def ListedStudent.student (s : ListedStudent) : Student :=
  ⟨s.id, s.name, s.declaredMajors.map ListedDeclaration.declaredMajor⟩

/-- The enrollments that are listed under a student. -/
def ListedStudent.enrolled (s : ListedStudent) : List Enrollment :=
  s.enrollments.map (ListedEnrollment.enrollment s.id)

/-- The key of a listed declaration. -/
def ListedDeclaration.key (d : ListedDeclaration) : MajorKey :=
  ⟨d.code, d.designation⟩

/-- What the enrollments listed under one student do not share. -/
def ListedEnrollment.key (e : ListedEnrollment) : CourseId × String :=
  (e.course, e.semester)

namespace CatalogFile

variable (file : CatalogFile) (limit : Nat)

/-- The ids of the listed courses. -/
def courseIds : List CourseId := file.courses.map ListedCourse.id

/-- The keys of the listed majors. -/
def majorKeys : List MajorKey := file.majors.map fun m => ⟨m.code, m.designation⟩

/-- The ids of the requirements listed under all the majors. -/
def requirementIds : List RequirementId :=
  file.majors.flatMap fun m => m.requirements.map ListedRequirement.id

/-- The ids of the listed students. -/
def studentIds : List StudentId := file.students.map ListedStudent.id

/-- The parts of the file fit together, trees being limited to a depth. -/
structure Consistent : Prop where
  courses_distinct : file.courseIds.Nodup
  prerequisites_admitted : ∀ c ∈ file.courses, ∀ spec, c.prerequisites = some spec →
    ∃ t, Tree.ofSpec spec limit = .ok t ∧ ∀ leaf ∈ t.root.leaves, leaf ∈ file.courseIds
  majors_distinct : file.majorKeys.Nodup
  requirements_distinct : file.requirementIds.Nodup
  requirement_courses : ∀ m ∈ file.majors, ∀ q ∈ m.requirements, ∀ id ∈ q.courses,
    id ∈ file.courseIds
  students_distinct : file.studentIds.Nodup
  declared_majors : ∀ s ∈ file.students, ∀ d ∈ s.declaredMajors, d.key ∈ file.majorKeys
  declared_once : ∀ s ∈ file.students, (s.declaredMajors.map ListedDeclaration.key).Nodup
  enrolled_courses : ∀ s ∈ file.students, ∀ e ∈ s.enrollments, e.course ∈ file.courseIds
  enrolled_once : ∀ s ∈ file.students, (s.enrollments.map ListedEnrollment.key).Nodup

end CatalogFile

/-! ### The holdings -/

namespace Records

/-- The records of courses alone. -/
def ofCourses (courses : List ListedCourse) : Records :=
  { empty with courses := insertAll Course.id (courses.map ListedCourse.course) [] }

@[simp] theorem mem_courseIds_ofCourses {courses : List ListedCourse} {id : CourseId} :
    id ∈ (Records.ofCourses courses).courseIds ↔ id ∈ courses.map ListedCourse.id := by
  simp [Records.ofCourses, Records.courseIds, mem_map_insertAll, ListedCourse.course]

/-- The records with more requirements of a major. -/
def addRequirements (r : Records) (key : MajorKey) (requirements : List ListedRequirement) :
    Records :=
  { r with
    requirements :=
      insertAll Requirement.id (requirements.map (ListedRequirement.requirement r key))
        r.requirements }

/-- The records with these majors and their requirements for the majors. -/
def withMajors (r : Records) (majors : List ListedMajor) : Records :=
  { r with
    majors := majors.map ListedMajor.major
    requirements :=
      insertAll Requirement.id (majors.flatMap (ListedMajor.requirementsOn r)) [] }

/-- The records with these students and their enrollments for the students. -/
def withStudents (r : Records) (students : List ListedStudent) : Records :=
  { r with
    students := students.map ListedStudent.student
    enrollments := students.flatMap ListedStudent.enrolled }

end Records

/-- The store with the tree of a listed course, if it asks for one. -/
def addTree (limit : Nat) (store : Store) (c : ListedCourse) : Store :=
  match c.tree? limit with
  | some t => (store.replace c.id t).2
  | none => store

/-- The store of the trees that listed courses ask for. -/
def storeOf (limit : Nat) (courses : List ListedCourse) : Store :=
  courses.foldl (addTree limit) .empty

/-- The records that the file describes. -/
def CatalogFile.records (file : CatalogFile) : Records :=
  ((Records.ofCourses file.courses).withMajors file.majors).withStudents file.students

/-- The holdings that the file describes. -/
def CatalogFile.holdings (file : CatalogFile) (limit : Nat) : Holdings :=
  ⟨file.records, storeOf limit file.courses⟩

/-! ### Entry by entry -/

/-- The holdings are what a file describes: every entry is where it belongs with all of its fields,
and nothing else is.  Where the records keep the order of the file, they are a list made of it;
courses and requirements are listed by ascending id instead. -/
structure Holdings.Reflects (h : Holdings) (file : CatalogFile) (limit : Nat) : Prop where
  courses_perm : h.records.courses.Perm (file.courses.map fun c =>
    { id := c.id, subject := c.subject, number := c.number, title := c.title,
      credits := c.credits })
  courses_ascending : h.records.courses.Pairwise fun a b => a.id < b.id
  tree_of_listed : ∀ c ∈ file.courses,
    (c.prerequisites = none → h.prerequisites.tree? c.id = none) ∧
    ∀ spec, c.prerequisites = some spec →
      ∃ t, Tree.ofSpec spec limit = .ok t ∧ h.prerequisites.tree? c.id = some t
  tree_of_unlisted : ∀ id, id ∉ file.courseIds → h.prerequisites.tree? id = none
  majors_eq : h.records.majors = file.majors.map fun m =>
    { key := { code := m.code, designation := m.designation }, name := m.name,
      totalCreditsRequired := m.totalCreditsRequired }
  requirementIds_perm : (h.records.requirements.map Requirement.id).Perm file.requirementIds
  requirements_ascending : h.records.requirements.Pairwise fun a b => a.id < b.id
  requirement_listed : ∀ m ∈ file.majors, ∀ q ∈ m.requirements, ∃ r ∈ h.records.requirements,
    r.id = q.id ∧ r.major = { code := m.code, designation := m.designation } ∧
      r.name = q.name ∧ r.description = q.description ∧ r.minCredits = q.minCredits ∧
      r.courses.map Course.id = q.courses.eraseDups ∧ ∀ c ∈ r.courses, c ∈ h.records.courses
  students_eq : h.records.students = file.students.map fun s =>
    { id := s.id, name := s.name,
      declaredMajors := s.declaredMajors.map fun d =>
        { major := { code := d.code, designation := d.designation },
          declaredOn := d.declaredOn, primary := d.primary } }
  enrollments_eq : h.records.enrollments = file.students.flatMap fun s =>
    s.enrollments.map fun e =>
      { student := s.id, course := e.course, semester := e.semester, status := e.status }

/-! ### What a consistent file describes -/

/-- A listed course changes the tree of no other course. -/
theorem tree?_addTree (limit : Nat) (store : Store) (c : ListedCourse) (id : CourseId) :
    (addTree limit store c).tree? id =
      if id = c.id then (c.tree? limit).or (store.tree? id) else store.tree? id := by
  cases htree : c.tree? limit <;> simp [addTree, htree]

theorem storeOf_append_singleton (limit : Nat) (front : List ListedCourse) (c : ListedCourse) :
    storeOf limit (front ++ [c]) = addTree limit (storeOf limit front) c := by
  simp [storeOf]

theorem tree?_storeOf_of_not_mem {limit : Nat} {courses : List ListedCourse} {id : CourseId}
    (h : id ∉ courses.map ListedCourse.id) : (storeOf limit courses).tree? id = none := by
  induction courses using List.reverseRecOn with
  | nil => rfl
  | append_singleton front c ih =>
    simp only [List.map_append, List.map_singleton, List.mem_append, List.mem_singleton,
      not_or] at h
    rw [storeOf_append_singleton, tree?_addTree, if_neg h.2, ih h.1]

/-- Where no id comes twice, a listed course has the tree that it asks for. -/
theorem tree?_storeOf_of_mem {limit : Nat} {courses : List ListedCourse}
    (h : (courses.map ListedCourse.id).Nodup) {c : ListedCourse} (hc : c ∈ courses) :
    (storeOf limit courses).tree? c.id = c.tree? limit := by
  induction courses using List.reverseRecOn with
  | nil => exact absurd hc List.not_mem_nil
  | append_singleton front last ih =>
    rw [nodup_map_append_singleton_iff] at h
    rw [storeOf_append_singleton, tree?_addTree]
    rcases List.mem_append.mp hc with hc | hc
    · have hne : c.id ≠ last.id := fun e => h.2 (e ▸ List.mem_map_of_mem hc)
      rw [if_neg hne, ih h.1 hc]
    · obtain rfl := List.mem_singleton.mp hc
      rw [if_pos rfl, tree?_storeOf_of_not_mem h.2, Option.or_none]

/-- The requirements that a file describes list courses as they are on record. -/
theorem CatalogFile.course?_of_mem_requirements {file : CatalogFile} {q : Requirement}
    (hq : q ∈ file.records.requirements) {c : Course} (hc : c ∈ q.courses) :
    file.records.course? c.id = some c := by
  have hlisted : q ∈ file.majors.flatMap
      (ListedMajor.requirementsOn (.ofCourses file.courses)) ++ [] :=
    (insertAll_perm Requirement.id _ []).mem_iff.mp hq
  rw [List.append_nil, List.mem_flatMap] at hlisted
  obtain ⟨m, -, hm⟩ := hlisted
  obtain ⟨listed, -, rfl⟩ := List.mem_map.mp hm
  exact Records.course?_of_mem_filterMap hc

/-- A listed requirement is among those that a file describes. -/
theorem CatalogFile.mem_requirements_of_listed (file : CatalogFile) {m : ListedMajor}
    (hm : m ∈ file.majors) {q : ListedRequirement} (hq : q ∈ m.requirements) :
    q.requirement (.ofCourses file.courses) m.key ∈ file.records.requirements := by
  refine (insertAll_perm _ _ _).mem_iff.mpr (List.mem_append_left _ ?_)
  exact List.mem_flatMap.mpr ⟨m, hm, List.mem_map_of_mem hq⟩

/-- The holdings that a consistent file describes are what it describes, entry by entry. -/
theorem CatalogFile.reflects_holdings {file : CatalogFile} {limit : Nat}
    (hfile : file.Consistent limit) : (file.holdings limit).Reflects file limit where
  courses_perm := by
    -- The listed courses are put in by id, from none on record.
    have hperm := insertAll_perm Course.id (file.courses.map ListedCourse.course) []
    rwa [List.append_nil] at hperm
  courses_ascending := by
    refine pairwise_insertAll ?_
    rw [List.map_map]
    exact hfile.courses_distinct
  tree_of_listed := by
    intro c hc
    rw [CatalogFile.holdings, tree?_storeOf_of_mem hfile.courses_distinct hc]
    refine ⟨fun hnone => by rw [ListedCourse.tree?, hnone]; rfl, fun spec hspec => ?_⟩
    obtain ⟨t, ht, -⟩ := hfile.prerequisites_admitted c hc spec hspec
    refine ⟨t, ht, ?_⟩
    rw [ListedCourse.tree?, hspec, Option.bind_some, ht]
    rfl
  tree_of_unlisted := fun id hid => tree?_storeOf_of_not_mem hid
  majors_eq := rfl
  requirementIds_perm := by
    have hperm := (insertAll_perm Requirement.id
      (file.majors.flatMap (ListedMajor.requirementsOn (.ofCourses file.courses))) []).map
      Requirement.id
    simp only [List.append_nil, List.map_flatMap, ListedMajor.map_id_requirementsOn] at hperm
    exact hperm
  requirements_ascending := by
    refine pairwise_insertAll ?_
    simp only [List.map_flatMap, ListedMajor.map_id_requirementsOn]
    exact hfile.requirements_distinct
  requirement_listed := by
    intro m hm q hq
    have hmem := file.mem_requirements_of_listed hm hq
    have hcourses : ∀ id ∈ distinct q.courses, id ∈ (Records.ofCourses file.courses).courseIds :=
      fun id hid => Records.mem_courseIds_ofCourses.mpr
        (hfile.requirement_courses m hm q hq id (mem_distinct.mp hid))
    refine ⟨_, hmem, rfl, rfl, rfl, rfl, rfl, ?_, fun c hc => ?_⟩
    · rw [← distinct_eq_eraseDups]
      exact Records.map_id_filterMap_course? hcourses
    · -- Every course of the list was looked up, so it is the one on record.
      exact List.mem_of_find?_eq_some (CatalogFile.course?_of_mem_requirements hmem hc)
  students_eq := rfl
  enrollments_eq := rfl

end Registrar
