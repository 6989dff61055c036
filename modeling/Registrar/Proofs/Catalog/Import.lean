import Registrar.Proofs.Catalog.Contents
import Registrar.Proofs.Outcome

/-!
# Which catalog files are imported

`ofFile_eq_ok_iff`: a file is imported exactly if it is consistent, and the holdings are then
those that it describes; `import_iff_consistent` says the same entry by entry.

The import is four loops, and inside of them loops over the requirements of a major and over the
declared majors and enrollments of a student.  For every loop one lemma says which entries it
takes and which records they build (`addCourses_eq_ok_iff` and so on); each goes by
`foldlM_eq_ok_iff`, so that only the step is looked at, in the state that the entries before it
have built.
-/

namespace Registrar.Holdings

open Prerequisite (Tree Store)

variable {limit : Nat} {r r' : Records}

@[simp] theorem refusing_eq_ok_iff {α : Type} {outcome : Except Refusal α} {a : α} :
    refusing outcome = .ok a ↔ outcome = .ok a := by
  simp [refusing]

/-! ### Courses -/

/-- Courses are added if no id comes twice. -/
theorem addCourses_eq_ok_iff (courses : List ListedCourse) :
    addCourses .empty courses = .ok r ↔
      (courses.map ListedCourse.id).Nodup ∧ r = .ofCourses courses := by
  refine foldlM_eq_ok_iff (fun courses => (courses.map ListedCourse.id).Nodup) Records.ofCourses
    List.nodup_nil ?_ ?_ courses r
  · intro front c h
    exact (nodup_map_append_singleton_iff.mp h).1
  · intro front c r hfront
    rw [refusing_eq_ok_iff, Records.insertCourse_eq_ok_iff, Records.mem_courseIds_ofCourses,
      nodup_map_append_singleton_iff]
    simp only [hfront, true_and]
    simp [Records.ofCourses, insertAll_append_singleton, ListedCourse.course]

/-! ### Prerequisites -/

/-- The prerequisites of a listed course are admitted, and their courses are on record. -/
def Admits (limit : Nat) (ids : List CourseId) (c : ListedCourse) : Prop :=
  ∀ spec, c.prerequisites = some spec →
    ∃ t, Tree.ofSpec spec limit = .ok t ∧ ∀ leaf ∈ t.root.leaves, leaf ∈ ids

/-- All courses of a tree are on record, if the search for another finds none. -/
theorem find?_unknown_eq_none_iff {t : Tree} :
    (t.courses.find? fun id => (r.course? id).isNone) = none ↔
      ∀ leaf ∈ t.root.leaves, leaf ∈ r.courseIds := by
  simp [List.find?_eq_none, Tree.courses, ← Records.isSome_course?_iff, Option.isSome_iff_ne_none]

theorem addPrerequisites_eq_ok_iff {store store' : Store} {c : ListedCourse} :
    addPrerequisites r limit store c = .ok store' ↔
      Admits limit r.courseIds c ∧ store' = addTree limit store c := by
  cases hspec : c.prerequisites with
  | none => simp [addPrerequisites, Admits, addTree, ListedCourse.tree?, hspec, eq_comm]
  | some spec =>
    cases htree : Tree.ofSpec spec limit with
    | error cause =>
      simp [addPrerequisites, Admits, hspec, htree, Except.mapError, bind, Except.bind]
    | ok t =>
      have hbuilt : c.tree? limit = some t := by
        simp [ListedCourse.tree?, hspec, htree, Except.toOption]
      -- No other tree comes from the spec, so the leaves of `t` are those to be on record.
      have hadmits : Admits limit r.courseIds c ↔ ∀ leaf ∈ t.root.leaves, leaf ∈ r.courseIds := by
        simp [Admits, hspec, htree]
      rw [hadmits, ← find?_unknown_eq_none_iff, addTree, hbuilt]
      simp only [addPrerequisites, hspec, htree, Except.mapError, bind, Except.bind]
      cases t.courses.find? fun id => (r.course? id).isNone <;> simp [eq_comm]

/-- Prerequisites are stored if all of them are admitted and name courses on record. -/
theorem foldlM_addPrerequisites_eq_ok_iff (courses : List ListedCourse) {store : Store} :
    courses.foldlM (addPrerequisites r limit) .empty = .ok store ↔
      (∀ c ∈ courses, Admits limit r.courseIds c) ∧ store = storeOf limit courses := by
  refine foldlM_eq_ok_iff (fun courses => ∀ c ∈ courses, Admits limit r.courseIds c)
    (storeOf limit) (by simp) ?_ ?_ courses store
  · intro front c h c' hc'
    exact h c' (List.mem_append_left _ hc')
  · intro front c store hfront
    rw [addPrerequisites_eq_ok_iff]
    simp only [List.forall_mem_append, List.forall_mem_singleton, storeOf, List.foldl_append,
      List.foldl_cons, List.foldl_nil]
    exact ⟨fun h => ⟨⟨hfront, h.1⟩, h.2⟩, fun h => ⟨h.1.2, h.2⟩⟩

/-! ### Majors and requirements -/

theorem course?_of_mem {ids : List CourseId} (h : ∀ id ∈ ids, id ∈ r.courseIds) :
    ∀ id ∈ ids, ∃ c, r.course? id = some c ∧ c.id = id := by
  intro id hid
  obtain ⟨c, hc⟩ := Option.isSome_iff_exists.mp (Records.isSome_course?_iff.mpr (h id hid))
  exact ⟨c, hc, key_of_find?_key Course.id hc⟩

theorem findCourse_eq_ok_iff {referrer : String} {id : CourseId} {c : Course} :
    findCourse r referrer id = .ok c ↔ r.course? id = some c := by
  unfold findCourse
  cases r.course? id <;> simp

theorem findCourses_eq_ok_iff {referrer : String} {ids : List CourseId} {courses : List Course} :
    findCourses r referrer ids = .ok courses ↔
      (∀ id ∈ ids, id ∈ r.courseIds) ∧ courses = ids.filterMap r.course? := by
  simp only [findCourses, mapM_eq_ok_iff, findCourse_eq_ok_iff, forall₂_eq_some_iff,
    Records.isSome_course?_iff]

/-- A requirement is added under a major on record if its courses are on record and its id is
new. -/
theorem addRequirement_eq_ok_iff {key : MajorKey} (hkey : key ∈ r.majorKeys)
    {q : ListedRequirement} :
    addRequirement key r q = .ok r' ↔ (∀ id ∈ q.courses, id ∈ r.courseIds) ∧
      q.id ∉ r.requirementIds ∧
      r' = { r with
             requirements :=
               insertAscending Requirement.id (q.requirement r key) r.requirements } := by
  simp only [addRequirement, bind_eq_ok_iff, findCourses_eq_ok_iff, refusing_eq_ok_iff,
    Records.insertRequirement_eq_ok_iff]
  -- Looking the courses up and clearing repetitions may change places.
  constructor
  · rintro ⟨courses, ⟨hcourses, rfl⟩, hid, -, rfl⟩
    refine ⟨hcourses, hid, ?_⟩
    simp only [Requirement.withDistinctCourses, Course.distinct, ListedRequirement.requirement,
      distinctBy_filterMap (course?_of_mem hcourses)]
  · rintro ⟨hcourses, hid, rfl⟩
    refine ⟨_, ⟨hcourses, rfl⟩, hid, hkey, ?_⟩
    simp only [Requirement.withDistinctCourses, Course.distinct, ListedRequirement.requirement,
      distinctBy_filterMap (course?_of_mem hcourses)]

theorem mem_requirementIds_addRequirements {key : MajorKey} {listed : List ListedRequirement}
    {id : RequirementId} :
    id ∈ (r.addRequirements key listed).requirementIds ↔
      id ∈ listed.map ListedRequirement.id ∨ id ∈ r.requirementIds := by
  have hid : Requirement.id ∘ ListedRequirement.requirement r key = ListedRequirement.id := rfl
  simp only [Records.addRequirements, Records.requirementIds, mem_map_insertAll, List.map_map, hid]

/-- Requirements are added under a major on record if all of their courses are on record and
their ids are new and different. -/
theorem foldlM_addRequirement_eq_ok_iff {key : MajorKey} (hkey : key ∈ r.majorKeys)
    (listed : List ListedRequirement) :
    listed.foldlM (addRequirement key) r = .ok r' ↔
      ((∀ q ∈ listed, ∀ id ∈ q.courses, id ∈ r.courseIds) ∧
        (listed.map ListedRequirement.id).Nodup ∧
        ∀ q ∈ listed, q.id ∉ r.requirementIds) ∧
      r' = r.addRequirements key listed := by
  refine foldlM_eq_ok_iff (fun listed => (∀ q ∈ listed, ∀ id ∈ q.courses, id ∈ r.courseIds) ∧
    (listed.map ListedRequirement.id).Nodup ∧ ∀ q ∈ listed, q.id ∉ r.requirementIds)
    (r.addRequirements key) (by simp) ?_ ?_ listed r'
  · rintro front q ⟨hcourses, hids, hnew⟩
    rw [List.forall_mem_append] at hcourses hnew
    exact ⟨hcourses.1, (nodup_map_append_singleton_iff.mp hids).1, hnew.1⟩
  · rintro front q r' ⟨hcourses, hids, hnew⟩
    have hfront : key ∈ (r.addRequirements key front).majorKeys := hkey
    rw [addRequirement_eq_ok_iff hfront, mem_requirementIds_addRequirements]
    simp only [List.forall_mem_append, List.forall_mem_singleton, nodup_map_append_singleton_iff,
      not_or, hids, true_and]
    -- The courses on record are those of the start, whatever requirements have come in.
    have hbuilt : r.addRequirements key (front ++ [q]) =
        { r.addRequirements key front with
          requirements := insertAscending Requirement.id
            (q.requirement (r.addRequirements key front) key)
            (r.addRequirements key front).requirements } := by
      simp only [Records.addRequirements, List.map_append, List.map_singleton,
        insertAll_append_singleton]
      rfl
    rw [hbuilt]
    constructor
    · rintro ⟨hq, ⟨hdiffers, hfresh⟩, rfl⟩
      exact ⟨⟨⟨hcourses, hq⟩, hdiffers, hnew, hfresh⟩, rfl⟩
    · rintro ⟨⟨⟨-, hq⟩, hdiffers, -, hfresh⟩, rfl⟩
      exact ⟨hq, ⟨hdiffers, hfresh⟩, rfl⟩

theorem addMajor_eq_ok_iff {m : ListedMajor} :
    addMajor r m = .ok r' ↔ m.key ∉ r.majorKeys ∧
      ((∀ q ∈ m.requirements, ∀ id ∈ q.courses, id ∈ r.courseIds) ∧
        (m.requirements.map ListedRequirement.id).Nodup ∧
        ∀ q ∈ m.requirements, q.id ∉ r.requirementIds) ∧
      r' = { r with majors := r.majors ++ [m.major] }.addRequirements m.key m.requirements := by
  -- The major is on record before its requirements are added.
  have hkey : ∀ r : Records, m.key ∈ { r with majors := r.majors ++ [m.major] }.majorKeys := by
    intro r
    simp [Records.majorKeys, ListedMajor.major]
  simp only [addMajor, bind_eq_ok_iff, refusing_eq_ok_iff, Records.insertMajor_eq_ok_iff]
  constructor
  · rintro ⟨_, ⟨hnew, rfl⟩, h⟩
    exact ⟨hnew, (foldlM_addRequirement_eq_ok_iff (hkey r) _).mp h⟩
  · rintro ⟨hnew, h⟩
    exact ⟨_, ⟨hnew, rfl⟩, (foldlM_addRequirement_eq_ok_iff (hkey r) _).mpr h⟩

theorem mem_requirementIds_withMajors {majors : List ListedMajor} {id : RequirementId} :
    id ∈ (r.withMajors majors).requirementIds ↔
      id ∈ majors.flatMap fun m => m.requirements.map ListedRequirement.id := by
  simp only [Records.withMajors, Records.requirementIds, mem_map_insertAll, List.map_flatMap,
    ListedMajor.map_id_requirementsOn, List.map_nil, List.not_mem_nil, or_false]

@[simp] theorem courseIds_withMajors {majors : List ListedMajor} :
    (r.withMajors majors).courseIds = r.courseIds :=
  rfl

@[simp] theorem majorKeys_withMajors {majors : List ListedMajor} :
    (r.withMajors majors).majorKeys = majors.map ListedMajor.key := by
  simp only [Records.withMajors, Records.majorKeys, List.map_map]
  rfl

theorem withMajors_append_singleton (r : Records) (front : List ListedMajor) (m : ListedMajor) :
    r.withMajors (front ++ [m]) =
      { r.withMajors front with
        majors := (r.withMajors front).majors ++ [m.major] }.addRequirements m.key
          m.requirements := by
  simp only [Records.withMajors, Records.addRequirements, List.flatMap_append, List.flatMap_cons,
    List.flatMap_nil, List.append_nil, insertAll_append, List.map_append, List.map_singleton]
  rfl

/-- Majors are added if no key comes twice and no requirement id either, and if the courses of
all requirements are on record. -/
theorem foldlM_addMajor_eq_ok_iff (majors : List ListedMajor) :
    majors.foldlM addMajor (r.withMajors []) = .ok r' ↔
      ((majors.map ListedMajor.key).Nodup ∧
        (majors.flatMap fun m => m.requirements.map ListedRequirement.id).Nodup ∧
        ∀ m ∈ majors, ∀ q ∈ m.requirements, ∀ id ∈ q.courses, id ∈ r.courseIds) ∧
      r' = r.withMajors majors := by
  refine foldlM_eq_ok_iff (fun majors => (majors.map ListedMajor.key).Nodup ∧
    (majors.flatMap fun m => m.requirements.map ListedRequirement.id).Nodup ∧
    ∀ m ∈ majors, ∀ q ∈ m.requirements, ∀ id ∈ q.courses, id ∈ r.courseIds)
    r.withMajors (by simp) ?_ ?_ majors r'
  · rintro front m ⟨hkeys, hids, hcourses⟩
    rw [List.flatMap_append, nodup_append_iff] at hids
    rw [List.forall_mem_append] at hcourses
    exact ⟨(nodup_map_append_singleton_iff.mp hkeys).1, hids.1, hcourses.1⟩
  · rintro front m r' ⟨hkeys, hids, hcourses⟩
    -- The ids on record are those of the majors before.
    have hnew : (∀ q ∈ m.requirements, q.id ∉ (r.withMajors front).requirementIds) ↔
        ∀ id ∈ m.requirements.map ListedRequirement.id,
          id ∉ front.flatMap fun m => m.requirements.map ListedRequirement.id := by
      simp only [mem_requirementIds_withMajors, List.forall_mem_map]
    rw [addMajor_eq_ok_iff, majorKeys_withMajors, hnew, ← withMajors_append_singleton]
    simp only [nodup_map_append_singleton_iff, List.flatMap_append, List.flatMap_cons,
      List.flatMap_nil, List.append_nil, nodup_append_iff, List.forall_mem_append,
      List.forall_mem_singleton]
    constructor
    · rintro ⟨hkey, ⟨hm, hdiffer, hfresh⟩, rfl⟩
      exact ⟨⟨⟨hkeys, hkey⟩, ⟨hids, hdiffer, hfresh⟩, hcourses, hm⟩, rfl⟩
    · rintro ⟨⟨⟨-, hkey⟩, ⟨-, hdiffer, hfresh⟩, -, hm⟩, rfl⟩
      exact ⟨hkey, ⟨hm, hdiffer, hfresh⟩, rfl⟩

/-! ### Students -/

/-- Majors are declared for the student who came last if they are on record and different. -/
theorem foldlM_declareMajor_eq_ok_iff {others : List Student} {id : StudentId} {name : String}
    (hid : id ∉ others.map Student.id) (listed : List ListedDeclaration) :
    listed.foldlM (fun r d => refusing (r.declareMajor id d.declaredMajor))
        { r with students := others ++ [⟨id, name, []⟩] } = .ok r' ↔
      ((∀ d ∈ listed, d.key ∈ r.majorKeys) ∧ (listed.map ListedDeclaration.key).Nodup) ∧
      r' = { r with
             students := others ++ [⟨id, name, listed.map ListedDeclaration.declaredMajor⟩] } := by
  refine foldlM_eq_ok_iff (fun listed => (∀ d ∈ listed, d.key ∈ r.majorKeys) ∧
      (listed.map ListedDeclaration.key).Nodup)
    (fun listed => { r with
      students := others ++ [⟨id, name, listed.map ListedDeclaration.declaredMajor⟩] })
    (by simp) ?_ ?_ listed r'
  · rintro front d ⟨hmajors, honce⟩
    rw [List.forall_mem_append] at hmajors
    exact ⟨hmajors.1, (nodup_map_append_singleton_iff.mp honce).1⟩
  · rintro front d r' ⟨hmajors, honce⟩
    -- The student is found behind the others, and no other changes.
    have hothers : (others.find? fun s => s.id == id) = none :=
      (find?_key_eq_none_iff Student.id).mpr hid
    have hfind : ∀ s : Student, s.id = id →
        { r with students := others ++ [s] }.student? id = some s := by
      intro s hs
      simp [Records.student?, List.find?_append, hothers, hs]
    have hdeclare : others.map (Student.declaring id d.declaredMajor) = others := by
      refine (List.map_congr_left fun s hs => ?_).trans (List.map_id others)
      have : s.id ≠ id := fun e => hid (e ▸ List.mem_map_of_mem hs)
      simp [Student.declaring, this]
    have hkeys : (front.map ListedDeclaration.declaredMajor).map DeclaredMajor.major =
        front.map ListedDeclaration.key := by
      rw [List.map_map]
      rfl
    rw [refusing_eq_ok_iff, Records.declareMajor_eq_ok_iff, hfind _ rfl,
      nodup_map_append_singleton_iff]
    simp only [Option.some.injEq, exists_eq_left', hkeys, List.map_append, List.map_singleton,
      hdeclare, Student.declaring, beq_self_eq_true, if_true, List.forall_mem_append,
      List.forall_mem_singleton]
    constructor
    · rintro ⟨hmajor, hnew, rfl⟩
      exact ⟨⟨⟨hmajors, hmajor⟩, honce, hnew⟩, rfl⟩
    · rintro ⟨⟨⟨-, hmajor⟩, -, hnew⟩, rfl⟩
      exact ⟨hmajor, hnew, rfl⟩

theorem addEnrollment_eq_ok_iff {id : StudentId} {e : ListedEnrollment} :
    addEnrollment id r e = .ok r' ↔ id ∈ r.studentIds ∧ e.course ∈ r.courseIds ∧
      (id, e.key) ∉ r.enrollmentKeys ∧
      r' = { r with enrollments := r.enrollments ++ [e.enrollment id] } := by
  by_cases hcourse : e.course ∈ r.courseIds
  · rw [addEnrollment, if_neg (mt Records.isNone_course?_iff.mp (not_not_intro hcourse)),
      refusing_eq_ok_iff, Records.recordEnrollment_eq_ok_iff]
    rfl
  · rw [addEnrollment, if_pos (Records.isNone_course?_iff.mpr hcourse)]
    simp [hcourse]

/-- Enrollments are recorded for a student on record who has none yet, if their courses are on
record and no course comes twice in a semester. -/
theorem foldlM_addEnrollment_eq_ok_iff {id : StudentId} (hid : id ∈ r.studentIds)
    (hnone : ∀ e ∈ r.enrollments, e.student ≠ id) (listed : List ListedEnrollment) :
    listed.foldlM (addEnrollment id) r = .ok r' ↔
      ((∀ e ∈ listed, e.course ∈ r.courseIds) ∧ (listed.map ListedEnrollment.key).Nodup) ∧
      r' = { r with
             enrollments := r.enrollments ++ listed.map (ListedEnrollment.enrollment id) } := by
  have hbuild : r = { r with
      enrollments := r.enrollments ++ ([].map (ListedEnrollment.enrollment id)) } := by
    simp
  conv_lhs => rw [hbuild]
  refine foldlM_eq_ok_iff (fun listed => (∀ e ∈ listed, e.course ∈ r.courseIds) ∧
      (listed.map ListedEnrollment.key).Nodup)
    (fun listed => { r with
      enrollments := r.enrollments ++ listed.map (ListedEnrollment.enrollment id) })
    (by simp) ?_ ?_ listed r'
  · rintro front e ⟨hcourses, honce⟩
    rw [List.forall_mem_append] at hcourses
    exact ⟨hcourses.1, (nodup_map_append_singleton_iff.mp honce).1⟩
  · rintro front e r' ⟨hcourses, honce⟩
    -- The keys on record that name the student are those of the listed enrollments before.
    have hkeys : (id, e.key) ∈ { r with
          enrollments := r.enrollments ++ front.map (ListedEnrollment.enrollment id)
        }.enrollmentKeys ↔ e.key ∈ front.map ListedEnrollment.key := by
      simp only [Records.enrollmentKeys, List.map_append, List.mem_append, List.mem_map,
        exists_exists_and_eq_and]
      constructor
      · rintro (⟨known, hknown, hk⟩ | ⟨known, hknown, hk⟩)
        · exact absurd (congrArg Prod.fst hk) (hnone known hknown)
        · exact ⟨known, hknown, congrArg Prod.snd hk⟩
      · rintro ⟨known, hknown, hk⟩
        exact Or.inr ⟨known, hknown, congrArg (Prod.mk id) hk⟩
    rw [addEnrollment_eq_ok_iff, hkeys, nodup_map_append_singleton_iff]
    simp only [List.map_append, List.map_singleton, List.forall_mem_append,
      List.forall_mem_singleton, ← List.append_assoc]
    constructor
    · rintro ⟨-, hcourse, hnew, rfl⟩
      exact ⟨⟨⟨hcourses, hcourse⟩, honce, hnew⟩, rfl⟩
    · rintro ⟨⟨⟨-, hcourse⟩, -, hnew⟩, rfl⟩
      exact ⟨hid, hcourse, hnew, rfl⟩

/-- What is listed under a student is on record, and nothing is listed twice. -/
def Fits (r : Records) (s : ListedStudent) : Prop :=
  ((∀ d ∈ s.declaredMajors, d.key ∈ r.majorKeys) ∧
    (s.declaredMajors.map ListedDeclaration.key).Nodup) ∧
  (∀ e ∈ s.enrollments, e.course ∈ r.courseIds) ∧ (s.enrollments.map ListedEnrollment.key).Nodup

theorem addStudent_eq_ok_iff {s : ListedStudent}
    (hstudents : ∀ e ∈ r.enrollments, e.student ∈ r.studentIds) :
    addStudent r s = .ok r' ↔ s.id ∉ r.studentIds ∧ Fits r s ∧
      r' = { r with
             students := r.students ++ [s.student]
             enrollments := r.enrollments ++ s.enrolled } := by
  simp only [addStudent, bind_eq_ok_iff, refusing_eq_ok_iff, Records.insertStudent_eq_ok_iff]
  -- The student has just been added, so no enrollment on record is the student's.
  have hnone : s.id ∉ r.studentIds → ∀ e ∈ r.enrollments, e.student ≠ s.id :=
    fun hnew e he h => hnew (h ▸ hstudents e he)
  have hlast : ∀ declared, s.id ∈ { r with
      students := r.students ++ [Student.mk s.id s.name declared] }.studentIds := by
    simp [Records.studentIds]
  constructor
  · rintro ⟨_, ⟨hnew, rfl⟩, _, hdeclared, henrolled⟩
    obtain ⟨hmajors, rfl⟩ := (foldlM_declareMajor_eq_ok_iff hnew _).mp hdeclared
    obtain ⟨hcourses, rfl⟩ :=
      (foldlM_addEnrollment_eq_ok_iff (hlast _) (hnone hnew) _).mp henrolled
    exact ⟨hnew, ⟨hmajors, hcourses⟩, rfl⟩
  · rintro ⟨hnew, ⟨hmajors, hcourses⟩, rfl⟩
    exact ⟨_, ⟨hnew, rfl⟩, _, (foldlM_declareMajor_eq_ok_iff hnew _).mpr ⟨hmajors, rfl⟩,
      (foldlM_addEnrollment_eq_ok_iff (hlast _) (hnone hnew) _).mpr ⟨hcourses, rfl⟩⟩

/-- Students are added if no id comes twice and if all of them fit. -/
theorem foldlM_addStudent_eq_ok_iff (students : List ListedStudent) :
    students.foldlM addStudent (r.withStudents []) = .ok r' ↔
      ((students.map ListedStudent.id).Nodup ∧ ∀ s ∈ students, Fits r s) ∧
      r' = r.withStudents students := by
  refine foldlM_eq_ok_iff
    (fun students => (students.map ListedStudent.id).Nodup ∧ ∀ s ∈ students, Fits r s)
    r.withStudents (by simp) ?_ ?_ students r'
  · rintro front s ⟨hids, hfit⟩
    rw [List.forall_mem_append] at hfit
    exact ⟨(nodup_map_append_singleton_iff.mp hids).1, hfit.1⟩
  · rintro front s r' ⟨hids, hfit⟩
    -- Enrollments on record are those listed under students before.
    have hstudents : ∀ e ∈ (r.withStudents front).enrollments,
        e.student ∈ (r.withStudents front).studentIds := by
      simp only [Records.withStudents, Records.studentIds, List.mem_flatMap, List.map_map]
      rintro e ⟨s, hs, he⟩
      obtain ⟨listed, -, rfl⟩ := List.mem_map.mp he
      exact List.mem_map_of_mem hs
    have hid : s.id ∉ (r.withStudents front).studentIds ↔ s.id ∉ front.map ListedStudent.id := by
      simp [Records.withStudents, Records.studentIds, ListedStudent.student]
    have hbuilt : r.withStudents (front ++ [s]) =
        { r.withStudents front with
          students := (r.withStudents front).students ++ [s.student]
          enrollments := (r.withStudents front).enrollments ++ s.enrolled } := by
      simp [Records.withStudents]
    have hfits : Fits (r.withStudents front) s ↔ Fits r s := Iff.rfl
    rw [addStudent_eq_ok_iff hstudents, hid, hfits, ← hbuilt]
    simp only [nodup_map_append_singleton_iff, List.forall_mem_append, List.forall_mem_singleton]
    constructor
    · rintro ⟨hnew, hs, rfl⟩
      exact ⟨⟨⟨hids, hnew⟩, hfit, hs⟩, rfl⟩
    · rintro ⟨⟨⟨-, hnew⟩, -, hs⟩, rfl⟩
      exact ⟨hnew, hs, rfl⟩

/-! ### Files -/

/-- A file is imported exactly if it is consistent, and then gives the holdings that it
describes. -/
theorem ofFile_eq_ok_iff (file : CatalogFile) {h : Holdings} :
    ofFile file limit = .ok h ↔ file.Consistent limit ∧ h = file.holdings limit := by
  simp only [ofFile, bind_eq_ok_iff, pure_eq_ok_iff, addCourses_eq_ok_iff,
    foldlM_addPrerequisites_eq_ok_iff]
  -- Records without majors or students are those with none listed.
  have hmajors := @foldlM_addMajor_eq_ok_iff (.ofCourses file.courses)
  have hstudents :=
    @foldlM_addStudent_eq_ok_iff ((Records.ofCourses file.courses).withMajors file.majors)
  have hcourse : ∀ id, id ∈ (Records.ofCourses file.courses).courseIds ↔ id ∈ file.courseIds :=
    fun _ => Records.mem_courseIds_ofCourses
  constructor
  · rintro ⟨_, ⟨hcourses, rfl⟩, _, ⟨htrees, rfl⟩, _, hadded, _, hplaced, rfl⟩
    obtain ⟨⟨hkeys, hids, hnamed⟩, rfl⟩ := (hmajors _).mp hadded
    obtain ⟨⟨hstudentIds, hfit⟩, rfl⟩ := (hstudents _).mp hplaced
    simp only [Admits, Fits, courseIds_withMajors, majorKeys_withMajors, hcourse]
      at htrees hnamed hfit
    refine ⟨⟨hcourses, htrees, hkeys, hids, hnamed, hstudentIds, ?_, ?_, ?_, ?_⟩, rfl⟩
    · exact fun s hs => (hfit s hs).1.1
    · exact fun s hs => (hfit s hs).1.2
    · exact fun s hs => (hfit s hs).2.1
    · exact fun s hs => (hfit s hs).2.2
  · rintro ⟨hfile, rfl⟩
    have htrees : ∀ c ∈ file.courses,
        Admits limit (Records.ofCourses file.courses).courseIds c := by
      simp only [Admits, hcourse]
      exact hfile.prerequisites_admitted
    have hnamed : ∀ m ∈ file.majors, ∀ q ∈ m.requirements, ∀ id ∈ q.courses,
        id ∈ (Records.ofCourses file.courses).courseIds := by
      simp only [hcourse]
      exact hfile.requirement_courses
    have hfit : ∀ s ∈ file.students,
        Fits ((Records.ofCourses file.courses).withMajors file.majors) s := by
      simp only [Fits, courseIds_withMajors, majorKeys_withMajors, hcourse]
      exact fun s hs => ⟨⟨hfile.declared_majors s hs, hfile.declared_once s hs⟩,
        hfile.enrolled_courses s hs, hfile.enrolled_once s hs⟩
    exact ⟨_, ⟨hfile.courses_distinct, rfl⟩, _, ⟨htrees, rfl⟩, _,
      (hmajors _).mpr ⟨⟨hfile.majors_distinct, hfile.requirements_distinct, hnamed⟩, rfl⟩, _,
      (hstudents _).mpr ⟨⟨hfile.students_distinct, hfit⟩, rfl⟩, rfl⟩

/-- Importing a file decides whether it is consistent. -/
instance (file : CatalogFile) (limit : Nat) : Decidable (file.Consistent limit) :=
  match h : ofFile file limit with
  | .ok _ => isTrue ((ofFile_eq_ok_iff file).mp h).1
  | .error _ => isFalse fun hfile => by
    rw [(ofFile_eq_ok_iff file).mpr ⟨hfile, rfl⟩] at h
    exact absurd h (by simp)

/-- A catalog file is imported exactly if its parts fit together.  Every entry of it is then where
it belongs, and nothing else is; a text is imported as the file that it holds. -/
theorem import_iff_consistent (file : CatalogFile) (limit : Nat) :
    ((∃ h, ofFile file limit = .ok h) ↔ file.Consistent limit) ∧
    (∀ h, ofFile file limit = .ok h → h.Reflects file limit) ∧
    ∀ bs, CatalogFile.read bs = .ok file → ofBytes bs limit = ofFile file limit := by
  refine ⟨?_, fun h hload => ?_, fun bs hread => ?_⟩
  · constructor
    · rintro ⟨h, hload⟩
      exact ((ofFile_eq_ok_iff file).mp hload).1
    · intro hfile
      exact ⟨_, (ofFile_eq_ok_iff file).mpr ⟨hfile, rfl⟩⟩
  · obtain ⟨hfile, rfl⟩ := (ofFile_eq_ok_iff file).mp hload
    exact CatalogFile.reflects_holdings hfile
  · rw [ofBytes, hread]
    rfl

/-- A requirement whose course is not listed is a fault of the file. -/
example : ¬ CatalogFile.Consistent
    ⟨[], [⟨"CS", "BS", "Computing", 120, [⟨7, "Core", none, none, [1]⟩]⟩], []⟩ 64 := by
  decide

end Registrar.Holdings
