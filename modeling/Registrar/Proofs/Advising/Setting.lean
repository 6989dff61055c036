import Registrar.Proofs.Advising.Desk
import Registrar.Proofs.Catalog.Import

/-!
# Importing prerequisites and setting them

A catalog file brings prerequisites in with everything else.  They can also be left out of it
(`CatalogFile.bare`) and set at a desk afterwards, course by course (`Desk.setListed`).

Both loops go over the same courses, and `agree_setListed` compares one step of them: from one
store on they build the same one, or they fail alike (`SameFault`).  Majors and students do not
depend on prerequisites, so `import_agrees_with_setting` follows for whole files.
-/

namespace Registrar

open Prerequisite (Tree Store)

/-! ### Leaving prerequisites out -/

/-- The listed course without its prerequisites. -/
def ListedCourse.bare (c : ListedCourse) : ListedCourse :=
  { c with prerequisites := none }

/-- The file without any prerequisites. -/
def CatalogFile.bare (file : CatalogFile) : CatalogFile :=
  { file with courses := file.courses.map ListedCourse.bare }

/-- Gives a listed course its prerequisites, if it has any; a failure is told with the course. -/
def Desk.setListed (d : Desk) (c : ListedCourse) : Except (CourseId × AdvisingError) Desk :=
  match c.prerequisites with
  | none => .ok d
  | some spec =>
    match d.setPrerequisites c.id spec with
    | .ok (_, d) => .ok d
    | .error e => .error (c.id, e)

/-- An import fails as the prerequisites of a course cannot be set. -/
inductive SameFault (course : CourseId) : AdvisingError → ImportError → Prop
  | invalid (cause : Prerequisite.Error) :
    SameFault course (.invalid cause) (.prerequisites course cause)
  | unknown (leaf : CourseId) :
    SameFault course (.unknown (.course leaf))
      (.unknownCourse leaf ("prerequisites of course " ++ toString course.toNat))

namespace Holdings

variable {file : CatalogFile} {limit : Nat} {start : Holdings}

/-! ### One course -/

/-- A listed course on record is given its prerequisites as the import does it. -/
theorem agree_setListed {r r' : Records} (hcourses : ∀ id, r'.course? id = r.course? id)
    (store : Store) {c : ListedCourse} (hc : c.id ∈ r.courseIds) :
    Agree (fun d store => d = Desk.ofHoldings ⟨r, store⟩ limit) (fun e => SameFault e.1 e.2)
      ((Desk.ofHoldings ⟨r, store⟩ limit).setListed c) (addPrerequisites r' limit store c) := by
  rw [Desk.setListed, addPrerequisites]
  -- Both sides build the tree in the same way and look for the same unknown course.
  cases c.prerequisites with
  | none => exact .ok rfl
  | some spec =>
    have hlimit : (Desk.ofHoldings ⟨r, store⟩ limit).limit = limit := rfl
    simp only [Desk.setPrerequisites, hlimit, hcourses]
    cases Tree.ofSpec spec limit with
    | error cause => exact .error (.invalid cause)
    | ok t =>
      have hinstall := Desk.install_eq (h := ⟨r, store⟩) limit t hc
      simp only [Except.mapError, bind, Except.bind, hinstall]
      cases t.courses.find? fun id => (r.course? id).isNone with
      | none => exact .ok rfl
      | some leaf => exact .error (.unknown leaf)

/-! ### Files -/

theorem foldlM_addPrerequisites_bare {r : Records} (store : Store) (courses : List ListedCourse) :
    (courses.map ListedCourse.bare).foldlM (addPrerequisites r limit) store = .ok store := by
  induction courses with
  | nil => rfl
  | cons c rest ih => exact ih

theorem courses_records_bare (file : CatalogFile) :
    file.bare.records.courses = (Records.ofCourses file.courses).courses := by
  have hcourse : ListedCourse.course ∘ ListedCourse.bare = ListedCourse.course := rfl
  simp only [CatalogFile.records, CatalogFile.bare, Records.withStudents, Records.withMajors,
    Records.ofCourses, List.map_map, hcourse]

/-- Where courses, majors and students are added, the prerequisites decide about the import. -/
theorem ofFile_of_added {r r' r'' : Records} (hr : addCourses .empty file.courses = .ok r)
    (hmajors : file.majors.foldlM addMajor r = .ok r')
    (hstudents : file.students.foldlM addStudent r' = .ok r'') (limit : Nat) :
    ofFile file limit =
      (file.courses.foldlM (addPrerequisites r limit) .empty).map (Holdings.mk r'') := by
  simp only [ofFile, hr, bind, Except.bind]
  cases file.courses.foldlM (addPrerequisites r limit) .empty with
  | error e => rfl
  | ok store =>
    simp only [hmajors, hstudents]
    rfl

/-- If a file is imported without its prerequisites, they alone decide whether it is imported with
them, and the records stay the same. -/
theorem ofFile_of_bare (hstart : ofFile file.bare limit = .ok start) :
    start.prerequisites = .empty ∧ (∀ c ∈ file.courses, c.id ∈ start.records.courseIds) ∧
    ∃ r : Records, (∀ id, r.course? id = start.records.course? id) ∧
      ofFile file limit = (file.courses.foldlM (addPrerequisites r limit) .empty).map
        (Holdings.mk start.records) := by
  have hrecords : start.records.courses = (Records.ofCourses file.courses).courses := by
    rw [((ofFile_eq_ok_iff file.bare).mp hstart).2]
    exact courses_records_bare file
  have hadd : addCourses .empty file.bare.courses = addCourses .empty file.courses :=
    List.foldlM_map
  -- Only the loop over the prerequisites differs between the two imports.
  simp only [ofFile, bind_eq_ok_iff, pure_eq_ok_iff, hadd] at hstart
  obtain ⟨r, hr, store, hstore, r', hmajors, r'', hstudents, rfl⟩ := hstart
  rw [CatalogFile.bare, foldlM_addPrerequisites_bare] at hstore
  obtain ⟨-, hcourses⟩ := (addCourses_eq_ok_iff file.courses).mp hr
  refine ⟨(Except.ok.inj hstore).symm, fun c hc => ?_, r, fun id => ?_, ?_⟩
  · have hid : c.id ∈ (Records.ofCourses file.courses).courseIds :=
      Records.mem_courseIds_ofCourses.mpr (List.mem_map_of_mem hc)
    rwa [Records.courseIds, ← hrecords] at hid
  · rw [Records.course?, Records.course?, hrecords, hcourses]
  · exact ofFile_of_added hr hmajors hstudents limit

/-- A catalog file that is imported without its prerequisites is imported with them exactly if
they can be set afterwards, one course after the other, and the holdings are then the same.
Otherwise the import stops at the course whose prerequisites cannot be set, for the same reason. -/
theorem import_agrees_with_setting (hstart : ofFile file.bare limit = .ok start) :
    ((∃ h, ofFile file limit = .ok h) ↔
      ∃ d, file.courses.foldlM Desk.setListed (.ofHoldings start limit) = .ok d) ∧
    (∀ h d, ofFile file limit = .ok h →
      file.courses.foldlM Desk.setListed (.ofHoldings start limit) = .ok d →
        h.prerequisites = d.holdings.prerequisites ∧ h.records = d.holdings.records) ∧
    ∀ course e,
      file.courses.foldlM Desk.setListed (.ofHoldings start limit) = .error (course, e) →
        ∃ fault, ofFile file limit = .error fault ∧ SameFault course e fault := by
  obtain ⟨hempty, hids, r, hcourses, hfile⟩ := ofFile_of_bare hstart
  have hempty' : Desk.ofHoldings start limit = .ofHoldings ⟨start.records, .empty⟩ limit := by
    rw [← hempty]
  -- One loop is at the desk and the other in the import; they agree course by course.
  have hagree : Agree (fun d store => d = Desk.ofHoldings ⟨start.records, store⟩ limit)
      (fun e => SameFault e.1 e.2)
      (file.courses.foldlM Desk.setListed (.ofHoldings start limit))
      (file.courses.foldlM (addPrerequisites r limit) .empty) := by
    refine Agree.foldlM (fun c hc d store hd => ?_) hempty'
    rw [hd]
    exact agree_setListed hcourses store (hids c hc)
  rw [hfile]
  generalize file.courses.foldlM Desk.setListed (.ofHoldings start limit) = set,
    file.courses.foldlM (addPrerequisites r limit) .empty = imported at hagree ⊢
  cases hagree with
  | ok hd => simp [Except.map, hd]
  | error he =>
    refine ⟨by simp [Except.map], by simp [Except.map], ?_⟩
    rintro course e ⟨⟩
    exact ⟨_, rfl, he⟩

/-- The prerequisites of the second course can be set, those of the third name an unknown one. -/
theorem import_agrees_with_setting_of_unknown_leaf :
    ∃ file start, ofFile file.bare 8 = .ok start ∧
      file.courses.foldlM Desk.setListed (.ofHoldings start 8) =
        .error (3, .unknown (.course 9)) ∧
      ∃ fault, ofFile file 8 = .error fault ∧ SameFault 3 (.unknown (.course 9)) fault := by
  let file : CatalogFile :=
    ⟨[⟨1, "CS", "101", "", 3, none⟩, ⟨2, "CS", "102", "", 3, some (.mk (some 1) none none)⟩,
      ⟨3, "CS", "103", "", 3, some (.mk (some 9) none none)⟩], [], []⟩
  have hstart : ofFile file.bare 8 = .ok (file.bare.holdings 8) := by decide +kernel
  have hset : file.courses.foldlM Desk.setListed (.ofHoldings (file.bare.holdings 8) 8) =
      .error (3, .unknown (.course 9)) := by with_unfolding_all rfl
  exact ⟨file, _, hstart, hset, (import_agrees_with_setting hstart).2.2 _ _ hset⟩

end Holdings

end Registrar
