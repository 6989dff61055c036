import Registrar.Proofs.Catalog.Import
import Registrar.Proofs.Catalog.Reading
import Registrar.Proofs.Holdings.Run
import Registrar.Proofs.Prerequisite.Admission
import Registrar.Proofs.Prerequisite.Missing

/-!
# Holdings that refer to nothing unknown

The records and the store of prerequisites know nothing of each other.  `Closed` says that they
fit together all the same: whatever course the store names is on record, its trees are within
the limit, and whatever major a student has declared is on record.  Empty holdings are closed,
imported ones are (`closed_of_ofBytes`), and no write changes that (`Closed.step`), so all
`Reachable` holdings are.

`reachable_answers_whole` draws the conclusion for desks, which leave out courses that are not
on record and refuse to audit majors that are not: nothing is ever left out or refused.
-/

namespace Registrar.Holdings

open Prerequisite (Tree)

/-- What the store names is on record, its trees are within the limit, and what students have
declared is on record. -/
structure Closed (h : Holdings) : Prop where
  stored_courses : ∀ course t, h.prerequisites.tree? course = some t →
    course ∈ h.records.courseIds
  stored_leaves : ∀ course t, h.prerequisites.tree? course = some t →
    ∀ leaf ∈ t.root.leaves, leaf ∈ h.records.courseIds
  stored_within : ∀ course t, h.prerequisites.tree? course = some t → t.WithinLimit
  declared : h.records.DeclaredOnRecord

variable {h h' : Holdings}

/-! ### Where holdings begin -/

theorem closed_empty : empty.Closed where
  stored_courses := fun _ _ ht => absurd ht (by simp [empty])
  stored_leaves := fun _ _ ht => absurd ht (by simp [empty])
  stored_within := fun _ _ ht => absurd ht (by simp [empty])
  declared := fun _ hs => absurd hs List.not_mem_nil

/-- The trees of a catalog file are those that the file asks for. -/
theorem Reflects.exists_spec {file : CatalogFile} {limit : Nat} (hreflects : h.Reflects file limit)
    {course : CourseId} {t : Tree} (ht : h.prerequisites.tree? course = some t) :
    ∃ c ∈ file.courses, c.id = course ∧
      ∃ spec, c.prerequisites = some spec ∧ Tree.ofSpec spec limit = .ok t := by
  -- A course that is not listed has no tree.
  have hlisted : course ∈ file.courseIds := by
    by_contra hunlisted
    rw [hreflects.tree_of_unlisted course hunlisted] at ht
    exact absurd ht (by simp)
  obtain ⟨c, hc, rfl⟩ := List.mem_map.mp hlisted
  obtain ⟨hnone, hsome⟩ := hreflects.tree_of_listed c hc
  refine ⟨c, hc, rfl, ?_⟩
  cases hspec : c.prerequisites with
  | none =>
    rw [hnone hspec] at ht
    exact absurd ht (by simp)
  | some spec =>
    obtain ⟨t', ht', hstored⟩ := hsome spec hspec
    rw [hstored] at ht
    exact ⟨spec, rfl, Option.some.inj ht ▸ ht'⟩

/-- The trees of an imported catalog are admitted from specs that the text has room for. -/
theorem exists_spec_of_ofBytes {bs : Text.Bytes} {limit : Nat} (himport : ofBytes bs limit = .ok h)
    {course : CourseId} {t : Tree} (ht : h.prerequisites.tree? course = some t) :
    ∃ spec, Tree.ofSpec spec limit = .ok t ∧ spec.nesting ≤ 124 := by
  obtain ⟨file, hread, hload⟩ := bind_eq_ok_iff.mp himport
  obtain ⟨hfile, rfl⟩ := (ofFile_eq_ok_iff file).mp hload
  obtain ⟨c, hc, -, spec, hspec, hbuilt⟩ := (CatalogFile.reflects_holdings hfile).exists_spec ht
  have hnesting := CatalogFile.nesting_le_of_read (mapError_eq_ok_iff.mp hread) c hc spec hspec
  exact ⟨spec, hbuilt, hnesting⟩

/-- Imported holdings are closed. -/
theorem closed_of_ofBytes {bs : Text.Bytes} {limit : Nat} (himport : ofBytes bs limit = .ok h) :
    h.Closed := by
  obtain ⟨file, -, hload⟩ := bind_eq_ok_iff.mp himport
  obtain ⟨hfile, rfl⟩ := (ofFile_eq_ok_iff file).mp hload
  have hreflects := CatalogFile.reflects_holdings hfile
  have hcourse : ∀ {id}, id ∈ file.courseIds → id ∈ (file.holdings limit).records.courseIds :=
    Records.mem_courseIds_ofCourses.mpr
  constructor
  · intro course t ht
    obtain ⟨c, hc, rfl, -⟩ := hreflects.exists_spec ht
    exact hcourse (List.mem_map_of_mem hc)
  · intro course t ht leaf hleaf
    obtain ⟨c, hc, -, spec, hspec, hbuilt⟩ := hreflects.exists_spec ht
    -- The import has admitted the spec, and from a spec only one tree is built.
    obtain ⟨t', ht', hleaves⟩ := hfile.prerequisites_admitted c hc spec hspec
    obtain rfl := Except.ok.inj (hbuilt.symm.trans ht')
    exact hcourse (hleaves leaf hleaf)
  · intro course t ht
    obtain ⟨c, -, -, spec, -, hbuilt⟩ := hreflects.exists_spec ht
    exact Tree.withinLimit_of_ofSpec hbuilt
  · intro s hs d hd
    rw [hreflects.students_eq] at hs
    obtain ⟨listed, hlisted, rfl⟩ := List.mem_map.mp hs
    obtain ⟨declared, hdeclared, rfl⟩ := List.mem_map.mp hd
    rw [Records.majorKeys, hreflects.majors_eq, List.map_map]
    exact hfile.declared_majors listed hlisted declared hdeclared

/-! ### What writes keep -/

/-- The store stays as it is and the records only grow. -/
theorem Closed.of_grows (hclosed : h.Closed) {records : Records} (hgrows : h.records.Grows records)
    (hdeclared : records.DeclaredOnRecord) : Closed { h with records } where
  stored_courses := fun course t ht => hgrows.courses (hclosed.stored_courses course t ht)
  stored_leaves := fun course t ht leaf hleaf =>
    hgrows.courses (hclosed.stored_leaves course t ht leaf hleaf)
  stored_within := hclosed.stored_within
  declared := hdeclared

/-- A tree within the limit that names courses on record takes the place of another. -/
theorem Closed.replace (hclosed : h.Closed) {course : CourseId} {t : Tree}
    (hcourse : course ∈ h.records.courseIds)
    (hleaves : ∀ leaf ∈ t.root.leaves, leaf ∈ h.records.courseIds) (hwithin : t.WithinLimit) :
    Closed { h with prerequisites := (h.prerequisites.replace course t).2 } := by
  -- A stored tree is the new one or was there before.
  have hstored : ∀ other t', (h.prerequisites.replace course t).2.tree? other = some t' →
      (other = course ∧ t' = t) ∨ h.prerequisites.tree? other = some t' := by
    intro other t' ht'
    rw [Prerequisite.Store.tree?_replace] at ht'
    split_ifs at ht' with hother
    · exact Or.inl ⟨hother, (Option.some.inj ht').symm⟩
    · exact Or.inr ht'
  refine ⟨?_, ?_, ?_, hclosed.declared⟩
  · intro other t' ht'
    obtain ⟨rfl, rfl⟩ | hold := hstored other t' ht'
    · exact hcourse
    · exact hclosed.stored_courses other t' hold
  · intro other t' ht'
    obtain ⟨rfl, rfl⟩ | hold := hstored other t' ht'
    · exact hleaves
    · exact hclosed.stored_leaves other t' hold
  · intro other t' ht'
    obtain ⟨rfl, rfl⟩ | hold := hstored other t' ht'
    · exact hwithin
    · exact hclosed.stored_within other t' hold

/-- A tree is taken away. -/
theorem Closed.remove (hclosed : h.Closed) (course : CourseId) :
    Closed { h with prerequisites := (h.prerequisites.remove course).2 } := by
  have hstored : ∀ other t, (h.prerequisites.remove course).2.tree? other = some t →
      h.prerequisites.tree? other = some t := by
    intro other t ht
    rw [Prerequisite.Store.tree?_remove] at ht
    split_ifs at ht
    exact ht
  exact ⟨fun other t ht => hclosed.stored_courses other t (hstored other t ht),
    fun other t ht => hclosed.stored_leaves other t (hstored other t ht),
    fun other t ht => hclosed.stored_within other t (hstored other t ht), hclosed.declared⟩

/-- The write inserts no student with declared majors. -/
def Write.DeclaresNothing : Write → Prop
  | .records w => w.DeclaresNothing
  | _ => True

theorem Closed.step {w : Write} (hclosed : h.Closed) (hw : w.DeclaresNothing)
    (hstep : Step h w h') : h'.Closed := by
  cases hstep with
  | records hrecords =>
    exact hclosed.of_grows hrecords.grows (hclosed.declared.step hw hrecords)
  | @importTranscript _ _ batch _ _ _ hrecords =>
    have hbatch : (Records.Write.applyEnrollments batch).DeclaresNothing := trivial
    exact hclosed.of_grows hrecords.grows (hclosed.declared.step hbatch hrecords)
  | setPrerequisites ht hcourse hleaves =>
    exact hclosed.replace hcourse hleaves (Tree.withinLimit_of_ofSpec ht)
  | setFlatPrerequisites ht hcourse hleaves =>
    exact hclosed.replace hcourse hleaves (Tree.withinLimit_of_ofFlatSpec ht)
  | removePrerequisites => exact hclosed.remove _

/-! ### What closed holdings answer -/

/-- All missing courses are on record. -/
theorem Closed.missing_on_record (hclosed : h.Closed) (completed : List CourseId)
    (course : CourseId) :
    ∀ id ∈ Prerequisite.missing completed (h.prerequisites.tree? course),
      id ∈ h.records.courseIds := by
  intro id hid
  cases ht : h.prerequisites.tree? course with
  | none =>
    rw [ht] at hid
    exact absurd hid List.not_mem_nil
  | some t =>
    rw [ht] at hid
    have hunmet := Prerequisite.Rule.mem_missing.mp hid
    exact hclosed.stored_leaves course t ht id (Prerequisite.Rule.of_mem_unmet hunmet).1

theorem Closed.declared_on_record (hclosed : h.Closed) (student : StudentId) :
    ∀ d ∈ h.records.declaredMajors student, d.major ∈ h.records.majorKeys := by
  intro d hd
  unfold Records.declaredMajors at hd
  split at hd
  · rename_i s hs
    exact hclosed.declared s (List.mem_of_find?_eq_some hs) d hd
  · exact absurd hd List.not_mem_nil

/-! ### Reachable holdings -/

/-- Holdings begin without anything or with what a catalog file holds. -/
inductive Start : Holdings → Prop
  | empty : Start .empty
  | imported {bs : Text.Bytes} {limit : Nat} {h : Holdings} (himport : ofBytes bs limit = .ok h) :
    Start h

/-- The holdings that writes lead to which insert no students with declared majors. -/
def Reachable (h : Holdings) : Prop :=
  ∃ start ws, Start start ∧ (∀ w ∈ ws, w.DeclaresNothing) ∧ start.run ws = h

theorem Start.closed (hstart : Start h) : h.Closed := by
  cases hstart with
  | empty => exact closed_empty
  | imported himport => exact closed_of_ofBytes himport

theorem Reachable.closed (hreach : h.Reachable) : h.Closed := by
  obtain ⟨start, ws, hstart, hws, rfl⟩ := hreach
  exact run_induction hstart.closed fun h hclosed w hw =>
    after_induction hclosed fun h' hstep => hclosed.step (hws w hw) hstep

/-- Reachable holdings refer to nothing that is not on record.  So a student on record is told
every course that is missing, in order and as it is on record, and audited in every declared
major. -/
theorem reachable_answers_whole (hreach : h.Reachable) :
    (∀ course t, h.prerequisites.tree? course = some t →
      course ∈ h.records.courseIds ∧ (∀ leaf ∈ t.root.leaves, leaf ∈ h.records.courseIds) ∧
      t.depth ≤ Prerequisite.maxDepth ∧ t.depth = t.root.height) ∧
    (∀ limit student course, student ∈ h.records.studentIds → course ∈ h.records.courseIds →
      ∃ courses, (Desk.ofHoldings h limit).missingPrerequisites student course = .ok courses ∧
        courses.map Course.id = Prerequisite.missing (h.records.completedCourses student)
          (h.prerequisites.tree? course) ∧
        ∀ c ∈ courses, h.records.course? c.id = some c) ∧
    ∀ limit student, student ∈ h.records.studentIds →
      ∃ audits, (Desk.ofHoldings h limit).overallAudit student = .ok audits ∧
        audits.map MajorAudit.major =
          (h.records.declaredMajors student).map DeclaredMajor.major := by
  have hclosed := hreach.closed
  refine ⟨fun course t ht => ?_, fun limit student course hstudent hcourse => ?_,
    fun limit student hstudent => ?_⟩
  · have hwithin := hclosed.stored_within course t ht
    exact ⟨hclosed.stored_courses course t ht, hclosed.stored_leaves course t ht,
      hwithin.depth_le, hwithin.depth_eq⟩
  · refine ⟨_, Desk.missingPrerequisites_eq hstudent hcourse, ?_,
      fun c hc => Records.course?_of_mem_filterMap hc⟩
    exact Records.map_id_filterMap_course? (hclosed.missing_on_record _ course)
  · exact Desk.exists_overallAudit hstudent fun d hd => hclosed.declared_on_record student d hd

/-- A student who is asked to complete one course before another is told so. -/
theorem reachable_answers_whole_of_run :
    ∃ h : Holdings, h.Reachable ∧ h.prerequisites.tree? 1 = some ⟨.course 2, 1⟩ ∧
      ∃ courses, (Desk.ofHoldings h 8).missingPrerequisites 9 1 = .ok courses ∧
        courses.map Course.id = [2] := by
  let ws : List Write :=
    [.records (.insertCourse ⟨1, "MATH", "102", "", 4⟩),
      .records (.insertCourse ⟨2, "MATH", "101", "", 4⟩),
      .records (.insertStudent ⟨9, "Ada", []⟩),
      .setPrerequisites 8 1 (.ofCourse 2)]
  have hws : ∀ w ∈ ws, w.DeclaresNothing := by
    simp [ws, Write.DeclaresNothing, Records.Write.DeclaresNothing]
  have hreach : Reachable (empty.run ws) := ⟨empty, ws, .empty, hws, rfl⟩
  obtain ⟨courses, hcourses, hids, -⟩ :=
    (reachable_answers_whole hreach).2.1 8 9 1 (by decide +kernel) (by decide +kernel)
  exact ⟨_, hreach, by decide +kernel, courses, hcourses, hids.trans (by decide +kernel)⟩

end Registrar.Holdings
