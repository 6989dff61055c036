import Registrar.Proofs.Holdings.Closed

/-!
# Records by ascending id

Courses and requirements are put in their places by id when they are inserted, so they are listed
by strictly ascending id in all reachable holdings (`Reachable.ascending`).  An id is then that of
one record only, which is the one found under it (`Ascending.requirement?_of_mem`).

`mem_coursesWithStatus` says which courses the enrollments of a student make up, of which
`ascending` keeps each once.
-/

namespace Registrar

/-! ### Ascending lists -/

section

variable {α : Type} {key : α → UInt64} {entries : List α}

/-- In an ascending list an entry is what is found under its key. -/
theorem find?_key_of_pairwise (h : entries.Pairwise fun a b => key a < key b) {a : α}
    (ha : a ∈ entries) : (entries.find? fun b => key b == key a) = some a := by
  induction entries with
  | nil => exact absurd ha List.not_mem_nil
  | cons first rest ih =>
    obtain ⟨hfirst, hrest⟩ := List.pairwise_cons.mp h
    rcases List.mem_cons.mp ha with rfl | ha
    · simp
    · have hne : key first ≠ key a := UInt64.ne_of_lt (hfirst a ha)
      rw [List.find?_cons_of_neg (by simpa using hne)]
      exact ih hrest ha

/-- The last number is put among those before it, unless it is there already. -/
theorem ascending_append_singleton (front : List UInt64) (last : UInt64) :
    ascending (front ++ [last]) =
      if last ∈ ascending front then ascending front
      else insertAscending id last (ascending front) := by
  simp [ascending]

theorem mem_ascending {numbers : List UInt64} {n : UInt64} :
    n ∈ ascending numbers ↔ n ∈ numbers := by
  induction numbers using List.reverseRecOn with
  | nil => rfl
  | append_singleton front last ih =>
    rw [ascending_append_singleton, List.mem_append, List.mem_singleton, ← ih]
    split_ifs with hlast
    · constructor
      · exact Or.inl
      · rintro (h | rfl)
        · exact h
        · exact hlast
    · rw [(insertAscending_perm id last (ascending front)).mem_iff, List.mem_cons, or_comm]

theorem pairwise_ascending (numbers : List UInt64) :
    (ascending numbers).Pairwise fun m n => m < n := by
  induction numbers using List.reverseRecOn with
  | nil => exact List.Pairwise.nil
  | append_singleton front last ih =>
    rw [ascending_append_singleton]
    split_ifs with hlast
    · exact ih
    · have hnew : id last ∉ (ascending front).map id := by rwa [List.map_id]
      exact pairwise_insertAscending ih hnew

/-- In ascending order the same numbers make the same list. -/
theorem ascending_congr {xs ys : List UInt64} (h : ∀ n, n ∈ xs ↔ n ∈ ys) :
    ascending xs = ascending ys := by
  have hnodup : ∀ numbers, (ascending numbers).Nodup := fun numbers =>
    (pairwise_ascending numbers).imp UInt64.ne_of_lt
  have hperm : (ascending xs).Perm (ascending ys) := by
    rw [List.perm_ext_iff_of_nodup (hnodup xs) (hnodup ys)]
    intro n
    rw [mem_ascending, mem_ascending, h]
  have hasymm : ∀ m n : UInt64, m ∈ ascending xs → n ∈ ascending ys → m < n → n < m → m = n :=
    fun m n _ _ hlt hgt => absurd hgt (UInt64.lt_asymm hlt)
  exact hperm.eq_of_pairwise hasymm (pairwise_ascending xs) (pairwise_ascending ys)

end

/-! ### Records -/

namespace Records

variable {r r' : Records}

/-- Courses and requirements are listed by strictly ascending id. -/
structure Ascending (r : Records) : Prop where
  courses : r.courses.Pairwise fun a b => a.id < b.id
  requirements : r.requirements.Pairwise fun a b => a.id < b.id

theorem ascending_empty : empty.Ascending where
  courses := List.Pairwise.nil
  requirements := List.Pairwise.nil

theorem Ascending.step {w : Write} (h : r.Ascending) (hstep : Step r w r') : r'.Ascending := by
  cases hstep with
  | insertCourse hid => exact ⟨pairwise_insertAscending h.courses hid, h.requirements⟩
  | insertRequirement hid => exact ⟨h.courses, pairwise_insertAscending h.requirements hid⟩
  | insertMajor | insertStudent | declareMajor | recordEnrollment | applyEnrollments =>
    exact ⟨h.courses, h.requirements⟩

theorem Ascending.requirement?_of_mem (h : r.Ascending) {q : Requirement}
    (hq : q ∈ r.requirements) : r.requirement? q.id = some q :=
  find?_key_of_pairwise h.requirements hq

/-- The requirements of a major are those found under their ids that belong to it. -/
theorem Ascending.mem_requirementsOf (h : r.Ascending) {key : MajorKey} {q : Requirement} :
    q ∈ r.requirementsOf key ↔ r.requirement? q.id = some q ∧ q.major = key := by
  rw [requirementsOf, List.mem_filter, beq_iff_eq]
  refine and_congr_left fun _ => ⟨h.requirement?_of_mem, fun hq => ?_⟩
  exact List.mem_of_find?_eq_some hq

theorem Ascending.requirementsOf (h : r.Ascending) (key : MajorKey) :
    (r.requirementsOf key).Pairwise fun a b => a.id < b.id :=
  h.requirements.sublist List.filter_sublist

/-- The courses of some status are those of the enrollments that have it. -/
theorem mem_coursesWithStatus {student : StudentId} {status : EnrollmentStatus} {id : CourseId} :
    id ∈ r.coursesWithStatus student status ↔
      ∃ e ∈ r.enrollments, e.student = student ∧ e.course = id ∧ e.status = status := by
  rw [coursesWithStatus, mem_ascending, List.mem_map]
  simp only [List.mem_filter, Bool.and_eq_true, beq_iff_eq]
  constructor
  · rintro ⟨e, ⟨he, hstudent, hstatus⟩, hid⟩
    exact ⟨e, he, hstudent, hid, hstatus⟩
  · rintro ⟨e, he, hstudent, hid, hstatus⟩
    exact ⟨e, ⟨he, hstudent, hstatus⟩, hid⟩

end Records

/-! ### Holdings -/

namespace Holdings

variable {h : Holdings}

theorem Start.ascending (hstart : Start h) : h.records.Ascending := by
  cases hstart with
  | empty => exact Records.ascending_empty
  | imported himport =>
    obtain ⟨file, -, hload⟩ := bind_eq_ok_iff.mp himport
    obtain ⟨hfile, rfl⟩ := (ofFile_eq_ok_iff file).mp hload
    have hreflects := CatalogFile.reflects_holdings hfile
    exact ⟨hreflects.courses_ascending, hreflects.requirements_ascending⟩

theorem Step.ascending {w : Write} {h' : Holdings} (hstep : Step h w h')
    (hrecords : h.records.Ascending) : h'.records.Ascending := by
  cases hstep with
  | records hstep => exact hrecords.step hstep
  | importTranscript _ _ hstep => exact hrecords.step hstep
  | setPrerequisites | setFlatPrerequisites | removePrerequisites => exact hrecords

/-- In all reachable holdings courses and requirements are listed by ascending id. -/
theorem Reachable.ascending (hreach : h.Reachable) : h.records.Ascending := by
  obtain ⟨start, ws, hstart, -, rfl⟩ := hreach
  exact run_induction hstart.ascending fun h hrecords w _ =>
    after_induction hrecords fun h' hstep => hstep.ascending hrecords

end Holdings

end Registrar
