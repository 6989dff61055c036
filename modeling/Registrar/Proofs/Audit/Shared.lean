import Registrar.Proofs.Audit.Exact
import Registrar.Proofs.Catalog.Import
import Mathlib.Algebra.BigOperators.Group.Finset.Basic
import Mathlib.Algebra.Order.BigOperators.Group.Finset
import Mathlib.Data.List.Forall2

/-!
# Courses that requirements share

Where every course is listed with one number of credits (`ListedWith`), the credits toward a major
are those of a set: of the distinct completed courses that some requirement lists
(`completedListed`).  Credits of one requirement are such a sum too, that of the major which has
only this requirement.  So how the credits of a major and those of its requirements compare is a
matter of unions of sets:

* `completedListed_subset`: a requirement has no more than its major;
* `sum_completedListed_le`: the requirements together have no less, since a shared course is in
  several of the sets and once in the union;
* `sum_completedListed_of_sharesNone`: they have the same if they share no course.
-/

namespace Registrar

/-- The ids that requirements list, as often as they list them. -/
def listedIds (requirements : List Requirement) : List CourseId :=
  (requirements.flatMap Requirement.courses).map Course.id

/-- The distinct completed courses that some requirement lists. -/
def completedListed (requirements : List Requirement) (completed : List CourseId) :
    Finset CourseId :=
  (listedIds requirements).toFinset.filter (· ∈ completed)

/-- Every course is listed with one number of credits. -/
def ListedWith (creditsOf : CourseId → Credits) (requirements : List Requirement) : Prop :=
  ∀ r ∈ requirements, ∀ c ∈ r.courses, c.credits = creditsOf c.id

section

variable {creditsOf : CourseId → Credits} {requirements others : List Requirement}
  {completed more : List CourseId} {r : Requirement}

/-! ### Listed courses -/

theorem mem_listedIds {id : CourseId} :
    id ∈ listedIds requirements ↔ ∃ r ∈ requirements, ∃ c ∈ r.courses, c.id = id := by
  simp only [listedIds, List.mem_map, List.mem_flatMap]
  constructor
  · rintro ⟨c, ⟨r, hr, hc⟩, rfl⟩
    exact ⟨r, hr, c, hc, rfl⟩
  · rintro ⟨r, hr, c, hc, rfl⟩
    exact ⟨c, ⟨r, hr, hc⟩, rfl⟩

@[simp] theorem mem_completedListed {id : CourseId} :
    id ∈ completedListed requirements completed ↔ id ∈ listedIds requirements ∧ id ∈ completed := by
  simp [completedListed]

theorem completedListed_cons (r : Requirement) (rest : List Requirement)
    (completed : List CourseId) :
    completedListed (r :: rest) completed =
      completedListed [r] completed ∪ completedListed rest completed := by
  have happend : listedIds (r :: rest) = listedIds [r] ++ listedIds rest := by
    simp [listedIds]
  unfold completedListed
  rw [happend, List.toFinset_append, Finset.filter_union]

theorem completedListed_subset (hr : r ∈ requirements) (completed : List CourseId) :
    completedListed [r] completed ⊆ completedListed requirements completed := by
  intro id hid
  rw [mem_completedListed, mem_listedIds] at hid ⊢
  obtain ⟨⟨q, hq, hc⟩, hmem⟩ := hid
  obtain rfl := List.mem_singleton.mp hq
  exact ⟨⟨q, hr, hc⟩, hmem⟩

/-- Courses that are listed in another order, or more often, are listed with the same credits. -/
theorem ListedWith.of_mem (h : ListedWith creditsOf requirements)
    (hmem : ∀ s ∈ others, ∀ c ∈ s.courses, ∃ r ∈ requirements, c ∈ r.courses) :
    ListedWith creditsOf others := by
  intro s hs c hc
  obtain ⟨r, hr, hc⟩ := hmem s hs c hc
  exact h r hr c hc

/-! ### Credits as sums over sets -/

/-- Picked courses have the credits of the set of their ids, since no id is picked twice. -/
theorem Course.creditSum_picked {courses : List Course}
    (h : ∀ c ∈ Course.picked completed courses, c.credits = creditsOf c.id) :
    Course.creditSum (Course.picked completed courses) =
      ∑ id ∈ (courses.map Course.id).toFinset.filter (· ∈ completed), (creditsOf id).toNat := by
  -- The ids that are picked are those of the set, and no id comes twice among them.
  have hset : ((Course.picked completed courses).map Course.id).toFinset =
      (courses.map Course.id).toFinset.filter (· ∈ completed) := by
    ext id
    rw [List.mem_toFinset, Finset.mem_filter, List.mem_toFinset, Course.mem_map_id_picked]
  have hcredits : (Course.picked completed courses).map Course.credits =
      ((Course.picked completed courses).map Course.id).map creditsOf := by
    rw [List.map_map]
    exact List.map_congr_left h
  rw [Course.creditSum, hcredits, ← hset, Credits.sum, List.map_map,
    List.sum_toFinset _ (Course.firstListings_picked completed courses).nodup]
  rfl

theorem creditSum_countedCourses (h : ListedWith creditsOf requirements)
    (completed : List CourseId) :
    Course.creditSum (countedCourses requirements completed) =
      ∑ id ∈ completedListed requirements completed, (creditsOf id).toNat := by
  have hlisted : ∀ c ∈ Course.picked completed (requirements.flatMap Requirement.courses).reverse,
      c.credits = creditsOf c.id := by
    intro c hc
    have hmem := (Course.firstListings_picked completed _).sublist.subset hc
    obtain ⟨r, hr, hc⟩ := List.mem_flatMap.mp (List.mem_reverse.mp hmem)
    exact h r hr c hc
  -- Which of several listings is picked does not show in a set.
  rw [countedCourses_eq, Course.creditSum_picked hlisted, List.map_reverse, List.toFinset_reverse]
  rfl

theorem Requirement.creditSum_completedCourses (h : ListedWith creditsOf [r])
    (completed : List CourseId) :
    Course.creditSum (r.audit completed).completedCourses =
      ∑ id ∈ completedListed [r] completed, (creditsOf id).toNat := by
  have hlisted : listedIds [r] = r.courses.map Course.id := by simp [listedIds]
  have hcredits : ∀ c ∈ Course.picked completed r.courses, c.credits = creditsOf c.id := by
    intro c hc
    have hmem := (Course.firstListings_picked completed r.courses).sublist.subset hc
    exact h r (List.mem_singleton_self r) c hmem
  rw [completedCourses_audit, Course.creditSum_picked hcredits, completedListed, hlisted]

/-- The credits toward a major depend on nothing but the set of courses that count. -/
theorem creditsToward_congr (h : ListedWith creditsOf requirements)
    (hothers : ListedWith creditsOf others)
    (hset : completedListed requirements completed = completedListed others more) :
    creditsToward requirements completed = creditsToward others more := by
  apply Credits.total_congr
  show Course.creditSum (countedCourses requirements completed) =
    Course.creditSum (countedCourses others more)
  rw [creditSum_countedCourses h, creditSum_countedCourses hothers, hset]

/-! ### One requirement and all of them -/

theorem sum_completedListed_le (f : CourseId → Nat) (requirements : List Requirement)
    (completed : List CourseId) :
    ∑ id ∈ completedListed requirements completed, f id ≤
      (requirements.map fun r => ∑ id ∈ completedListed [r] completed, f id).sum := by
  induction requirements with
  | nil => simp [completedListed, listedIds]
  | cons r rest ih =>
    have hunion : ∑ id ∈ completedListed [r] completed ∪ completedListed rest completed, f id +
        ∑ id ∈ completedListed [r] completed ∩ completedListed rest completed, f id =
        ∑ id ∈ completedListed [r] completed, f id +
          ∑ id ∈ completedListed rest completed, f id := Finset.sum_union_inter
    rw [completedListed_cons, List.map_cons, List.sum_cons]
    omega

/-- No course is listed by two of the requirements. -/
def SharesNone (requirements : List Requirement) : Prop :=
  requirements.Pairwise fun r s => ∀ c ∈ r.courses, ∀ d ∈ s.courses, c.id ≠ d.id

theorem sum_completedListed_of_sharesNone (f : CourseId → Nat) (h : SharesNone requirements)
    (completed : List CourseId) :
    ∑ id ∈ completedListed requirements completed, f id =
      (requirements.map fun r => ∑ id ∈ completedListed [r] completed, f id).sum := by
  induction requirements with
  | nil => simp [completedListed, listedIds]
  | cons r rest ih =>
    obtain ⟨hfirst, hrest⟩ := List.pairwise_cons.mp h
    -- A course of both sets would be shared by the first requirement and another.
    have hdisjoint : Disjoint (completedListed [r] completed) (completedListed rest completed) := by
      rw [Finset.disjoint_left]
      intro id hid hid'
      rw [mem_completedListed, mem_listedIds] at hid hid'
      obtain ⟨⟨q, hq, c, hc, rfl⟩, -⟩ := hid
      obtain ⟨⟨s, hs, d, hd, heq⟩, -⟩ := hid'
      obtain rfl := List.mem_singleton.mp hq
      exact hfirst s hs c hc d hd heq.symm
    rw [completedListed_cons, Finset.sum_union hdisjoint, ih hrest, List.map_cons, List.sum_cons]

/-- The credits of the requirements, totalled, are the exact sum of the credits of all their
completed courses, cut off once. -/
theorem toNat_total_creditsCompleted (requirements : List Requirement)
    (completed : List CourseId) :
    (Credits.total (requirements.map fun r => (r.audit completed).creditsCompleted)).toNat =
      min (requirements.map fun r =>
        Course.creditSum (r.audit completed).completedCourses).sum Credits.limit := by
  have hparts : (requirements.map fun r => (r.audit completed).creditsCompleted) =
      (requirements.map fun r => (r.audit completed).completedCourses.map Course.credits).map
        Credits.total := by
    rw [List.map_map]
    rfl
  rw [hparts, Credits.total_flatten, Credits.toNat_total, Credits.sum_flatten, List.map_map]
  rfl

/-- The same by the sets of courses that count toward each. -/
theorem ListedWith.toNat_total_creditsCompleted (h : ListedWith creditsOf requirements)
    (completed : List CourseId) :
    (Credits.total (requirements.map fun r => (r.audit completed).creditsCompleted)).toNat =
      min (requirements.map fun r =>
        ∑ id ∈ completedListed [r] completed, (creditsOf id).toNat).sum Credits.limit := by
  have heach : ∀ r ∈ requirements, Course.creditSum (r.audit completed).completedCourses =
      ∑ id ∈ completedListed [r] completed, (creditsOf id).toNat := by
    intro r hr
    apply Requirement.creditSum_completedCourses
    exact fun q hq => h q (List.mem_singleton.mp hq ▸ hr)
  rw [Registrar.toNat_total_creditsCompleted, List.map_congr_left heach]

theorem ListedWith.toNat_creditsToward (h : ListedWith creditsOf requirements)
    (completed : List CourseId) :
    (creditsToward requirements completed).toNat =
      min (∑ id ∈ completedListed requirements completed, (creditsOf id).toNat)
        Credits.limit := by
  rw [← creditSum_countedCourses h]
  exact Credits.toNat_total _

/-! ### Majors -/

/-- The credits toward a major as those of a set of courses: it does not matter how often and in
what order courses and requirements are listed, nor what else is completed.  They are between the
credits of any one requirement and those of all requirements together. -/
structure CountsOnce (creditsOf : CourseId → Credits) (requirements : List Requirement)
    (completed : List CourseId) : Prop where
  toNat_eq : (creditsToward requirements completed).toNat =
    min (∑ id ∈ (listedIds requirements).toFinset with id ∈ completed, (creditsOf id).toNat)
      Credits.limit
  of_perm : ∀ others, others.Perm requirements →
    creditsToward others completed = creditsToward requirements completed
  of_same_courses : ∀ others,
    List.Forall₂ (fun r s => ∀ c, c ∈ s.courses ↔ c ∈ r.courses) requirements others →
    creditsToward others completed = creditsToward requirements completed
  of_unlisted : ∀ extra, (∀ id ∈ extra, id ∉ listedIds requirements) →
    creditsToward requirements (completed ++ extra) = creditsToward requirements completed
  le_major : ∀ r ∈ requirements,
    (r.audit completed).creditsCompleted ≤ creditsToward requirements completed
  le_total : creditsToward requirements completed ≤
    Credits.total (requirements.map fun r => (r.audit completed).creditsCompleted)
  eq_total : SharesNone requirements → creditsToward requirements completed =
    Credits.total (requirements.map fun r => (r.audit completed).creditsCompleted)

/-- Requirements that list the same courses, in whatever order and however often, have the same
credits. -/
theorem creditsToward_of_same_courses (h : ListedWith creditsOf requirements)
    (hsame : ∀ c, (∃ s ∈ others, c ∈ s.courses) ↔ ∃ r ∈ requirements, c ∈ r.courses)
    (completed : List CourseId) :
    creditsToward others completed = creditsToward requirements completed := by
  have hothers : ListedWith creditsOf others :=
    h.of_mem fun s hs c hc => (hsame c).mp ⟨s, hs, hc⟩
  refine creditsToward_congr hothers h ?_
  ext id
  rw [mem_completedListed, mem_completedListed, mem_listedIds, mem_listedIds]
  refine and_congr_left fun _ => ?_
  constructor
  · rintro ⟨s, hs, c, hc, rfl⟩
    obtain ⟨r, hr, hc⟩ := (hsame c).mp ⟨s, hs, hc⟩
    exact ⟨r, hr, c, hc, rfl⟩
  · rintro ⟨r, hr, c, hc, rfl⟩
    obtain ⟨s, hs, hc⟩ := (hsame c).mpr ⟨r, hr, hc⟩
    exact ⟨s, hs, c, hc, rfl⟩

theorem exists_mem_courses_iff
    (h : List.Forall₂ (fun r s => ∀ c, c ∈ s.courses ↔ c ∈ r.courses) requirements others)
    (c : Course) : (∃ s ∈ others, c ∈ s.courses) ↔ ∃ r ∈ requirements, c ∈ r.courses := by
  induction h with
  | nil => exact Iff.rfl
  | cons hfirst _ ih => simp only [List.mem_cons, exists_eq_or_imp, hfirst c, ih]

theorem ListedWith.creditsCompleted_le (h : ListedWith creditsOf requirements)
    (hr : r ∈ requirements) (completed : List CourseId) :
    (r.audit completed).creditsCompleted ≤ creditsToward requirements completed := by
  have hsingle : ListedWith creditsOf [r] := fun q hq => h q (List.mem_singleton.mp hq ▸ hr)
  apply Credits.total_le_total_of_sum_le
  show Course.creditSum (r.audit completed).completedCourses ≤
    Course.creditSum (countedCourses requirements completed)
  rw [Requirement.creditSum_completedCourses hsingle, creditSum_countedCourses h]
  exact Finset.sum_le_sum_of_subset (completedListed_subset hr completed)

theorem ListedWith.creditsToward_le (h : ListedWith creditsOf requirements)
    (completed : List CourseId) :
    creditsToward requirements completed ≤
      Credits.total (requirements.map fun r => (r.audit completed).creditsCompleted) := by
  have hle := sum_completedListed_le (fun id => (creditsOf id).toNat) requirements completed
  rw [UInt32.le_iff_toNat_le, h.toNat_creditsToward, h.toNat_total_creditsCompleted]
  omega

theorem ListedWith.creditsToward_eq (h : ListedWith creditsOf requirements)
    (hnone : SharesNone requirements) (completed : List CourseId) :
    creditsToward requirements completed =
      Credits.total (requirements.map fun r => (r.audit completed).creditsCompleted) := by
  have heq := sum_completedListed_of_sharesNone (fun id => (creditsOf id).toNat) hnone completed
  apply UInt32.toNat_inj.mp
  rw [h.toNat_creditsToward, h.toNat_total_creditsCompleted, heq]

theorem ListedWith.countsOnce (h : ListedWith creditsOf requirements)
    (completed : List CourseId) : CountsOnce creditsOf requirements completed := by
  constructor
  case toNat_eq => exact h.toNat_creditsToward completed
  case of_perm =>
    intro others hperm
    apply creditsToward_of_same_courses h
    intro c
    simp only [hperm.mem_iff]
  case of_same_courses =>
    intro others hsame
    exact creditsToward_of_same_courses h (exists_mem_courses_iff hsame) completed
  case of_unlisted =>
    intro extra hextra
    apply creditsToward_congr h h
    ext id
    rw [mem_completedListed, mem_completedListed]
    refine and_congr_right fun hid => ?_
    rw [List.mem_append]
    exact or_iff_left fun hmem => hextra id hmem hid
  case le_major => exact fun r hr => h.creditsCompleted_le hr completed
  case le_total => exact h.creditsToward_le completed
  case eq_total => exact fun hnone => h.creditsToward_eq hnone completed

end

/-! ### Imported catalogs -/

/-- The credits of the course with this id, none where it is not on record. -/
def Records.creditsOf (r : Records) (id : CourseId) : Credits :=
  match r.course? id with
  | some c => c.credits
  | none => 0

/-- In imported holdings requirements list every course as it is on record. -/
theorem Holdings.listedWith_of_ofBytes {bs : Text.Bytes} {limit : Nat} {h : Holdings}
    (himport : Holdings.ofBytes bs limit = .ok h) (key : MajorKey) :
    ListedWith h.records.creditsOf (h.records.requirementsOf key) := by
  obtain ⟨file, -, hload⟩ := bind_eq_ok_iff.mp himport
  obtain ⟨-, rfl⟩ := (Holdings.ofFile_eq_ok_iff file).mp hload
  intro r hr c hc
  have hcourse : file.records.course? c.id = some c :=
    CatalogFile.course?_of_mem_requirements (List.mem_of_mem_filter hr) hc
  show c.credits = file.records.creditsOf c.id
  rw [Records.creditsOf, hcourse]

/-- **A shared course counts once.**  Where every course is listed with one number of credits, the
credits toward a major are those of the distinct completed courses that some requirement lists.
The requirements of imported catalogs list their courses so. -/
theorem shared_courses_count_once :
    (∀ (creditsOf : CourseId → Credits) (requirements : List Requirement)
      (completed : List CourseId), ListedWith creditsOf requirements →
      CountsOnce creditsOf requirements completed) ∧
    ∀ (bs : Text.Bytes) (limit : Nat) (h : Holdings), Holdings.ofBytes bs limit = .ok h →
      ∀ key, ListedWith h.records.creditsOf (h.records.requirementsOf key) :=
  ⟨fun _ _ completed hlisted => hlisted.countsOnce completed,
    fun _ _ _ himport key => Holdings.listedWith_of_ofBytes himport key⟩

/-- Two requirements of a catalog share one of their courses.  Who has completed it has its credits
toward each of them, and once toward the major: less than the two together. -/
theorem shared_courses_count_once_of_imported :
    let key : MajorKey := ⟨"CS", "BS"⟩
    ∃ h : Holdings, ∃ core electives : Requirement,
      h.records.requirementsOf key = [core, electives] ∧
      CountsOnce h.records.creditsOf [core, electives] [1, 9] ∧
      creditsToward [core, electives] [1, 9] = 3 ∧
      (core.audit [1, 9]).creditsCompleted = 3 ∧ (electives.audit [1, 9]).creditsCompleted = 3 := by
  intro key
  let catalog := Text.bytes
    ("\x7b\"courses\":[\x7b\"id\":1,\"subject\":\"CS\",\"number\":\"1\",\"credits\":3\x7d,"
      ++ "\x7b\"id\":2,\"subject\":\"CS\",\"number\":\"2\",\"credits\":4\x7d],"
      ++ "\"majors\":[\x7b\"code\":\"CS\",\"designation\":\"BS\",\"name\":\"Computing\","
      ++ "\"totalCreditsRequired\":7,\"requirements\":["
      ++ "\x7b\"id\":6,\"name\":\"Core\",\"courses\":[1,2]\x7d,"
      ++ "\x7b\"id\":7,\"name\":\"Electives\",\"minCredits\":3,\"courses\":[1]\x7d]\x7d]\x7d")
  let shared : Course := ⟨1, "CS", "1", "", 3⟩
  let other : Course := ⟨2, "CS", "2", "", 4⟩
  let core : Requirement := ⟨6, key, "Core", none, none, [shared, other]⟩
  let electives : Requirement := ⟨7, key, "Electives", none, some 3, [shared]⟩
  let h : Holdings :=
    ⟨⟨[shared, other], [⟨key, "Computing", 7⟩], [core, electives], [], []⟩, .empty⟩
  -- The sums are closed, but the condition on them comes from the import.
  have himport : Holdings.ofBytes catalog 8 = .ok h := by decide +kernel
  have hlisted := shared_courses_count_once.2 catalog 8 h himport key
  have hcounts := shared_courses_count_once.1 _ _ [1, 9] hlisted
  exact ⟨h, core, electives, rfl, hcounts, by decide +kernel, by decide +kernel, by decide +kernel⟩

end Registrar
