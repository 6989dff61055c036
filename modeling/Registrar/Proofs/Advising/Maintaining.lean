import Registrar.Proofs.Advising.Eligibility
import Registrar.Proofs.Prerequisite.FirstFault
import Registrar.Proofs.Prerequisite.Spec

/-!
# Setting prerequisites

Prerequisites that are sent for a course pass three checks before anything is written: they make a
tree, the course is on record, and so is every course that they name.  `Refused` says what is
reported where one of them fails, `Accepted` that all of them pass, and both look at nothing but
the records.  A desk answers accordingly (`setPrerequisites_eq_error_iff`,
`setPrerequisites_eq_ok_iff_accepted`).

Where the checks pass, the tree takes the place of whatever the course had, and where one of them
fails nothing is written.  About a course answers depend on its own tree only
(`sameEligibility_of_tree?_eq`), so no trace of an older one is left
(`setting_is_checked_and_replaces`).

The short form of one operator over a list of courses passes the same checks as the same group
written out (`short_form_is_written_out`).
-/

namespace Registrar

open Prerequisite (Operator Rule Spec FlatSpec Tree)

/-! ### The courses that a spec names -/

namespace Prerequisite

namespace Spec

mutual

/-- The courses that a spec names, each node before its items and the items from left to right, as
often as it names them. -/
def leaves : Spec → List CourseId
  | .mk courseId _ items => courseId.toList ++ match items with
    | some specs => leavesAll specs
    | none => []

/-- The courses that some specs name. -/
def leavesAll : List Spec → List CourseId
  | [] => []
  | s :: ss => leaves s ++ leavesAll ss

end

mutual

theorem leaves_canonical (s : Spec) : s.canonical.leaves = s.leaves := by
  match s with
  | .mk _ _ none => rfl
  | .mk _ _ (some specs) => simp only [canonical, leaves, leavesAll_canonicalAll specs]

theorem leavesAll_canonicalAll (specs : List Spec) :
    leavesAll (canonicalAll specs) = leavesAll specs := by
  match specs with
  | [] => rfl
  | s :: ss => simp only [canonicalAll, leavesAll, leaves_canonical s, leavesAll_canonicalAll ss]

end

mutual

theorem leaves_toSpec (r : Rule) : r.toSpec.leaves = r.leaves := by
  match r with
  | .course _ => rfl
  | .group op items =>
    simp only [Rule.toSpec, ofGroup, leaves, Rule.leaves, leavesAll_rulesToSpecs items,
      Option.toList_none, List.nil_append]

theorem leavesAll_rulesToSpecs (rules : List Rule) :
    leavesAll (rulesToSpecs rules) = Rule.leavesAll rules := by
  match rules with
  | [] => rfl
  | r :: rs =>
    simp only [rulesToSpecs, leavesAll, Rule.leavesAll, leaves_toSpec r, leavesAll_rulesToSpecs rs]

end

end Spec

namespace Tree

/-- A tree names the courses of the spec that it has been admitted from, in the same order. -/
theorem leaves_of_ofSpec {spec : Spec} {limit : Nat} {t : Tree} (h : ofSpec spec limit = .ok t) :
    t.root.leaves = spec.leaves := by
  have hspec : t.root.toSpec = spec.canonical := toSpec_of_ofSpec h
  rw [← Spec.leaves_toSpec, hspec, Spec.leaves_canonical]

/-- Looking through the courses of a tree finds what looking through the spec finds. -/
theorem find?_courses_of_ofSpec {spec : Spec} {limit : Nat} {t : Tree}
    (h : ofSpec spec limit = .ok t) (p : CourseId → Bool) :
    t.courses.find? p = spec.leaves.find? p := by
  rw [courses, Rule.courses_eq_distinct_leaves, find?_distinct, leaves_of_ofSpec h]

end Tree

/-! ### The short form -/

theorem rulesToSpecs_courses (ids : List CourseId) :
    rulesToSpecs (ids.map .course) = ids.map Spec.ofCourse := by
  induction ids with
  | nil => rfl
  | cons id rest ih => rw [List.map_cons, rulesToSpecs, ih, List.map_cons, Rule.toSpec]

/-- The short form in full: one group of courses. -/
def FlatSpec.writtenOut (spec : FlatSpec) : Spec :=
  .ofGroup spec.operator (spec.courseIds.map .ofCourse)

theorem one_le_effectiveLimit (limit : Nat) : 1 ≤ effectiveLimit limit :=
  Nat.le_max_left _ _

namespace Tree

/-- Of the operator of a group nothing counts but what it means. -/
theorem ofSpec_ofGroup_of_readOperator {operator : String} {op : Operator}
    (h : readOperator operator = .ok op) (items : List Spec) (limit : Nat) :
    ofSpec (.ofGroup operator items) limit = ofSpec (.ofGroup op.label items) limit := by
  simp only [ofSpec, Spec.ofGroup, ruleOfSpec, h, readOperator_label]

/-- What the short form admits is what it admits when it is written out: an operator without a
meaning is reported before the depth in both, and the depth is the same. -/
theorem ofSpec_writtenOut (spec : FlatSpec) (limit : Nat) :
    ofSpec spec.writtenOut limit = ofFlatSpec spec limit := by
  have hlevel : ¬ 1 > effectiveLimit limit := Nat.not_lt.mpr (one_le_effectiveLimit limit)
  -- Both forms read the operator first, so without one they fail in the same way.
  cases hop : readOperator spec.operator with
  | error e =>
    rw [ofFlatSpec, hop, FlatSpec.writtenOut, ofSpec, Spec.ofGroup, ruleOfSpec, if_neg hlevel]
    simp only [hop]
    rfl
  | ok op =>
    have hgroup : Spec.ofGroup op.label (spec.courseIds.map .ofCourse) =
        (Rule.group op (spec.courseIds.map .course)).toSpec := by
      rw [Rule.toSpec, rulesToSpecs_courses]
    rw [FlatSpec.writtenOut, ofSpec_ofGroup_of_readOperator hop, hgroup, ofSpec_toSpec, ofFlatSpec,
      hop]
    rfl

theorem height_flat (op : Operator) (ids : List CourseId) :
    (Rule.group op (ids.map .course)).height = if ids = [] then 1 else 2 := by
  have hitems : Rule.heights (ids.map .course) = if ids = [] then 0 else 1 := by
    induction ids with
    | nil => rfl
    | cons id rest ih =>
      rw [List.map_cons, Rule.heights, ih, Rule.height, if_neg (List.cons_ne_nil id rest)]
      split_ifs <;> rfl
  rw [Rule.height, hitems]
  split_ifs <;> rfl

/-- The short form is admitted if its operator has a meaning and two levels are allowed, or one is
enough as it names no course. -/
theorem exists_ofFlatSpec_iff {spec : FlatSpec} {limit : Nat} :
    (∃ t, ofFlatSpec spec limit = .ok t) ↔
      Operator.IsSpelled spec.operator ∧ (spec.courseIds = [] ∨ 2 ≤ effectiveLimit limit) := by
  rw [← Operator.isSome_read?_iff, ofFlatSpec, readOperator]
  cases Operator.read? spec.operator with
  | none =>
    refine iff_of_false ?_ (by simp)
    rintro ⟨t, ht⟩
    exact absurd ht (by simp [bind, Except.bind])
  | some op =>
    have hone := one_le_effectiveLimit limit
    have hheight := height_flat op spec.courseIds
    have hdepth := (Rule.group op (spec.courseIds.map .course)).depth_eq_height
    show (∃ t, ofRule (.group op (spec.courseIds.map .course)) limit = .ok t) ↔ _
    simp only [Option.isSome_some, true_and]
    -- A group without courses is one level high, and any other flat one is two.
    by_cases hfits : spec.courseIds = [] ∨ 2 ≤ effectiveLimit limit
    · refine iff_of_true ⟨_, ofRule_of_le ?_⟩ hfits
      rw [hdepth, hheight]
      split_ifs with hnil
      · exact hone
      · exact hfits.resolve_left hnil
    · obtain ⟨hnil, hdeep⟩ := not_or.mp hfits
      refine iff_of_false ?_ hfits
      rintro ⟨t, ht⟩
      rw [ofRule_of_lt (by rw [hdepth, hheight, if_neg hnil]; omega)] at ht
      exact absurd ht (by simp)

end Tree

end Prerequisite

namespace Desk

variable {h h' : Holdings} {limit : Nat} {course : CourseId} {spec : Spec} {t : Tree}

/-! ### Checks -/

/-- Why prerequisites are refused that are sent for a course: the checks in their order. -/
inductive Refused (r : Records) (limit : Nat) (course : CourseId) (spec : Spec) :
    AdvisingError → Prop
  | invalid {cause : Prerequisite.Error} (hspec : Tree.ofSpec spec limit = .error cause) :
    Refused r limit course spec (.invalid cause)
  | unknownCourse {t : Tree} (hspec : Tree.ofSpec spec limit = .ok t)
    (hcourse : course ∉ r.courseIds) : Refused r limit course spec (.unknown (.course course))
  /-- The first course that is named and not on record. -/
  | unknownLeaf {t : Tree} (hspec : Tree.ofSpec spec limit = .ok t)
    (hcourse : course ∈ r.courseIds) {before after : List CourseId} {leaf : CourseId}
    (hleaves : spec.leaves = before ++ leaf :: after) (hbefore : ∀ id ∈ before, id ∈ r.courseIds)
    (hleaf : leaf ∉ r.courseIds) : Refused r limit course spec (.unknown (.course leaf))

/-- Prerequisites that are sent for a course make a tree, and all courses are on record. -/
structure Accepted (r : Records) (limit : Nat) (course : CourseId) (spec : Spec) (t : Tree) :
    Prop where
  admitted : Tree.ofSpec spec limit = .ok t
  course_known : course ∈ r.courseIds
  leaves_known : ∀ leaf ∈ spec.leaves, leaf ∈ r.courseIds

/-- The checks in their order, in one equation. -/
theorem setPrerequisites_eq (h : Holdings) (limit : Nat) (course : CourseId) (spec : Spec) :
    (ofHoldings h limit).setPrerequisites course spec =
      match Tree.ofSpec spec limit with
      | .error cause => .error (.invalid cause)
      | .ok t =>
        if course ∈ h.records.courseIds then
          match spec.leaves.find? fun id => (h.records.course? id).isNone with
          | some leaf => .error (.unknown (.course leaf))
          | none => .ok (t, ofHoldings
              { h with prerequisites := (h.prerequisites.replace course t).2 } limit)
        else .error (.unknown (.course course)) := by
  have hlimit : (ofHoldings h limit).limit = limit := rfl
  rw [setPrerequisites, hlimit]
  cases hspec : Tree.ofSpec spec limit with
  | error cause => rfl
  | ok t =>
    show (ofHoldings h limit).install course t = _
    by_cases hcourse : course ∈ h.records.courseIds
    · rw [install_eq limit t hcourse, Tree.find?_courses_of_ofSpec hspec]
      exact (if_pos hcourse).symm
    · have hnone : (h.records.course? course).isNone = true :=
        Records.isNone_course?_iff.mpr hcourse
      rw [install, requireCourse_of_isNone hnone]
      exact (if_neg hcourse).symm

/-- The first course that is named and not on record, if there is one. -/
theorem find?_leaves_eq_some_iff {r : Records} {leaf : CourseId} :
    (spec.leaves.find? fun id => (r.course? id).isNone) = some leaf ↔
      leaf ∉ r.courseIds ∧ ∃ before after, spec.leaves = before ++ leaf :: after ∧
        ∀ id ∈ before, id ∈ r.courseIds := by
  have hknown : ∀ id, (!(r.course? id).isNone) = true ↔ id ∈ r.courseIds := by
    intro id
    rw [Bool.not_eq_true', Bool.eq_false_iff, Ne, Records.isNone_course?_iff, not_not]
  rw [List.find?_eq_some_iff_append, Records.isNone_course?_iff]
  simp only [hknown]

theorem find?_leaves_eq_none_iff {r : Records} :
    (spec.leaves.find? fun id => (r.course? id).isNone) = none ↔
      ∀ leaf ∈ spec.leaves, leaf ∈ r.courseIds := by
  simp only [List.find?_eq_none, Records.isNone_course?_iff, not_not]

/-- Prerequisites are refused for the first check that fails, and for nothing else. -/
theorem setPrerequisites_eq_error_iff {e : AdvisingError} :
    (ofHoldings h limit).setPrerequisites course spec = .error e ↔
      Refused h.records limit course spec e := by
  rw [setPrerequisites_eq]
  constructor
  · intro herror
    -- The checks are taken apart in their order: the spec, the course, its leaves.
    cases hspec : Tree.ofSpec spec limit with
    | error cause =>
      rw [hspec] at herror
      obtain rfl := Except.error.inj herror
      exact .invalid hspec
    | ok t =>
      simp only [hspec] at herror
      split_ifs at herror with hcourse
      · cases hleaf : spec.leaves.find? fun id => (h.records.course? id).isNone with
        | none => simp [hleaf] at herror
        | some leaf =>
          simp only [hleaf] at herror
          obtain rfl := Except.error.inj herror
          obtain ⟨hunknown, before, after, hleaves, hbefore⟩ := find?_leaves_eq_some_iff.mp hleaf
          exact .unknownLeaf hspec hcourse hleaves hbefore hunknown
      · obtain rfl := Except.error.inj herror
        exact .unknownCourse hspec hcourse
  · intro hrefused
    -- Each refusal says that the checks before it pass.
    cases hrefused with
    | invalid hspec => rw [hspec]
    | unknownCourse hspec hcourse => simp only [hspec, if_neg hcourse]
    | unknownLeaf hspec hcourse hleaves hbefore hunknown =>
      have hleaf := find?_leaves_eq_some_iff.mpr ⟨hunknown, _, _, hleaves, hbefore⟩
      simp only [hspec, if_pos hcourse, hleaf]

/-- Prerequisites that pass the checks take the place of those that the course had. -/
theorem setPrerequisites_eq_ok_iff_accepted {answer : Tree × Desk} :
    (ofHoldings h limit).setPrerequisites course spec = .ok answer ↔
      ∃ t, Accepted h.records limit course spec t ∧ answer = (t, ofHoldings
        { h with prerequisites := (h.prerequisites.replace course t).2 } limit) := by
  rw [setPrerequisites_eq]
  constructor
  · intro hok
    -- No check may fail, so only one branch is left at each of them.
    cases hspec : Tree.ofSpec spec limit with
    | error cause => simp [hspec] at hok
    | ok t =>
      simp only [hspec] at hok
      split_ifs at hok with hcourse
      cases hleaf : spec.leaves.find? fun id => (h.records.course? id).isNone with
      | some leaf => simp [hleaf] at hok
      | none =>
        simp only [hleaf] at hok
        obtain rfl := Except.ok.inj hok
        exact ⟨t, ⟨hspec, hcourse, find?_leaves_eq_none_iff.mp hleaf⟩, rfl⟩
  · rintro ⟨t, haccepted, rfl⟩
    simp only [haccepted.admitted, if_pos haccepted.course_known,
      find?_leaves_eq_none_iff.mpr haccepted.leaves_known]

/-! ### What setting leaves behind -/

theorem after_setPrerequisites_of_refused {e : AdvisingError}
    (herror : (ofHoldings h limit).setPrerequisites course spec = .error e) :
    h.after (.setPrerequisites limit course spec) = h := by
  rw [Holdings.after, herror]
  rfl

theorem after_setPrerequisites_of_accepted (haccepted : Accepted h.records limit course spec t) :
    h.after (.setPrerequisites limit course spec) =
      { h with prerequisites := (h.prerequisites.replace course t).2 } := by
  rw [Holdings.after, setPrerequisites_eq_ok_iff_accepted.mpr ⟨t, haccepted, rfl⟩]
  rfl

/-! ### Answers about one course -/

/-- Another desk gives the same answers about who may take the course. -/
structure SameEligibility (course : CourseId) (d d' : Desk) : Prop where
  isEligible : ∀ student, d'.isEligible student course = d.isEligible student course
  missingPrerequisites : ∀ student,
    d'.missingPrerequisites student course = d.missingPrerequisites student course
  eligibility : ∀ student, d'.eligibility student course = d.eligibility student course
  /-- The course is in the list of courses that the student could take, or is not. -/
  eligibleCourses : ∀ student,
    (d'.eligibleCourses student).map (List.filter fun c => c.id == course) =
      (d.eligibleCourses student).map (List.filter fun c => c.id == course)

/-- Of the store of prerequisites the answers about a course need nothing but the tree of that
course. -/
theorem sameEligibility_of_tree?_eq (hrecords : h'.records = h.records)
    (htree : h'.prerequisites.tree? course = h.prerequisites.tree? course) (limit limit' : Nat) :
    SameEligibility course (ofHoldings h limit) (ofHoldings h' limit') where
  isEligible student := by
    simp only [isEligible, requireStudent, requireCourse, findCourse, completedCourses, tree?,
      access_ofHoldings, holdings_ofHoldings, hrecords, htree]
  missingPrerequisites student := by
    simp only [missingPrerequisites, requireStudent, requireCourse, findCourse, completedCourses,
      tree?, findCourses_eq, access_ofHoldings, holdings_ofHoldings, hrecords, htree]
  eligibility student := by
    simp only [eligibility, requireStudent, requireCourse, findCourse, completedCourses, tree?,
      findCourses_eq, access_ofHoldings, holdings_ofHoldings, hrecords, htree]
  eligibleCourses student := by
    -- Of all courses only the given one is asked about, and its tree is the same.
    have hsame : ∀ c : Course, (c.id == course && couldTake h' student c) =
        (c.id == course && couldTake h student c) := by
      intro c
      by_cases hid : c.id = course
      · rw [couldTake, couldTake, hrecords, hid, htree]
      · rw [beq_false_of_ne hid, Bool.false_and, Bool.false_and]
    by_cases hstudent : student ∈ h.records.studentIds
    · rw [eligibleCourses_eq hstudent, eligibleCourses_eq (hrecords ▸ hstudent), hrecords]
      simp only [Except.map, List.filter_filter, hsame]
    · rw [Desk.eligibleCourses, Desk.eligibleCourses, requireStudent_of_not_mem hstudent,
        requireStudent_of_not_mem (hrecords ▸ hstudent)]
      rfl

/-- **Prerequisites are checked as a whole and then replaced.**  What is sent for a course is
refused for the first check that fails, and then nothing changes: for what is wrong with it, even
if the course is unknown; for the course; for the first course that it names and nobody knows.
Otherwise its tree is answered and stored, the other courses keep theirs, and the records stay as
they are.  Whether the course had a tree before, and which, shows in no answer about it. -/
theorem setting_is_checked_and_replaces (h : Holdings) (limit : Nat) (course : CourseId)
    (spec : Spec) :
    let desk := ofHoldings h limit
    let w := Holdings.Write.setPrerequisites limit course spec
    (∀ e, desk.setPrerequisites course spec = .error e ↔
      Refused h.records limit course spec e) ∧
    (∀ e, desk.setPrerequisites course spec = .error e → h.after w = h) ∧
    (∀ t, (∃ desk', desk.setPrerequisites course spec = .ok (t, desk')) ↔
      Accepted h.records limit course spec t) ∧
    ∀ t desk', desk.setPrerequisites course spec = .ok (t, desk') →
      desk' = ofHoldings (h.after w) limit ∧
      (h.after w).records = h.records ∧
      (h.after w).prerequisites.tree? course = some t ∧
      (∀ other, other ≠ course →
        (h.after w).prerequisites.tree? other = h.prerequisites.tree? other) ∧
      ∀ h₀ : Holdings, h₀.records = h.records →
        SameEligibility course (ofHoldings (h₀.after w) limit) (ofHoldings (h.after w) limit) := by
  intro desk w
  refine ⟨fun e => setPrerequisites_eq_error_iff,
    fun e => after_setPrerequisites_of_refused, fun t => ?_, fun t desk' hok => ?_⟩
  · constructor
    · rintro ⟨desk', hok⟩
      obtain ⟨t', haccepted, heq⟩ := setPrerequisites_eq_ok_iff_accepted.mp hok
      obtain rfl : t = t' := congrArg Prod.fst heq
      exact haccepted
    · intro haccepted
      exact ⟨_, setPrerequisites_eq_ok_iff_accepted.mpr ⟨t, haccepted, rfl⟩⟩
  · obtain ⟨t', haccepted, heq⟩ := setPrerequisites_eq_ok_iff_accepted.mp hok
    obtain ⟨rfl, rfl⟩ := Prod.mk.inj heq
    have hafter := after_setPrerequisites_of_accepted haccepted
    refine ⟨by rw [hafter], by rw [hafter], ?_, fun other hother => ?_, fun h₀ hrecords => ?_⟩
    · rw [hafter, Prerequisite.Store.tree?_replace, if_pos rfl]
    · rw [hafter, Prerequisite.Store.tree?_replace, if_neg hother]
    · -- The checks look at the records, so they pass there as well.
      have haccepted₀ : Accepted h₀.records limit course spec t := by rwa [hrecords]
      have hafter₀ := after_setPrerequisites_of_accepted haccepted₀
      have hsame : (h.after w).records = (h₀.after w).records := by rw [hafter, hafter₀, hrecords]
      have htree : (h.after w).prerequisites.tree? course =
          (h₀.after w).prerequisites.tree? course := by
        rw [hafter, hafter₀, Prerequisite.Store.tree?_replace, Prerequisite.Store.tree?_replace,
          if_pos rfl, if_pos rfl]
      exact sameEligibility_of_tree?_eq hsame htree limit limit

/-! ### The short form -/

/-- **The short form says nothing that cannot be written out.**  At every desk, whatever is out of
reach, prerequisites in the short form have the outcome of the same group written out: the same
tree and the same holdings, or the same error and none.  Where only one level is allowed, both are
admitted for empty lists only. -/
theorem short_form_is_written_out (desk : Desk) (course : CourseId) (operator : String)
    (ids : List CourseId) :
    let written := Spec.ofGroup operator (ids.map .ofCourse)
    desk.setFlatPrerequisites course ⟨operator, ids⟩ = desk.setPrerequisites course written ∧
    (∀ (h : Holdings) (limit : Nat),
      h.after (.setFlatPrerequisites limit course ⟨operator, ids⟩) =
        h.after (.setPrerequisites limit course written)) ∧
    (max 1 (min desk.limit 64) = 1 →
      ((∃ t, Tree.ofFlatSpec ⟨operator, ids⟩ desk.limit = .ok t) ↔
        Operator.IsSpelled operator ∧ ids = []) ∧
      ((∃ t, Tree.ofSpec written desk.limit = .ok t) ↔
        Operator.IsSpelled operator ∧ ids = [])) := by
  intro written
  -- Everything goes back to the trees, which are the same at every limit.
  have htree (limit : Nat) :
      Tree.ofFlatSpec ⟨operator, ids⟩ limit = Tree.ofSpec written limit :=
    (Tree.ofSpec_writtenOut ⟨operator, ids⟩ limit).symm
  have hset (d : Desk) : d.setFlatPrerequisites course ⟨operator, ids⟩ =
      d.setPrerequisites course written := by
    rw [setFlatPrerequisites, setPrerequisites, htree]
  refine ⟨hset desk, fun h limit => ?_, fun hone => ?_⟩
  · rw [Holdings.after, Holdings.after, hset]
  · have hlimit : ¬ 2 ≤ Prerequisite.effectiveLimit desk.limit := by
      have heffective : Prerequisite.effectiveLimit desk.limit = 1 := hone
      omega
    have hflat : (∃ t, Tree.ofFlatSpec ⟨operator, ids⟩ desk.limit = .ok t) ↔
        Operator.IsSpelled operator ∧ ids = [] := by
      rw [Tree.exists_ofFlatSpec_iff, or_iff_left hlimit]
    exact ⟨hflat, by rw [← htree, hflat]⟩

end Desk

end Registrar
