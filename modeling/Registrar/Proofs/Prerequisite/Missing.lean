import Registrar.Prerequisite.Tree
import Registrar.Proofs.Prerequisite.Rule

/-!
# What the list of missing courses means

`unmet` is the list of missing courses without a memory: the courses that a rule still asks for,
as often as it names them.  `missing_eq_distinct_unmet` says that the collector, which carries
along what it has found, clears just the repetitions of that list.

On `unmet` three facts go by induction on the rule:

* `unmet_eq_nil`: a rule that is met has nothing unmet.
* `satisfiedBy_append_unmet`: the unmet courses are enough where anything is.
* `exists_mem_unmet`: whatever comes to meet the rule takes one of them.

`missing_courses_suffice_and_are_needed` puts them together for admitted trees.  The first and
the last use that rules are monotone (`satisfiedBy_mono`): there is no negation.
-/

namespace Registrar.Prerequisite

namespace Rule

variable {completed more : List CourseId}

/-! ### Fulfilment -/

@[simp] theorem satisfiedBy_course {id : CourseId} :
    (course id).satisfiedBy completed = true ↔ id ∈ completed := by
  simp [satisfiedBy]

theorem allSatisfiedBy_iff {items : List Rule} :
    allSatisfiedBy completed items = true ↔ ∀ r ∈ items, r.satisfiedBy completed = true := by
  induction items with
  | nil => simp [allSatisfiedBy]
  | cons r rs ih => simp [allSatisfiedBy, ih]

theorem anySatisfiedBy_iff {items : List Rule} :
    anySatisfiedBy completed items = true ↔ ∃ r ∈ items, r.satisfiedBy completed = true := by
  induction items with
  | nil => simp [anySatisfiedBy]
  | cons r rs ih => simp [anySatisfiedBy, ih]

@[simp] theorem satisfiedBy_and {items : List Rule} :
    (group .and items).satisfiedBy completed = true ↔
      ∀ r ∈ items, r.satisfiedBy completed = true := by
  rw [satisfiedBy, allSatisfiedBy_iff]

@[simp] theorem satisfiedBy_or {items : List Rule} :
    (group .or items).satisfiedBy completed = true ↔
      ∃ r ∈ items, r.satisfiedBy completed = true := by
  rw [satisfiedBy, anySatisfiedBy_iff]

/-- A rule stays met where those of the completed courses that it names are kept. -/
theorem satisfiedBy_of_leaves {r : Rule} (h : ∀ id ∈ r.leaves, id ∈ completed → id ∈ more)
    (hr : r.satisfiedBy completed = true) : r.satisfiedBy more = true := by
  induction r with
  | course id =>
    rw [satisfiedBy_course] at hr ⊢
    exact h id (List.mem_singleton_self id) hr
  | group op items ih =>
    have hitem : ∀ r ∈ items, r.satisfiedBy completed = true → r.satisfiedBy more = true := by
      intro r hmem
      exact ih r hmem fun id hid => h id (mem_leavesAll.mpr ⟨r, hmem, hid⟩)
    cases op with
    | and =>
      rw [satisfiedBy_and] at hr ⊢
      exact fun r hmem => hitem r hmem (hr r hmem)
    | or =>
      rw [satisfiedBy_or] at hr ⊢
      obtain ⟨r, hmem, hr⟩ := hr
      exact ⟨r, hmem, hitem r hmem hr⟩

/-- Further courses never undo a rule. -/
theorem satisfiedBy_mono (h : completed ⊆ more) {r : Rule}
    (hr : r.satisfiedBy completed = true) : r.satisfiedBy more = true :=
  satisfiedBy_of_leaves (fun _ _ hid => h hid) hr

theorem satisfiedBy_append_mono {extra extra' : List CourseId} (h : extra ⊆ extra') {r : Rule}
    (hr : r.satisfiedBy (completed ++ extra) = true) :
    r.satisfiedBy (completed ++ extra') = true :=
  satisfiedBy_mono (List.append_subset.mpr ⟨List.subset_append_left _ _,
    fun _ hid => List.mem_append_right _ (h hid)⟩) hr

/-! ### Unmet courses -/

mutual

/-- The courses that a rule still asks for, as often as it names them: those of every item of a
group that asks for all, and those of every item of one that asks for any and has none. -/
def unmet (completed : List CourseId) : Rule → List CourseId
  | .course id => if completed.contains id then [] else [id]
  | .group .and items => unmetAll completed items
  | .group .or items => if anySatisfiedBy completed items then [] else unmetAll completed items

/-- The courses that some rules still ask for. -/
def unmetAll (completed : List CourseId) : List Rule → List CourseId
  | [] => []
  | r :: rs => unmet completed r ++ unmetAll completed rs

end

theorem mem_unmetAll {items : List Rule} {id : CourseId} :
    id ∈ unmetAll completed items ↔ ∃ r ∈ items, id ∈ r.unmet completed := by
  induction items with
  | nil => simp [unmetAll]
  | cons r rs ih => simp [unmetAll, ih]

theorem unmet_subset_unmetAll {items : List Rule} {r : Rule} (h : r ∈ items) :
    r.unmet completed ⊆ unmetAll completed items :=
  fun _ hid => mem_unmetAll.mpr ⟨r, h, hid⟩

/-- A group asks for no more than its items do. -/
theorem unmet_group (op : Operator) (items : List Rule)
    (h : (group op items).satisfiedBy completed = false) :
    (group op items).unmet completed = unmetAll completed items := by
  cases op with
  | and => rfl
  | or =>
    rw [satisfiedBy] at h
    simp [unmet, h]

mutual

/-- The collector notes the unmet courses of a rule one after another. -/
theorem missingAfter_eq (completed found : List CourseId) (r : Rule) :
    missingAfter completed found r = (r.unmet completed).foldl note found := by
  match r with
  | .course id =>
    by_cases h : id ∈ completed <;> simp [missingAfter, unmet, note, h]
  | .group .and items => exact missingAfterAll_eq completed found items
  | .group .or items =>
    simp only [missingAfter, unmet]
    split_ifs
    · rfl
    · exact missingAfterAll_eq completed found items

theorem missingAfterAll_eq (completed found : List CourseId) (items : List Rule) :
    missingAfterAll completed found items = (unmetAll completed items).foldl note found := by
  match items with
  | [] => rfl
  | r :: rs =>
    rw [missingAfterAll, missingAfter_eq, missingAfterAll_eq, unmetAll, List.foldl_append]

end

/-- The missing courses are the unmet ones, each where it comes first. -/
theorem missing_eq_distinct_unmet (completed : List CourseId) (r : Rule) :
    r.missing completed = distinct (r.unmet completed) := by
  rw [missing, missingAfter_eq, reverse_foldl_note]
  rfl

@[simp] theorem mem_missing {r : Rule} {id : CourseId} :
    id ∈ r.missing completed ↔ id ∈ r.unmet completed := by
  rw [missing_eq_distinct_unmet, mem_distinct]

/-! ### What is unmet is what is to be done -/

/-- A rule that is met has nothing unmet. -/
theorem unmet_eq_nil {r : Rule} (h : r.satisfiedBy completed = true) :
    r.unmet completed = [] := by
  induction r with
  | course id =>
    rw [satisfiedBy_course] at h
    simp [unmet, h]
  | group op items ih =>
    cases op with
    | and =>
      rw [satisfiedBy_and] at h
      -- What the group asks for one of its items does, and all of these are fulfilled.
      refine List.eq_nil_iff_forall_not_mem.mpr fun id hid => ?_
      obtain ⟨r, hmem, hid⟩ := mem_unmetAll.mp hid
      rw [ih r hmem (h r hmem)] at hid
      exact List.not_mem_nil hid
    | or =>
      rw [satisfiedBy] at h
      simp [unmet, h]

/-- What a rule still asks for it names, and it is not completed. -/
theorem of_mem_unmet {r : Rule} {id : CourseId} (h : id ∈ r.unmet completed) :
    id ∈ r.leaves ∧ id ∉ completed := by
  induction r with
  | course other =>
    rw [unmet] at h
    split_ifs at h with hother
    · exact absurd h List.not_mem_nil
    · obtain rfl := List.mem_singleton.mp h
      exact ⟨List.mem_singleton_self id, by simpa using hother⟩
  | group op items ih =>
    -- A fulfilled group asks for nothing, and another for what its items ask for.
    cases hnow : (group op items).satisfiedBy completed with
    | true =>
      rw [unmet_eq_nil hnow] at h
      exact absurd h List.not_mem_nil
    | false =>
      rw [unmet_group op items hnow] at h
      obtain ⟨r, hmem, hid⟩ := mem_unmetAll.mp h
      exact ⟨mem_leavesAll.mpr ⟨r, hmem, (ih r hmem hid).1⟩, (ih r hmem hid).2⟩

/-- With its unmet courses a rule is met, if there is anything that meets it. -/
theorem satisfiedBy_append_unmet (completed : List CourseId) {others : List CourseId} {r : Rule}
    (h : r.satisfiedBy others = true) :
    r.satisfiedBy (completed ++ r.unmet completed) = true := by
  induction r with
  | course id =>
    by_cases hid : id ∈ completed <;> simp [unmet, hid]
  | group op items ih =>
    by_cases hnow : (group op items).satisfiedBy completed = true
    · exact satisfiedBy_mono (List.subset_append_left _ _) hnow
    -- Each item has its own unmet courses among those of the group.
    · rw [unmet_group op items (by simpa using hnow)]
      have hitem : ∀ r ∈ items, r.satisfiedBy others = true →
          r.satisfiedBy (completed ++ unmetAll completed items) = true := by
        intro r hmem hr
        exact satisfiedBy_append_mono (unmet_subset_unmetAll hmem) (ih r hmem hr)
      cases op with
      | and =>
        rw [satisfiedBy_and] at h ⊢
        exact fun r hmem => hitem r hmem (h r hmem)
      | or =>
        rw [satisfiedBy_or] at h ⊢
        obtain ⟨r, hmem, hr⟩ := h
        exact ⟨r, hmem, hitem r hmem hr⟩

/-- If further courses come to meet a rule, then one of them was unmet. -/
theorem exists_mem_unmet {r : Rule} (hnow : r.satisfiedBy completed = false)
    (hmore : r.satisfiedBy more = true) : ∃ id ∈ r.unmet completed, id ∈ more := by
  induction r with
  | course id =>
    rw [satisfiedBy_course] at hmore
    rw [satisfiedBy] at hnow
    exact ⟨id, by rw [unmet, hnow]; exact List.mem_singleton_self id, hmore⟩
  | group op items ih =>
    -- Some item is not met now and met with the further courses.
    have hitem : ∃ r ∈ items, r.satisfiedBy completed = false ∧ r.satisfiedBy more = true := by
      cases op with
      | and =>
        rw [satisfiedBy_and] at hmore
        rw [← Bool.not_eq_true, satisfiedBy_and] at hnow
        push Not at hnow
        obtain ⟨r, hmem, hr⟩ := hnow
        exact ⟨r, hmem, by simpa using hr, hmore r hmem⟩
      | or =>
        rw [satisfiedBy_or] at hmore
        rw [← Bool.not_eq_true, satisfiedBy_or] at hnow
        push Not at hnow
        obtain ⟨r, hmem, hr⟩ := hmore
        exact ⟨r, hmem, by simpa using hnow r hmem, hr⟩
    obtain ⟨r, hmem, hr, hr'⟩ := hitem
    obtain ⟨id, hid, hid'⟩ := ih r hmem hr hr'
    rw [unmet_group op items hnow]
    exact ⟨id, unmet_subset_unmetAll hmem hid, hid'⟩

end Rule

/-- **The missing courses are enough, and there is no way around them.**  Nothing is missing of a
tree that is fulfilled.  With the missing courses a tree is fulfilled exactly if any courses
fulfil it, so a tree that is not fulfilled and misses nothing is one that nothing fulfils.  And
whatever comes to fulfil a tree takes one of its missing courses. -/
theorem missing_courses_suffice_and_are_needed (t : Tree) (completed : List CourseId) :
    (satisfied completed (some t) = true → missing completed (some t) = []) ∧
    (satisfied (completed ++ missing completed (some t)) (some t) = true ↔
      ∃ others, satisfied others (some t) = true) ∧
    (satisfied completed (some t) = false → missing completed (some t) = [] →
      ∀ others, satisfied others (some t) = false) ∧
    (satisfied completed (some t) = false → ∀ later, satisfied later (some t) = true →
      ∃ id ∈ missing completed (some t), id ∈ later) := by
  -- With what is missing all that was asked for is there, if the rule can be fulfilled at all.
  have hsuffice : ∀ others, satisfied others (some t) = true →
      satisfied (completed ++ missing completed (some t)) (some t) = true := by
    intro others h
    exact Rule.satisfiedBy_append_mono (fun _ hid => Rule.mem_missing.mpr hid)
      (Rule.satisfiedBy_append_unmet completed h)
  refine ⟨fun h => ?_, ⟨fun h => ⟨_, h⟩, fun ⟨others, h⟩ => hsuffice others h⟩, ?_, ?_⟩
  · simp only [missing, Rule.missing_eq_distinct_unmet, distinct_eq_nil_iff]
    exact Rule.unmet_eq_nil h
  · -- If any courses fulfilled the rule, none besides the completed ones would be needed.
    intro hnow hnil others
    by_contra h
    have := hsuffice others (by simpa using h)
    rw [hnil, List.append_nil, hnow] at this
    exact Bool.false_ne_true this
  · intro hnow later hlater
    obtain ⟨id, hid, hmem⟩ := Rule.exists_mem_unmet hnow hlater
    exact ⟨id, Rule.mem_missing.mpr hid, hmem⟩

/-- A group of no alternatives misses nothing, and nothing fulfils it. -/
example : missing [1] (some ⟨.group .or [], 1⟩) = [] ∧
    satisfied [1] (some ⟨.group .or [], 1⟩) = false := by
  decide

end Registrar.Prerequisite
