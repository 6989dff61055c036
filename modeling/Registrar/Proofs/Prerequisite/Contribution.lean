import Registrar.Proofs.Prerequisite.Missing
import Mathlib.Data.List.Lex

/-!
# The order of the missing courses

A leaf contributes to the missing courses if its course is not completed and no group above it has
alternatives one of which is met (`Rule.Contributes`): below such a group nothing counts, even if
it is named first there.

The contributions are listed from left to right with the paths to them (`Rule.contributions`).
Their paths ascend, since of two leaves the one further to the left has the lesser index where the
paths to them part; and their courses are the unmet ones.  The missing courses are the unmet ones
without repetitions, so they are in the order of their first contributions
(`missing_follows_first_contributions`).
-/

namespace Registrar.Prerequisite

namespace Rule

/-! ### Leaves that contribute -/

/-- The items of a rule, none of a course. -/
def parts : Rule → List Rule
  | .course _ => []
  | .group _ items => items

/-- The rule that a path of indices leads to. -/
def at? (r : Rule) (path : List Nat) : Option Rule :=
  follow parts r path

/-- A course that is not completed stands at the path, and of the groups above it each that asks
for any of its items has none that is met. -/
structure Contributes (completed : List CourseId) (r : Rule) (path : List Nat) (id : CourseId) :
    Prop where
  leaf : r.at? path = some (.course id)
  not_completed : id ∉ completed
  unmet_above : ∀ above items, above <+: path → r.at? above = some (.group .or items) →
    ∀ item ∈ items, item.satisfiedBy completed = false

variable {completed : List CourseId} {op : Operator} {items : List Rule} {path : List Nat}
  {id other : CourseId}

theorem at?_cons_eq_some_iff {r part : Rule} {i : Nat} :
    r.at? (i :: path) = some part ↔
      ∃ item, r.parts[i]? = some item ∧ item.at? path = some part :=
  follow_cons_eq_some_iff

/-- No path leads further than to a course. -/
theorem at?_course {r : Rule} : (course id).at? path = some r ↔ path = [] ∧ r = course id := by
  cases path with
  | nil => exact ⟨fun h => ⟨rfl, (Option.some.inj h).symm⟩, fun h => h.2 ▸ rfl⟩
  | cons i path =>
    rw [at?_cons_eq_some_iff]
    simp [parts]

theorem contributes_course :
    (course other).Contributes completed path id ↔ path = [] ∧ id = other ∧ id ∉ completed := by
  constructor
  · rintro ⟨hleaf, hid, -⟩
    obtain ⟨rfl, h⟩ := at?_course.mp hleaf
    obtain rfl := Rule.course.inj h
    exact ⟨rfl, rfl, hid⟩
  · rintro ⟨rfl, rfl, hid⟩
    refine ⟨rfl, hid, fun above items _ habove => ?_⟩
    exact absurd (at?_course.mp habove).2 (by simp)

/-- What contributes to a group contributes to one of its items, and the group counts. -/
theorem contributes_group :
    (group op items).Contributes completed path id ↔
      (op = .or → ∀ item ∈ items, item.satisfiedBy completed = false) ∧
      ∃ i item rest, path = i :: rest ∧ items[i]? = some item ∧
        item.Contributes completed rest id := by
  constructor
  · -- The root is a group above the leaf as well, which gives the first half.
    rintro ⟨hleaf, hid, habove⟩
    refine ⟨?_, ?_⟩
    · rintro rfl
      exact habove [] items List.nil_prefix rfl
    · cases path with
      | nil => exact absurd (Option.some.inj hleaf) (by simp)
      | cons i rest =>
        obtain ⟨item, hitem, hleaf⟩ := at?_cons_eq_some_iff.mp hleaf
        refine ⟨i, item, rest, rfl, hitem, hleaf, hid, fun above others hprefix hgroup => ?_⟩
        exact habove (i :: above) others (List.cons_prefix_cons.mpr ⟨rfl, hprefix⟩)
          (at?_cons_eq_some_iff.mpr ⟨item, hitem, hgroup⟩)
  · rintro ⟨hroot, i, item, rest, rfl, hitem, hleaf, hid, habove⟩
    refine ⟨at?_cons_eq_some_iff.mpr ⟨item, hitem, hleaf⟩, hid, ?_⟩
    intro above others hprefix hgroup
    -- A group above the leaf is the root or stands above the leaf within the item.
    cases above with
    | nil =>
      obtain ⟨rfl, rfl⟩ := Rule.group.inj (Option.some.inj hgroup)
      exact hroot rfl
    | cons j above =>
      obtain ⟨rfl, htail⟩ := List.cons_prefix_cons.mp hprefix
      obtain ⟨known, hknown, hgroup⟩ := at?_cons_eq_some_iff.mp hgroup
      obtain rfl := Option.some.inj (hknown.symm.trans hitem)
      exact habove above others htail hgroup

/-! ### The list of contributions -/

mutual

/-- The unmet courses of a rule from left to right, with the paths to them. -/
def contributions (completed : List CourseId) : Rule → List (List Nat × CourseId)
  | .course id => if completed.contains id then [] else [([], id)]
  | .group .and items => contributionsFrom completed 0 items
  | .group .or items =>
    if anySatisfiedBy completed items then [] else contributionsFrom completed 0 items

/-- The unmet courses of some rules that are the items of a group from this index on. -/
def contributionsFrom (completed : List CourseId) (i : Nat) :
    List Rule → List (List Nat × CourseId)
  | [] => []
  | r :: rs =>
    (contributions completed r).map (fun found => (i :: found.1, found.2)) ++
      contributionsFrom completed (i + 1) rs

end

mutual

/-- Without their paths, the contributions are the unmet courses. -/
theorem map_snd_contributions (completed : List CourseId) (r : Rule) :
    (r.contributions completed).map Prod.snd = r.unmet completed := by
  match r with
  | .course id =>
    simp only [contributions, unmet]
    split_ifs <;> rfl
  | .group .and items => exact map_snd_contributionsFrom completed 0 items
  | .group .or items =>
    simp only [contributions, unmet]
    split_ifs
    · rfl
    · exact map_snd_contributionsFrom completed 0 items

theorem map_snd_contributionsFrom (completed : List CourseId) (i : Nat) (items : List Rule) :
    (contributionsFrom completed i items).map Prod.snd = unmetAll completed items := by
  match items with
  | [] => rfl
  | r :: rs =>
    have hfirst : ((r.contributions completed).map fun found => (i :: found.1, found.2)).map
        Prod.snd = (r.contributions completed).map Prod.snd := by
      rw [List.map_map]
      rfl
    rw [contributionsFrom, List.map_append, hfirst, map_snd_contributions completed r,
      map_snd_contributionsFrom completed (i + 1) rs, unmetAll]

end

/-- To a group its items contribute, unless it has alternatives one of which is met. -/
theorem contributions_group (completed : List CourseId) (op : Operator) (items : List Rule) :
    (group op items).contributions completed =
      if op = .or ∧ ∃ item ∈ items, item.satisfiedBy completed = true then []
      else contributionsFrom completed 0 items := by
  cases op with
  | and => rfl
  | or =>
    rw [contributions]
    refine if_congr ?_ rfl rfl
    rw [anySatisfiedBy_iff]
    exact (and_iff_right rfl).symm

theorem mem_contributionsFrom {k : Nat} :
    (path, id) ∈ contributionsFrom completed k items ↔
      ∃ i item rest, path = (k + i) :: rest ∧ items[i]? = some item ∧
        (rest, id) ∈ item.contributions completed := by
  induction items generalizing k with
  | nil => simp [contributionsFrom]
  | cons first others ih =>
    rw [contributionsFrom, List.mem_append, List.mem_map, ih]
    constructor
    · rintro (⟨⟨rest, found⟩, hfound, h⟩ | ⟨i, item, rest, rfl, hitem, hfound⟩)
      · obtain ⟨rfl, rfl⟩ := Prod.mk.inj h
        exact ⟨0, first, rest, rfl, rfl, hfound⟩
      · exact ⟨i + 1, item, rest, by rw [Nat.add_right_comm, Nat.add_assoc], hitem, hfound⟩
    · rintro ⟨i, item, rest, rfl, hitem, hfound⟩
      cases i with
      | zero =>
        obtain rfl := Option.some.inj hitem
        exact Or.inl ⟨(rest, id), hfound, rfl⟩
      | succ i =>
        exact Or.inr ⟨i, item, rest, by rw [Nat.add_right_comm, Nat.add_assoc], hitem, hfound⟩

/-- Just the leaves that contribute are listed. -/
theorem mem_contributions {r : Rule} :
    (path, id) ∈ r.contributions completed ↔ r.Contributes completed path id := by
  induction r generalizing path with
  | course other =>
    rw [contributes_course, contributions]
    split_ifs with hother
    · rw [List.contains_iff_mem] at hother
      refine iff_of_false List.not_mem_nil ?_
      rintro ⟨-, rfl, hid⟩
      exact hid hother
    · rw [List.contains_iff_mem] at hother
      rw [List.mem_singleton, Prod.mk.injEq]
      refine and_congr_right fun _ => ⟨?_, And.left⟩
      rintro rfl
      exact ⟨rfl, hother⟩
  | group op items ih =>
    -- Numbered from 0 the paths of the items are those through the group.
    have hitems : (path, id) ∈ contributionsFrom completed 0 items ↔
        ∃ i item rest, path = i :: rest ∧ items[i]? = some item ∧
          item.Contributes completed rest id := by
      rw [mem_contributionsFrom]
      constructor
      · rintro ⟨i, item, rest, rfl, hitem, hfound⟩
        rw [Nat.zero_add]
        exact ⟨i, item, rest, rfl, hitem, (ih item (List.mem_of_getElem? hitem)).mp hfound⟩
      · rintro ⟨i, item, rest, rfl, hitem, hfound⟩
        refine ⟨i, item, rest, by rw [Nat.zero_add], hitem, ?_⟩
        exact (ih item (List.mem_of_getElem? hitem)).mpr hfound
    rw [contributes_group, contributions_group]
    -- If any item of an or-group is fulfilled, the group asks for nothing.
    split_ifs with hmet
    · obtain ⟨hop, item, hmem, hitem⟩ := hmet
      refine iff_of_false List.not_mem_nil fun ⟨hunmet, _⟩ => ?_
      exact absurd hitem (by simp [hunmet hop item hmem])
    · rw [hitems]
      refine (and_iff_right fun hop item hmem => ?_).symm
      exact Bool.eq_false_iff.mpr fun hitem => hmet ⟨hop, item, hmem, hitem⟩

/-! ### Ascending paths -/

theorem pairwise_contributionsFrom {k : Nat}
    (h : ∀ item ∈ items, (item.contributions completed).Pairwise fun p q => p.1 < q.1) :
    (contributionsFrom completed k items).Pairwise fun p q => p.1 < q.1 := by
  induction items generalizing k with
  | nil => exact List.Pairwise.nil
  | cons first others ih =>
    have hfirst : ((first.contributions completed).map fun found =>
        (k :: found.1, found.2)).Pairwise fun p q => p.1 < q.1 := by
      refine List.pairwise_map.mpr ((h first List.mem_cons_self).imp fun hlt => ?_)
      exact List.cons_lt_cons_iff.mpr (Or.inr ⟨rfl, hlt⟩)
    have hothers : (contributionsFrom completed (k + 1) others).Pairwise fun p q => p.1 < q.1 :=
      ih fun item hmem => h item (List.mem_cons_of_mem _ hmem)
    rw [contributionsFrom]
    refine List.pairwise_append.mpr ⟨hfirst, hothers, ?_⟩
    -- The paths through the first item begin with a lesser index than all others.
    rintro _ hp ⟨path, id⟩ hq
    obtain ⟨found, -, rfl⟩ := List.mem_map.mp hp
    obtain ⟨i, item, rest, rfl, -⟩ := mem_contributionsFrom.mp hq
    exact List.cons_lt_cons_iff.mpr (Or.inl (by omega))

theorem pairwise_contributions (completed : List CourseId) (r : Rule) :
    (r.contributions completed).Pairwise fun p q => p.1 < q.1 := by
  induction r with
  | course id =>
    rw [contributions]
    split_ifs
    · exact List.Pairwise.nil
    · exact List.pairwise_singleton _ _
  | group op items ih =>
    rw [contributions_group]
    split_ifs
    · exact List.Pairwise.nil
    · exact pairwise_contributionsFrom ih

theorem mem_unmet_iff_exists_contributes {r : Rule} :
    id ∈ r.unmet completed ↔ ∃ path, r.Contributes completed path id := by
  rw [← map_snd_contributions, List.mem_map]
  constructor
  · rintro ⟨⟨path, found⟩, hfound, rfl⟩
    exact ⟨path, mem_contributions.mp hfound⟩
  · rintro ⟨path, hpath⟩
    exact ⟨(path, id), mem_contributions.mpr hpath, rfl⟩

end Rule

/-- **The missing courses are listed by their first contributions.**  They are the unmet courses of
the tree, each where it comes first.  So none is listed twice, and each is named by the tree and
not completed.  A course is listed exactly if a leaf contributes it, and of two courses that are
listed the first has a contribution in front of all those of the other. -/
theorem missing_follows_first_contributions (t : Tree) (completed : List CourseId) :
    let listed := missing completed (some t)
    listed = distinct (t.root.unmet completed) ∧
    listed.Nodup ∧
    (∀ id ∈ listed, id ∈ t.root.leaves ∧ id ∉ completed) ∧
    (∀ id, id ∈ listed ↔ ∃ path, t.root.Contributes completed path id) ∧
    listed.Pairwise fun id id' => ∃ path, t.root.Contributes completed path id ∧
      ∀ later, t.root.Contributes completed later id' → path < later := by
  intro listed
  have hlisted : listed = distinct (t.root.unmet completed) :=
    Rule.missing_eq_distinct_unmet completed t.root
  have hmem : ∀ id, id ∈ listed ↔ id ∈ t.root.unmet completed := fun id => Rule.mem_missing
  -- Contributions are listed by ascending path, so that first occurrences come in that order.
  have horder : (distinct (t.root.unmet completed)).Pairwise fun id id' =>
      ∃ p ∈ t.root.contributions completed, p.2 = id ∧
        ∀ q ∈ t.root.contributions completed, q.2 = id' → p.1 < q.1 := by
    rw [← Rule.map_snd_contributions]
    exact pairwise_distinct (Rule.pairwise_contributions completed t.root)
  refine ⟨hlisted, ?_, ?_, ?_, ?_⟩
  · rw [hlisted]
    exact nodup_distinct _
  · intro id hid
    exact Rule.of_mem_unmet ((hmem id).mp hid)
  · intro id
    rw [hmem, Rule.mem_unmet_iff_exists_contributes]
  · rw [hlisted]
    refine horder.imp fun {id id'} hpair => ?_
    obtain ⟨⟨path, found⟩, hpath, rfl, hbefore⟩ := hpair
    refine ⟨path, Rule.mem_contributions.mp hpath, fun later hlater => ?_⟩
    exact hbefore (later, id') (Rule.mem_contributions.mpr hlater) rfl

/-- A course within a group that is met does not count there, only where it is named again. -/
example : missing [2] (some ⟨.group .and [.group .or [.course 1, .course 2], .course 3, .course 1],
    3⟩) = [3, 1] := by
  decide

end Registrar.Prerequisite
