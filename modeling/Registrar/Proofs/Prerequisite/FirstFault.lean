import Registrar.Proofs.Prerequisite.Admission
import Mathlib.Data.List.Lex

/-!
# The first fault of a spec

A node of a spec is found by the indices of the items that lead to it (`Spec.at?`).  Of two paths
the lesser one comes first when the nodes are visited from the root on and from left to right,
because lists are ordered by their first difference and before everything that continues them.

By itself a node may stand too deep, be neither a course nor a group, or have an operator that
nobody knows; `Fault` says which of these is reported of it.  A spec is read node by node in the
order of paths, and what is reported is the fault of the first node that has one
(`refusal_names_first_fault`).
-/

namespace Registrar.Prerequisite

/-! ### Nodes -/

namespace Spec

/-- The items of a spec, none if it has no items. -/
def parts : Spec → List Spec
  | .mk _ _ items => items.getD []

/-- The node that a path of indices leads to. -/
def at? (s : Spec) (path : List Nat) : Option Spec :=
  follow parts s path

theorem at?_cons_eq_some_iff {s node : Spec} {i : Nat} {path : List Nat} :
    s.at? (i :: path) = some node ↔ ∃ part, s.parts[i]? = some part ∧ part.at? path = some node :=
  follow_cons_eq_some_iff

end Spec

/-- A path in words. -/
def pathText (path : List Nat) : String :=
  "root" ++ String.join (path.map fun i => ".items[" ++ toString i ++ "]")

theorem pathText_append_singleton (path : List Nat) (i : Nat) :
    pathText (path ++ [i]) = itemPath (pathText path) i := by
  have hlast : String.join [".items[" ++ toString i ++ "]"] = ".items[" ++ toString i ++ "]" := by
    simp [String.join]
  rw [pathText, List.map_append, String.join_append, List.map_singleton, hlast, itemPath, pathText,
    ← String.append_assoc, ← String.append_assoc, ← String.append_assoc]

/-! ### Nodes by themselves -/

/-- The text means an operator: in upper case and without the blanks around it, it is a label. -/
def Operator.IsSpelled (text : String) : Prop :=
  Text.asciiUpper (Text.trim text) = "AND" ∨ Text.asciiUpper (Text.trim text) = "OR"

theorem Operator.isSome_read?_iff {text : String} :
    (Operator.read? text).isSome = true ↔ Operator.IsSpelled text := by
  rw [Operator.read?, Operator.IsSpelled]
  unfold Operator.labelled
  split <;> simp_all

/-- The node has what a course has and nothing else, or what a group has. -/
inductive Spec.Shaped : Spec → Prop
  | course (id : CourseId) : Shaped (.mk (some id) none none)
  | group (operator : String) (items : List Spec) : Shaped (.mk none (some operator) (some items))

/-- The node is a course, or a group with an operator. -/
inductive Spec.Admissible : Spec → Prop
  | course (id : CourseId) : Admissible (.mk (some id) none none)
  | group {operator : String} (h : Operator.IsSpelled operator) (items : List Spec) :
    Admissible (.mk none (some operator) (some items))

/-- What is wrong with a node at a path, if there may be so many levels. -/
inductive Fault (limit : Nat) (path : List Nat) : Spec → Error → Prop
  | tooDeep {node : Spec} (h : limit < path.length + 1) : Fault limit path node (.tooDeep limit)
  | malformedNode {node : Spec} (hlevel : path.length + 1 ≤ limit) (h : ¬ node.Shaped) :
    Fault limit path node (.malformedNode (pathText path))
  | unknownOperator {operator : String} {items : List Spec} (hlevel : path.length + 1 ≤ limit)
    (h : ¬ Operator.IsSpelled operator) :
    Fault limit path (.mk none (some operator) (some items)) (.unknownOperator operator)

/-- Nothing is wrong with a node at a path. -/
def Faultless (limit : Nat) (path : List Nat) (node : Spec) : Prop :=
  path.length + 1 ≤ limit ∧ node.Admissible

variable {limit : Nat} {path base : List Nat} {node spec : Spec} {e e' : Error}

theorem Fault.not_faultless (h : Fault limit path node e) : ¬ Faultless limit path node := by
  rintro ⟨hlevel, hnode⟩
  cases h with
  | tooDeep h => omega
  | malformedNode _ h =>
    cases hnode with
    | course id => exact h (.course id)
    | group _ items => exact h (.group _ items)
  | unknownOperator _ h =>
    cases hnode with
    | group hspelled => exact h hspelled

/-- One thing at most is reported of a node. -/
theorem Fault.unique (h : Fault limit path node e) (h' : Fault limit path node e') : e = e' := by
  -- The level settles whether a node is too deep, and its shape which other fault it may have.
  cases h with
  | tooDeep hdeep =>
    cases h' with
    | tooDeep => rfl
    | malformedNode hlevel | unknownOperator hlevel => omega
  | malformedNode hlevel hshape =>
    cases h' with
    | tooDeep hdeep => omega
    | malformedNode => rfl
    | unknownOperator => exact absurd (.group _ _) hshape
  | unknownOperator hlevel hop =>
    cases h' with
    | tooDeep hdeep => omega
    | malformedNode _ hshape => exact absurd (.group _ _) hshape
    | unknownOperator => rfl

/-! ### Items one after another -/

/-- Items are read if each of them is. -/
theorem exists_rulesOfSpecs_iff {text : String} {level k : Nat} {specs : List Spec} :
    (∃ rules, rulesOfSpecs limit text level k specs = .ok rules) ↔
      ∀ i s, specs[i]? = some s →
        ∃ r, ruleOfSpec limit (itemPath text (k + i)) level s = .ok r := by
  -- By induction from the front, with the number of the first item general: it counts up.
  induction specs generalizing k with
  | nil => simp [rulesOfSpecs]
  | cons first rest ih =>
    constructor
    · rintro ⟨rules, hrules⟩ i s hs
      rw [rulesOfSpecs] at hrules
      obtain ⟨rule, hfirst, hrules⟩ := bind_eq_ok_iff.mp hrules
      obtain ⟨others, hrest, -⟩ := bind_eq_ok_iff.mp hrules
      cases i with
      | zero =>
        obtain rfl := Option.some.inj hs
        exact ⟨rule, hfirst⟩
      | succ i =>
        have hs' := ih.mp ⟨others, hrest⟩ i s hs
        rwa [Nat.add_right_comm] at hs'
    · intro h
      obtain ⟨rule, hfirst⟩ := h 0 first rfl
      have hothers : ∃ rules, rulesOfSpecs limit text level (k + 1) rest = .ok rules := by
        refine ih.mpr fun i s hs => ?_
        have hs' := h (i + 1) s hs
        rwa [Nat.add_right_comm]
      obtain ⟨others, hothers⟩ := hothers
      rw [Nat.add_zero] at hfirst
      refine ⟨rule :: others, ?_⟩
      rw [rulesOfSpecs, hfirst, hothers]
      rfl

/-- Items that are not read report what the first one reports that is not. -/
theorem exists_of_rulesOfSpecs_eq_error {text : String} {level k : Nat} {specs : List Spec}
    (h : rulesOfSpecs limit text level k specs = .error e) :
    ∃ i s, specs[i]? = some s ∧ ruleOfSpec limit (itemPath text (k + i)) level s = .error e ∧
      ∀ j t, j < i → specs[j]? = some t →
        ∃ r, ruleOfSpec limit (itemPath text (k + j)) level t = .ok r := by
  induction specs generalizing k with
  | nil => exact absurd h (by simp [rulesOfSpecs])
  | cons first rest ih =>
    rw [rulesOfSpecs] at h
    cases hfirst : ruleOfSpec limit (itemPath text k) level first with
    | error cause =>
      rw [hfirst] at h
      -- The first item fails, and nothing stands before it.
      obtain rfl := Except.error.inj h
      exact ⟨0, first, rfl, hfirst, fun j t hj => absurd hj (Nat.not_lt_zero j)⟩
    | ok rule =>
      rw [hfirst] at h
      cases hrest : rulesOfSpecs limit text level (k + 1) rest with
      | ok others =>
        rw [hrest] at h
        exact absurd h (by simp [bind, Except.bind, pure, Except.pure])
      | error cause =>
        rw [hrest] at h
        obtain rfl := Except.error.inj h
        obtain ⟨i, s, hs, herror, hbefore⟩ := ih hrest
        -- The first item is read, so it joins those before the one that fails.
        refine ⟨i + 1, s, hs, by rwa [Nat.add_right_comm] at herror, fun j t hj ht => ?_⟩
        cases j with
        | zero =>
          obtain rfl := Option.some.inj ht
          exact ⟨rule, hfirst⟩
        | succ j =>
          have ht' := hbefore j t (Nat.lt_of_succ_lt_succ hj) ht
          rwa [Nat.add_right_comm] at ht'

/-! ### A node and its items -/

/-- A faulty node is reported before its items are looked at. -/
theorem ruleOfSpec_of_fault (h : Fault limit path node e) :
    ruleOfSpec limit (pathText path) (path.length + 1) node = .error e := by
  obtain ⟨courseId, operator, items⟩ := node
  unfold ruleOfSpec
  -- The checks come in the order of the faults, each where the ones before it have passed.
  cases h with
  | tooDeep hdeep => exact if_pos hdeep
  | malformedNode hlevel hshape =>
    rw [if_neg (Nat.not_lt.mpr hlevel)]
    split
    · exact absurd (.course _) hshape
    · exact absurd (.group _ _) hshape
    · rfl
  | unknownOperator hlevel hop =>
    have hnone : Operator.read? _ = none :=
      Option.not_isSome_iff_eq_none.mp (mt Operator.isSome_read?_iff.mp hop)
    rw [if_neg (Nat.not_lt.mpr hlevel)]
    simp only [readOperator, hnone]
    rfl

/-- A group without a fault is read as its operator and its items are. -/
theorem ruleOfSpec_group {operator : String} {items : List Spec}
    (h : Faultless limit path (.mk none (some operator) (some items))) :
    ∃ op, ruleOfSpec limit (pathText path) (path.length + 1)
        (.mk none (some operator) (some items)) =
      (rulesOfSpecs limit (pathText path) (path.length + 2) 0 items).map (.group op) := by
  obtain ⟨hlevel, hnode⟩ := h
  cases hnode with
  | group hop =>
    obtain ⟨op, hread⟩ := Option.isSome_iff_exists.mp (Operator.isSome_read?_iff.mpr hop)
    refine ⟨op, ?_⟩
    rw [ruleOfSpec, if_neg (Nat.not_lt.mpr hlevel)]
    simp only [readOperator, hread]
    cases rulesOfSpecs limit (pathText path) (path.length + 2) 0 items <;> rfl

/-- Of every node there is either a fault or none. -/
theorem faultless_or_exists_fault (limit : Nat) (path : List Nat) (node : Spec) :
    Faultless limit path node ∨ ∃ e, Fault limit path node e := by
  by_cases hlevel : path.length + 1 ≤ limit
  · by_cases hshape : node.Shaped
    · cases hshape with
      | course id => exact Or.inl ⟨hlevel, .course id⟩
      | group operator items =>
        by_cases hop : Operator.IsSpelled operator
        · exact Or.inl ⟨hlevel, .group hop items⟩
        · exact Or.inr ⟨_, .unknownOperator hlevel hop⟩
    · exact Or.inr ⟨_, .malformedNode hlevel hshape⟩
  · exact Or.inr ⟨_, .tooDeep (Nat.not_le.mp hlevel)⟩

/-! ### All nodes -/

/-- No node of a spec that stands at a path has a fault. -/
def AllFaultless (limit : Nat) (base : List Nat) (spec : Spec) : Prop :=
  ∀ path node, spec.at? path = some node → Faultless limit (base ++ path) node

/-- The first node with a fault, of a spec that stands at a path, has this one. -/
def FirstFault (limit : Nat) (base : List Nat) (spec : Spec) (e : Error) : Prop :=
  ∃ path node, spec.at? path = some node ∧ Fault limit (base ++ path) node e ∧
    ∀ earlier other, spec.at? earlier = some other → earlier < path →
      Faultless limit (base ++ earlier) other

theorem FirstFault.not_allFaultless (h : FirstFault limit base spec e) :
    ¬ AllFaultless limit base spec := by
  obtain ⟨path, node, hnode, hfault, -⟩ := h
  exact fun hall => hfault.not_faultless (hall path node hnode)

/-- One first fault at most: of two different paths one is the lesser. -/
theorem FirstFault.unique (h : FirstFault limit base spec e) (h' : FirstFault limit base spec e') :
    e = e' := by
  obtain ⟨path, node, hnode, hfault, hfirst⟩ := h
  obtain ⟨path', node', hnode', hfault', hfirst'⟩ := h'
  rcases lt_trichotomy path path' with hlt | rfl | hgt
  · exact absurd (hfirst' path node hnode hlt) hfault.not_faultless
  · obtain rfl := Option.some.inj (hnode.symm.trans hnode')
    exact hfault.unique hfault'
  · exact absurd (hfirst path' node' hnode' hgt) hfault'.not_faultless

/-- A group is without faults if it is by itself and its items are. -/
theorem allFaultless_of_parts (hroot : Faultless limit base spec)
    (hparts : ∀ i part, spec.parts[i]? = some part → AllFaultless limit (base ++ [i]) part) :
    AllFaultless limit base spec := by
  intro path node hnode
  cases path with
  | nil =>
    obtain rfl := Option.some.inj hnode
    rwa [List.append_nil]
  | cons i path =>
    obtain ⟨part, hpart, hnode⟩ := Spec.at?_cons_eq_some_iff.mp hnode
    rw [List.append_cons]
    exact hparts i part hpart path node hnode

/-- The first fault of an item is that of the whole, if there is none in the node itself and in the
items before. -/
theorem firstFault_of_part {i : Nat} {part : Spec} (hroot : Faultless limit base spec)
    (hpart : spec.parts[i]? = some part) (hfirst : FirstFault limit (base ++ [i]) part e)
    (hbefore : ∀ j other, j < i → spec.parts[j]? = some other →
      AllFaultless limit (base ++ [j]) other) : FirstFault limit base spec e := by
  obtain ⟨path, node, hnode, hfault, hearlier⟩ := hfirst
  refine ⟨i :: path, node, Spec.at?_cons_eq_some_iff.mpr ⟨part, hpart, hnode⟩, ?_, ?_⟩
  · rwa [List.append_cons]
  · intro earlier other hother hlt
    cases earlier with
    | nil =>
      obtain rfl := Option.some.inj hother
      rwa [List.append_nil]
    | cons j rest =>
      obtain ⟨known, hknown, hother⟩ := Spec.at?_cons_eq_some_iff.mp hother
      rw [List.append_cons]
      -- An earlier node is in an earlier part, or stands earlier in the same one.
      rcases List.cons_lt_cons_iff.mp hlt with hj | ⟨rfl, hrest⟩
      · exact hbefore j known hj hknown rest other hother
      · obtain rfl := Option.some.inj (hknown.symm.trans hpart)
        exact hearlier rest other hother hrest

/-! ### What is reported -/

/-- A spec that stands at a path is read only where no node has a fault, and otherwise the first
fault is what is reported. -/
structure ReportsFirst (limit : Nat) (base : List Nat) (spec : Spec) : Prop where
  ok : ∀ r, ruleOfSpec limit (pathText base) (base.length + 1) spec = .ok r →
    AllFaultless limit base spec
  error : ∀ e, ruleOfSpec limit (pathText base) (base.length + 1) spec = .error e →
    FirstFault limit base spec e

theorem reportsFirst_of_fault (h : Fault limit base spec e) : ReportsFirst limit base spec where
  ok := by
    intro r hread
    rw [ruleOfSpec_of_fault h] at hread
    exact absurd hread (by simp)
  error := by
    intro e' hread
    rw [ruleOfSpec_of_fault h] at hread
    obtain rfl := Except.error.inj hread
    refine ⟨[], spec, rfl, by rwa [List.append_nil], fun earlier _ _ hlt => ?_⟩
    exact absurd hlt (List.not_lt_nil earlier)

theorem reportsFirst_course {id : CourseId}
    (hroot : Faultless limit base (.mk (some id) none none)) :
    ReportsFirst limit base (.mk (some id) none none) where
  ok := fun _ _ => allFaultless_of_parts hroot fun _ _ hpart => absurd hpart (by simp [Spec.parts])
  error := by
    intro e hread
    rw [ruleOfSpec, if_neg (Nat.not_lt.mpr hroot.1)] at hread
    exact absurd hread (by simp)

/-- Of a group the items are read one after another, each at its own path. -/
theorem reportsFirst_group {operator : String} {items : List Spec}
    (hroot : Faultless limit base (.mk none (some operator) (some items)))
    (hitems : ∀ i part, items[i]? = some part → ReportsFirst limit (base ++ [i]) part) :
    ReportsFirst limit base (.mk none (some operator) (some items)) := by
  obtain ⟨op, hgroup⟩ := ruleOfSpec_group hroot
  -- The items are read at their paths, one level further down.
  have hitem : ∀ i part,
      ruleOfSpec limit (itemPath (pathText base) (0 + i)) (base.length + 2) part =
        ruleOfSpec limit (pathText (base ++ [i])) ((base ++ [i]).length + 1) part := by
    intro i part
    rw [pathText_append_singleton, Nat.zero_add, List.length_append, List.length_singleton]
  constructor
  · intro r hread
    rw [hgroup] at hread
    obtain ⟨rules, hrules, -⟩ := map_eq_ok_iff.mp hread
    refine allFaultless_of_parts hroot fun i part hpart => ?_
    obtain ⟨rule, hrule⟩ := exists_rulesOfSpecs_iff.mp ⟨rules, hrules⟩ i part hpart
    exact (hitems i part hpart).ok rule (hitem i part ▸ hrule)
  · intro e hread
    rw [hgroup] at hread
    obtain ⟨i, part, hpart, hfirst, hbefore⟩ :=
      exists_of_rulesOfSpecs_eq_error (map_eq_error_iff.mp hread)
    refine firstFault_of_part hroot hpart ((hitems i part hpart).error e (hitem i part ▸ hfirst)) ?_
    -- The items before the one that fails have been read, so they have no fault.
    intro j other hj hother
    obtain ⟨rule, hrule⟩ := hbefore j other hj hother
    exact (hitems j other hother).ok rule (hitem j other ▸ hrule)

theorem reportsFirst (limit : Nat) (base : List Nat) (spec : Spec) :
    ReportsFirst limit base spec := by
  induction spec generalizing base with
  | mk courseId operator items ih =>
    rcases faultless_or_exists_fault limit base (.mk courseId operator items) with
      hroot | ⟨found, hfault⟩
    · cases hroot.2 with
      | course id => exact reportsFirst_course hroot
      | group _ items =>
        refine reportsFirst_group hroot fun i part hpart => ?_
        exact ih items rfl part (List.mem_of_getElem? hpart) (base ++ [i])
    · exact reportsFirst_of_fault hfault

/-- **What is refused is refused for the first fault.**  A tree is admitted from a spec exactly if
every node stands within the limit that holds and is a course or a group with an operator.  And
what is reported of any other spec is the fault of its first node that has one, from the root on
and from left to right: that it stands too deep, whatever it is; else, with the path that leads to
it, that it is neither a course nor a group; else the operator as it is written. -/
theorem refusal_names_first_fault (spec : Spec) (limit : Nat) :
    let allowed := max 1 (min limit 64)
    ((∃ t, Tree.ofSpec spec limit = .ok t) ↔
      ∀ path node, spec.at? path = some node → path.length + 1 ≤ allowed ∧ node.Admissible) ∧
    ∀ e, Tree.ofSpec spec limit = .error e ↔
      ∃ path node, spec.at? path = some node ∧ Fault allowed path node e ∧
        ∀ earlier other, spec.at? earlier = some other → earlier < path →
          earlier.length + 1 ≤ allowed ∧ other.Admissible := by
  intro allowed
  have hreports := reportsFirst allowed [] spec
  have hroot : ruleOfSpec allowed (pathText []) ([] : List Nat).length.succ spec =
      ruleOfSpec (effectiveLimit limit) "root" 1 spec := rfl
  -- The spec is read or not; either way it tells whether a node of it has a fault.
  cases hread : ruleOfSpec (effectiveLimit limit) "root" 1 spec with
  | ok root =>
    have hall : AllFaultless allowed [] spec := hreports.ok root (hroot.trans hread)
    have htree : Tree.ofSpec spec limit = .ok ⟨root, root.depth⟩ := by
      rw [Tree.ofSpec, hread]
      rfl
    refine ⟨iff_of_true ⟨_, htree⟩ hall, fun e => iff_of_false ?_ ?_⟩
    · rw [htree]
      simp
    · exact fun hfirst : FirstFault allowed [] spec e => hfirst.not_allFaultless hall
  | error found =>
    have hfirst : FirstFault allowed [] spec found := hreports.error found (hroot.trans hread)
    have htree : Tree.ofSpec spec limit = .error found := by
      rw [Tree.ofSpec, hread]
      rfl
    refine ⟨iff_of_false ?_ hfirst.not_allFaultless, fun e => ?_⟩
    · rintro ⟨t, ht⟩
      exact absurd (htree.symm.trans ht) (by simp)
    · rw [htree, Except.error.injEq]
      constructor
      · rintro rfl
        exact hfirst
      · exact hfirst.unique

/-- Of a node that is no node and an operator that is none the one is reported that comes first. -/
example :
    Tree.ofSpec (.ofGroup "and" [.ofGroup " Or " [.ofCourse 1, .mk none none none],
      .ofGroup "xor" []]) 3 = .error (.malformedNode "root.items[0].items[1]") := by
  decide +kernel

end Registrar.Prerequisite
