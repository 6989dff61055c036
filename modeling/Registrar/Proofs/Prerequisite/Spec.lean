import Registrar.Proofs.Prerequisite.Admission

/-!
# Rules and the specs they are sent as

`Rule.toSpec` writes a rule as a spec and `ruleOfSpec` reads one.  Reading is described from both
sides:

* `ruleOfSpec_toSpec`: the spec of a rule is read as that rule, and only its height can be in the
  way.
* `toSpec_of_ruleOfSpec`: a spec that is read as a rule is the spec of that rule, up to the way in
  which its operators are written; `Spec.canonical` writes them by their labels.

`sending_agrees_with_wrapping` draws both together for trees: sending a rule admits what the rule
itself is admitted as, and what has been admitted from a spec can be sent again.
-/

namespace Registrar.Prerequisite

/-! ### Operators -/

@[simp] theorem Operator.read?_label (op : Operator) : Operator.read? op.label = some op := by
  cases op <;> decide +kernel

@[simp] theorem readOperator_label (op : Operator) : readOperator op.label = .ok op := by
  simp [readOperator]

theorem readOperator_eq_ok_iff {s : String} {op : Operator} :
    readOperator s = .ok op ↔ Operator.read? s = some op := by
  unfold readOperator
  split
  · rename_i found hfound
    rw [hfound, Except.ok.injEq, Option.some.injEq]
  · rename_i hnone
    simp [hnone]

namespace Spec

/-- The label of the operator that a text means; a text that means none stays as it is. -/
def canonicalOperator (s : String) : String :=
  match Operator.read? s with
  | some op => op.label
  | none => s

theorem canonicalOperator_of_readOperator {s : String} {op : Operator}
    (h : readOperator s = .ok op) : canonicalOperator s = op.label := by
  rw [canonicalOperator, readOperator_eq_ok_iff.mp h]

mutual

/-- The spec with each of its operators written by the label, and nothing else changed. -/
def canonical : Spec → Spec
  | .mk courseId operator items =>
    .mk courseId (operator.map canonicalOperator) (match items with
      | some specs => some (canonicalAll specs)
      | none => none)

/-- The specs with each of their operators written by the label. -/
def canonicalAll : List Spec → List Spec
  | [] => []
  | s :: ss => canonical s :: canonicalAll ss

end

/-! ### Height -/

mutual

/-- The number of specs on the longest way from the spec down to one of its items. -/
def height : Spec → Nat
  | .mk _ _ items => match items with
    | some specs => heights specs + 1
    | none => 1

/-- The greatest height of some specs, none for no specs. -/
def heights : List Spec → Nat
  | [] => 0
  | s :: ss => max (height s) (heights ss)

end

mutual

theorem height_canonical (s : Spec) : s.canonical.height = s.height := by
  match s with
  | .mk _ _ none => rfl
  | .mk _ _ (some specs) => simp only [canonical, height, heights_canonicalAll specs]

theorem heights_canonicalAll (specs : List Spec) :
    heights (canonicalAll specs) = heights specs := by
  match specs with
  | [] => rfl
  | s :: ss => simp only [canonicalAll, heights, height_canonical s, heights_canonicalAll ss]

end

mutual

theorem height_toSpec (r : Rule) : r.toSpec.height = r.height := by
  match r with
  | .course _ => rfl
  | .group op items =>
    simp only [Rule.toSpec, ofGroup, height, Rule.height, heights_rulesToSpecs items]

theorem heights_rulesToSpecs (rules : List Rule) :
    heights (rulesToSpecs rules) = Rule.heights rules := by
  match rules with
  | [] => rfl
  | r :: rs =>
    simp only [rulesToSpecs, heights, Rule.heights, height_toSpec r, heights_rulesToSpecs rs]

end

end Spec

/-! ### Reading the spec of a rule -/

theorem Rule.height_pos (r : Rule) : 0 < r.height := by
  cases r <;> simp [Rule.height]

/-- Specs of rules are read as these rules, if each of them is. -/
theorem rulesOfSpecs_rulesToSpecs {limit level : Nat} {path : String} {rules : List Rule}
    (h : ∀ r ∈ rules, ∀ path, ruleOfSpec limit path level r.toSpec =
      if level + r.height ≤ limit + 1 then .ok r else .error (.tooDeep limit)) (index : Nat) :
    rulesOfSpecs limit path level index (rulesToSpecs rules) =
      if ∀ r ∈ rules, level + r.height ≤ limit + 1 then .ok rules
      else .error (.tooDeep limit) := by
  induction rules generalizing index with
  | nil => simp [rulesToSpecs, rulesOfSpecs]
  | cons r rs ih =>
    obtain ⟨hr, hrs⟩ := List.forall_mem_cons.mp h
    have hcons : (∀ r' ∈ r :: rs, level + r'.height ≤ limit + 1) ↔
        level + r.height ≤ limit + 1 ∧ ∀ r' ∈ rs, level + r'.height ≤ limit + 1 :=
      List.forall_mem_cons
    rw [rulesToSpecs, rulesOfSpecs, hr, ih hrs]
    -- All items fail in the same way, so it does not matter which of them is the first to.
    by_cases hfits : level + r.height ≤ limit + 1
    · by_cases hall : ∀ r ∈ rs, level + r.height ≤ limit + 1
      · rw [if_pos hfits, if_pos hall, if_pos (hcons.mpr ⟨hfits, hall⟩)]
        rfl
      · rw [if_pos hfits, if_neg hall, if_neg fun h => hall (hcons.mp h).2]
        rfl
    · rw [if_neg hfits, if_neg fun h => hfits (hcons.mp h).1]
      rfl

/-- A group fits below a level if its items fit one level further down. -/
theorem height_group_le_iff {limit level : Nat} {op : Operator} {items : List Rule}
    (hlevel : level ≤ limit) :
    level + (Rule.group op items).height ≤ limit + 1 ↔
      ∀ r ∈ items, level + 1 + r.height ≤ limit + 1 := by
  have hheights := @Rule.heights_le_iff items (limit - level)
  rw [Rule.height]
  constructor
  · intro hle r hr
    have := hheights.mp (by omega) r hr
    omega
  · intro hall
    have := hheights.mpr fun r hr => by have := hall r hr; omega
    omega

/-- The spec of a rule is read as the rule, unless it reaches below the limit. -/
theorem ruleOfSpec_toSpec (limit : Nat) (path : String) (level : Nat) (r : Rule) :
    ruleOfSpec limit path level r.toSpec =
      if level + r.height ≤ limit + 1 then .ok r else .error (.tooDeep limit) := by
  induction r generalizing path level with
  | course id =>
    rw [Rule.toSpec, Spec.ofCourse, ruleOfSpec]
    have hheight : (Rule.course id).height = 1 := rfl
    by_cases hlevel : level > limit
    · rw [if_pos hlevel, if_neg (by omega)]
    · rw [if_neg hlevel, if_pos (by omega)]
  | group op items ih =>
    rw [Rule.toSpec, Spec.ofGroup, ruleOfSpec]
    -- The level is checked before the items are read; a group is at least one level high.
    by_cases hlevel : level > limit
    · have hpos := (Rule.group op items).height_pos
      rw [if_pos hlevel, if_neg (by omega)]
    · have hitems := @height_group_le_iff limit level op items (by omega)
      rw [if_neg hlevel]
      simp only [readOperator_label,
        rulesOfSpecs_rulesToSpecs fun r hr path => ih r hr path (level + 1)]
      by_cases hfits : level + (Rule.group op items).height ≤ limit + 1
      · rw [if_pos hfits, if_pos (hitems.mp hfits)]
        rfl
      · rw [if_neg hfits, if_neg fun h => hfits (hitems.mpr h)]
        rfl

/-! ### The rule of a spec -/

/-- Specs are read as rules item by item. -/
theorem rulesToSpecs_of_rulesOfSpecs {limit level : Nat} {path : String} {specs : List Spec}
    (h : ∀ s ∈ specs, ∀ path r, ruleOfSpec limit path level s = .ok r → r.toSpec = s.canonical)
    {index : Nat} {rules : List Rule}
    (hrules : rulesOfSpecs limit path level index specs = .ok rules) :
    rulesToSpecs rules = Spec.canonicalAll specs := by
  induction specs generalizing index rules with
  | nil =>
    obtain rfl := Except.ok.inj hrules
    rfl
  | cons s ss ih =>
    obtain ⟨hs, hss⟩ := List.forall_mem_cons.mp h
    rw [rulesOfSpecs] at hrules
    obtain ⟨first, hfirst, hrules⟩ := bind_eq_ok_iff.mp hrules
    obtain ⟨rest, hrest, hrules⟩ := bind_eq_ok_iff.mp hrules
    obtain rfl := pure_eq_ok_iff.mp hrules
    rw [rulesToSpecs, Spec.canonicalAll, hs _ _ hfirst, ih hss hrest]

/-- A spec that is read as a rule is the spec of the rule with operators written in some other
way. -/
theorem toSpec_of_ruleOfSpec {limit level : Nat} {path : String} {spec : Spec} {r : Rule}
    (h : ruleOfSpec limit path level spec = .ok r) : r.toSpec = spec.canonical := by
  induction spec generalizing level path r with
  | mk courseId operator items ih =>
    unfold ruleOfSpec at h
    split_ifs at h with hlevel
    split at h
    · obtain rfl := Except.ok.inj h
      rfl
    · obtain ⟨op, hop, h⟩ := bind_eq_ok_iff.mp h
      obtain ⟨rules, hrules, h⟩ := bind_eq_ok_iff.mp h
      obtain rfl := pure_eq_ok_iff.mp h
      -- The operator is read back in its own spelling, and the items by hypothesis.
      have hitems := rulesToSpecs_of_rulesOfSpecs
        (fun s hs path r hr => ih _ rfl s hs hr) hrules
      simp only [Rule.toSpec, Spec.ofGroup, Spec.canonical, Option.map_some, hitems,
        Spec.canonicalOperator_of_readOperator hop]
    · exact absurd h (by simp)

namespace Tree

theorem ofRule_of_le {r : Rule} {limit : Nat} (h : r.depth ≤ effectiveLimit limit) :
    ofRule r limit = .ok ⟨r, r.depth⟩ :=
  if_neg (Nat.not_lt.mpr h)

theorem ofRule_of_lt {r : Rule} {limit : Nat} (h : effectiveLimit limit < r.depth) :
    ofRule r limit = .error (.tooDeep (effectiveLimit limit)) :=
  if_pos h

/-- What the spec of a rule admits is what the rule itself admits. -/
theorem ofSpec_toSpec (r : Rule) (limit : Nat) : ofSpec r.toSpec limit = ofRule r limit := by
  rw [ofSpec, ruleOfSpec_toSpec]
  have hdepth := r.depth_eq_height
  by_cases hfits : r.depth ≤ effectiveLimit limit
  · rw [if_pos (by omega), ofRule_of_le hfits]
    rfl
  · rw [if_neg (by omega), ofRule_of_lt (by omega)]
    rfl

/-- A tree is as deep as the spec that it has been admitted from, which is not too deep. -/
theorem depth_of_ofSpec {spec : Spec} {limit : Nat} {t : Tree} (h : ofSpec spec limit = .ok t) :
    t.depth = spec.height ∧ t.depth ≤ effectiveLimit limit := by
  obtain ⟨root, hroot, h⟩ := bind_eq_ok_iff.mp h
  obtain rfl := pure_eq_ok_iff.mp h
  have hheight : root.height = spec.height := by
    rw [← Spec.height_toSpec, toSpec_of_ruleOfSpec hroot, Spec.height_canonical]
  have hfits := height_le_of_ruleOfSpec hroot
  have hdepth := root.depth_eq_height
  exact ⟨hdepth.trans hheight, by simp only; omega⟩

/-- A tree that has been admitted from a spec can be sent again. -/
theorem ofSpec_toSpec_of_ofSpec {spec : Spec} {limit : Nat} {t : Tree}
    (h : ofSpec spec limit = .ok t) : ofSpec t.toSpec limit = .ok t := by
  have hle := (depth_of_ofSpec h).2
  obtain ⟨root, hroot, h⟩ := bind_eq_ok_iff.mp h
  obtain rfl := pure_eq_ok_iff.mp h
  rw [toSpec, ofSpec_toSpec, ofRule_of_le hle]

/-- The spec of an admitted tree is the one it has been admitted from, with operators by their
labels. -/
theorem toSpec_of_ofSpec {spec : Spec} {limit : Nat} {t : Tree} (h : ofSpec spec limit = .ok t) :
    t.toSpec = spec.canonical := by
  obtain ⟨root, hroot, h⟩ := bind_eq_ok_iff.mp h
  obtain rfl := pure_eq_ok_iff.mp h
  exact toSpec_of_ruleOfSpec hroot

/-- **Sending a rule and wrapping it come to the same, and so do sending a tree back and keeping
it.**  From its spec a rule is admitted as it is by itself, which is with its depth unless that is
beyond the limit.  And a tree that a spec has been admitted as is as deep as the spec, no deeper
than the limit, spells the spec with operators by their labels, and can be sent again. -/
theorem sending_agrees_with_wrapping (limit : Nat) :
    effectiveLimit limit = max 1 (min limit 64) ∧
    (∀ r : Rule, ofSpec r.toSpec limit = ofRule r limit ∧
      ofRule r limit =
        if r.depth ≤ effectiveLimit limit then .ok ⟨r, r.depth⟩
        else .error (.tooDeep (effectiveLimit limit))) ∧
    ∀ (spec : Spec) (t : Tree), ofSpec spec limit = .ok t →
      t.depth = spec.height ∧ t.depth ≤ effectiveLimit limit ∧
      t.toSpec = spec.canonical ∧ ofSpec t.toSpec limit = .ok t := by
  refine ⟨rfl, fun r => ⟨ofSpec_toSpec r limit, ?_⟩, fun spec t h => ?_⟩
  · by_cases hfits : r.depth ≤ effectiveLimit limit
    · rw [if_pos hfits, ofRule_of_le hfits]
    · rw [if_neg hfits, ofRule_of_lt (Nat.not_le.mp hfits)]
  · obtain ⟨hdepth, hle⟩ := depth_of_ofSpec h
    exact ⟨hdepth, hle, toSpec_of_ofSpec h, ofSpec_toSpec_of_ofSpec h⟩

/-- A spec with an operator in lower case between blanks is admitted, and sent back with the
label. -/
theorem sending_agrees_with_wrapping_of_spoken_operator :
    ∃ t : Tree, ofSpec (.ofGroup " or " [.ofCourse 1, .ofGroup "And" []]) 2 = .ok t ∧
      t.toSpec = .ofGroup "OR" [.ofCourse 1, .ofGroup "AND" []] ∧ t.depth = 2 ∧
      ofSpec t.toSpec 2 = .ok t := by
  have hbuilt : ofSpec (.ofGroup " or " [.ofCourse 1, .ofGroup "And" []]) 2 =
      .ok ⟨.group .or [.course 1, .group .and []], 2⟩ := by
    decide +kernel
  obtain ⟨hdepth, -, hspec, hagain⟩ := (sending_agrees_with_wrapping 2).2.2 _ _ hbuilt
  exact ⟨_, hbuilt, hspec, hdepth, hagain⟩

end Tree

end Registrar.Prerequisite
