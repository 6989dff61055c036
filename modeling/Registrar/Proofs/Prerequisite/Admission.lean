import Registrar.Prerequisite.Tree
import Registrar.Proofs.Outcome
import Registrar.Proofs.Prerequisite.Rule

/-!
# Admitted trees

Every way of building a tree keeps it within the limit that holds, which is `maxDepth` at most,
and notes the true depth of its root: `Tree.WithinLimit` says both, and it holds of what
`Tree.ofRule`, `Tree.ofSpec`, `Tree.flat` and `Tree.ofFlatSpec` build.
-/

namespace Registrar.Prerequisite

theorem effectiveLimit_le_maxDepth (limit : Nat) : effectiveLimit limit ≤ maxDepth := by
  simp only [effectiveLimit, maxDepth]
  omega

/-- To show something of every spec, show it of one all items of which have it. -/
@[induction_eliminator]
theorem Spec.itemsInduction {motive : Spec → Prop}
    (mk : ∀ courseId operator items,
      (∀ specs, items = some specs → ∀ s ∈ specs, motive s) → motive (.mk courseId operator items))
    (s : Spec) : motive s :=
  @Spec.rec motive (fun items => ∀ specs, items = some specs → ∀ s ∈ specs, motive s)
    (fun specs => ∀ s ∈ specs, motive s) mk
    (fun _ h => nomatch h)
    (fun _ ih _ h => Option.some.inj h ▸ ih)
    (fun _ h => absurd h List.not_mem_nil)
    (fun _ _ first rest _ h => (List.mem_cons.mp h).elim (fun e => e ▸ first) (rest _)) s

/-- Every one of the rules is the rule of one of the specs. -/
theorem exists_of_mem_rulesOfSpecs {limit level index : Nat} {path : String} {specs : List Spec}
    {rules : List Rule} (h : rulesOfSpecs limit path level index specs = .ok rules) {r : Rule}
    (hr : r ∈ rules) :
    ∃ s ∈ specs, ∃ path, ruleOfSpec limit path level s = .ok r := by
  induction specs generalizing index rules with
  | nil =>
    obtain rfl := Except.ok.inj h
    exact absurd hr List.not_mem_nil
  | cons s ss ih =>
    rw [rulesOfSpecs] at h
    obtain ⟨first, hfirst, h⟩ := bind_eq_ok_iff.mp h
    obtain ⟨rest, hrest, h⟩ := bind_eq_ok_iff.mp h
    obtain rfl := pure_eq_ok_iff.mp h
    rcases List.mem_cons.mp hr with rfl | hr
    · exact ⟨s, List.mem_cons_self, _, hfirst⟩
    · obtain ⟨s', hs', hbuilt⟩ := ih hrest hr
      exact ⟨s', List.mem_cons_of_mem s hs', hbuilt⟩

/-- A rule built at a level does not reach below the limit. -/
theorem height_le_of_ruleOfSpec {limit level : Nat} {path : String} {spec : Spec} {r : Rule}
    (h : ruleOfSpec limit path level spec = .ok r) : level + r.height ≤ limit + 1 := by
  induction spec generalizing level path r with
  | mk courseId operator items ih =>
    unfold ruleOfSpec at h
    split_ifs at h with hlevel
    split at h
    · -- A course is one level high, and the level has been checked.
      obtain rfl := Except.ok.inj h
      simp only [Rule.height]
      omega
    · obtain ⟨op, -, h⟩ := bind_eq_ok_iff.mp h
      obtain ⟨rules, hrules, h⟩ := bind_eq_ok_iff.mp h
      obtain rfl := pure_eq_ok_iff.mp h
      -- The items stand one level further down.
      have hitems : Rule.heights rules ≤ limit - level := by
        refine Rule.heights_le_iff.mpr fun r hr => ?_
        obtain ⟨s, hs, _, hbuilt⟩ := exists_of_mem_rulesOfSpecs hrules hr
        have := ih _ rfl s hs hbuilt
        omega
      simp only [Rule.height]
      omega
    · exact absurd h (by simp)

namespace Tree

/-- The tree is no deeper than trees may be, and it knows how deep it is. -/
structure WithinLimit (t : Tree) : Prop where
  depth_le : t.depth ≤ maxDepth
  depth_eq : t.depth = t.root.height

theorem withinLimit_of_ofRule {root : Rule} {limit : Nat} {t : Tree}
    (h : ofRule root limit = .ok t) : t.WithinLimit := by
  simp only [ofRule] at h
  split_ifs at h with hdepth
  obtain rfl := Except.ok.inj h
  have hlimit := effectiveLimit_le_maxDepth limit
  exact ⟨by simp only; omega, Rule.depth_eq_height root⟩

theorem withinLimit_of_ofSpec {spec : Spec} {limit : Nat} {t : Tree}
    (h : ofSpec spec limit = .ok t) : t.WithinLimit := by
  obtain ⟨root, hroot, h⟩ := bind_eq_ok_iff.mp h
  obtain rfl := pure_eq_ok_iff.mp h
  have hheight := height_le_of_ruleOfSpec hroot
  have hlimit := effectiveLimit_le_maxDepth limit
  refine ⟨?_, Rule.depth_eq_height root⟩
  simp only [Rule.depth_eq_height]
  omega

theorem withinLimit_of_ofFlatSpec {spec : FlatSpec} {limit : Nat} {t : Tree}
    (h : ofFlatSpec spec limit = .ok t) : t.WithinLimit := by
  obtain ⟨op, -, h⟩ := bind_eq_ok_iff.mp h
  exact withinLimit_of_ofRule h

end Tree

end Registrar.Prerequisite
