import Registrar.Proofs.Holdings.Closed
import Registrar.Command.Run

/-!
# Trees that can be sent again

A stored tree is sent as its spec.  `Tree.Resendable` says that the spec can be read from a text
and that it is admitted as the same tree.  Every tree that has come in as a spec can go back that
way: its nesting is that of the spec, which has been read from a text.

`Maintained` holdings are closed and have only such trees.  They are what a service is loaded with
(`maintained_of_load`), and the trees that are stored later are resendable too
(`Maintained.replace`).
-/

namespace Registrar

open Prerequisite (Tree Spec FlatSpec Rule)

namespace Prerequisite.Tree

open Json

/-- The spec of the tree can be read and is admitted as the tree. -/
structure Resendable (t : Tree) (limit : Nat) : Prop where
  admitted : ofSpec t.toSpec limit = .ok t
  nesting_le : t.toSpec.nesting ≤ maxNesting

theorem resendable_of_ofSpec {spec : Spec} {limit : Nat} {t : Tree}
    (h : ofSpec spec limit = .ok t) (hspec : spec.nesting ≤ maxNesting) : t.Resendable limit where
  admitted := ofSpec_toSpec_of_ofSpec h
  nesting_le := by rw [toSpec_of_ofSpec h, Spec.nesting_canonical]; exact hspec

theorem root_eq_of_ofRule {root : Rule} {limit : Nat} {t : Tree} (h : ofRule root limit = .ok t) :
    t.root = root := by
  simp only [ofRule] at h
  split_ifs at h
  exact (Except.ok.inj h) ▸ rfl

/-- A tree of one operator over courses is nested three deep at most. -/
theorem resendable_of_ofFlatSpec {spec : FlatSpec} {limit : Nat} {t : Tree}
    (h : ofFlatSpec spec limit = .ok t) : t.Resendable limit := by
  obtain ⟨op, -, h⟩ := bind_eq_ok_iff.mp h
  -- A group over courses is two high, far below what a text may have.
  have hroot := root_eq_of_ofRule h
  have hheight : t.root.height ≤ 2 := by
    rw [hroot, Rule.height]
    refine Nat.succ_le_succ (Rule.heights_le_iff.mpr fun r hr => ?_)
    obtain ⟨id, -, rfl⟩ := List.mem_map.mp hr
    exact Nat.le_refl 1
  refine ⟨?_, Nat.le_trans (t.root.nesting_toSpec hheight).1 (by decide)⟩
  rw [toSpec, ofSpec_toSpec, hroot]
  exact h

end Prerequisite.Tree

namespace Holdings

/-- Closed holdings all trees of which can be sent again to a desk with this limit. -/
structure Maintained (h : Holdings) (limit : Nat) : Prop where
  closed : h.Closed
  resendable : ∀ course t, h.prerequisites.tree? course = some t → t.Resendable limit

variable {h : Holdings} {limit : Nat}

theorem maintained_empty (limit : Nat) : empty.Maintained limit where
  closed := closed_empty
  resendable := fun _ _ ht => absurd ht (by simp [empty])

theorem maintained_of_ofBytes {bs : Text.Bytes} (himport : ofBytes bs limit = .ok h) :
    h.Maintained limit where
  closed := closed_of_ofBytes himport
  resendable := by
    intro course t ht
    obtain ⟨spec, hbuilt, hnesting⟩ := exists_spec_of_ofBytes himport ht
    exact Tree.resendable_of_ofSpec hbuilt (Nat.le_trans hnesting (by decide))

theorem Maintained.of_applyTranscript (hmaintained : h.Maintained limit) {bs : Text.Bytes}
    {rows : Nat} {h' : Holdings} (happly : h.applyTranscript bs = .ok (rows, h')) :
    h'.Maintained limit := by
  rcases importTranscript_cases bs h with ⟨_, batch, -, -, hknown, hdone⟩ | ⟨_, herror⟩
  · rw [applyTranscript, hdone] at happly
    obtain ⟨-, rfl⟩ := Prod.mk.inj (Except.ok.inj happly)
    refine ⟨?_, hmaintained.resendable⟩
    have hw : (Write.importTranscript bs).DeclaresNothing := trivial
    have hclosed := after_induction hmaintained.closed fun _ hstep =>
      hmaintained.closed.step hw hstep
    rwa [after, hdone] at hclosed
  · rw [applyTranscript, herror] at happly
    exact absurd happly (by simp)

theorem Maintained.replace (hmaintained : h.Maintained limit) {course : CourseId} {t : Tree}
    (hcourse : course ∈ h.records.courseIds)
    (hleaves : ∀ leaf ∈ t.root.leaves, leaf ∈ h.records.courseIds) (hwithin : t.WithinLimit)
    (ht : t.Resendable limit) :
    Maintained { h with prerequisites := (h.prerequisites.replace course t).2 } limit where
  closed := hmaintained.closed.replace hcourse hleaves hwithin
  resendable := by
    intro other t' ht'
    rw [Prerequisite.Store.tree?_replace] at ht'
    split_ifs at ht'
    · exact Option.some.inj ht' ▸ ht
    · exact hmaintained.resendable other t' ht'

theorem Maintained.remove (hmaintained : h.Maintained limit) (course : CourseId) :
    Maintained { h with prerequisites := (h.prerequisites.remove course).2 } limit where
  closed := hmaintained.closed.remove course
  resendable := by
    intro other t ht
    rw [Prerequisite.Store.tree?_remove] at ht
    split_ifs at ht
    exact hmaintained.resendable other t ht

/-! ### What a service is loaded with -/

variable {files : Command.FileReader Id} {path : String}

theorem maintained_of_readCatalog
    (hread : (Command.readCatalog files path limit).run = .ok h) : h.Maintained limit := by
  rw [Command.readCatalog] at hread
  obtain ⟨contents, -, hread⟩ := run_bind_eq_ok_iff.mp hread
  obtain ⟨bs, -, himport⟩ := bind_eq_ok_iff.mp (mapError_eq_ok_iff.mp hread)
  exact maintained_of_ofBytes himport

theorem Maintained.of_readTranscript (hmaintained : h.Maintained limit) {h' : Holdings}
    (hread : (Command.readTranscript files path h).run = .ok h') : h'.Maintained limit := by
  rw [Command.readTranscript] at hread
  obtain ⟨contents, -, hread⟩ := run_bind_eq_ok_iff.mp hread
  obtain ⟨bs, -, hread⟩ := bind_eq_ok_iff.mp (mapError_eq_ok_iff.mp hread)
  obtain ⟨⟨rows, h''⟩, happly, heq⟩ := bind_eq_ok_iff.mp hread
  exact pure_eq_ok_iff.mp heq ▸ hmaintained.of_applyTranscript happly

/-- Whatever files a service is loaded from, its holdings are maintained. -/
theorem maintained_of_load {settings : Settings} {sources : Command.Sources}
    (hload : (Command.load files settings sources).run = .ok h) :
    h.Maintained settings.depthLimit := by
  rw [Command.load] at hload
  -- The catalog is optional, and so is the transcript that is read after it.
  split at hload
  · obtain ⟨start, hstart, hload⟩ := run_bind_eq_ok_iff.mp hload
    have hmaintained := maintained_of_readCatalog hstart
    split at hload
    · exact hmaintained.of_readTranscript hload
    · exact Except.ok.inj hload ▸ hmaintained
  · obtain ⟨start, hstart, hload⟩ := run_bind_eq_ok_iff.mp hload
    obtain rfl := Except.ok.inj hstart
    split at hload
    · exact (maintained_empty _).of_readTranscript hload
    · exact Except.ok.inj hload ▸ maintained_empty _

end Holdings

end Registrar
