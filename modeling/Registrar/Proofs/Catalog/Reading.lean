import Registrar.Catalog.File
import Registrar.Proofs.Prerequisite.Nesting

/-!
# Specs in catalog files

The specs of a catalog file stand in a course, which stands in an array of the file's object.
These three are nested around them, so that no catalog file is read that has a spec nested deeper
than 124 (`CatalogFile.nesting_le_of_read`).
-/

namespace Registrar

open Json

namespace ListedCourse

/-- The spec of a course that is read fits the room in the course. -/
theorem yields_record (room : Nat) :
    record.Yields room fun c => ∀ spec ∈ c.prerequisites, spec.nesting ≤ room := by
  have hspec := (Prerequisite.Spec.yields_decoderWithin (maxNesting + 1) room).nullable
  refine .seq (Record.yields_member hspec (by simp)) ?_
  -- Of the other members it does not matter what they are.
  refine .seq (P := fun _ => True) (Record.yields_of_forall fun _ => trivial) ?_
  refine .seq (P := fun _ => True) (Record.yields_of_forall fun _ => trivial) ?_
  refine .seq (P := fun _ => True) (Record.yields_of_forall fun _ => trivial) ?_
  refine .seq (P := fun _ => True) (Record.yields_of_forall fun _ => trivial) ?_
  exact .map (Record.yields_of_forall fun _ _ _ _ _ _ _ _ _ _ h => h)

end ListedCourse

namespace CatalogFile

/-- The specs of a file that is read fit the room that the array of courses leaves. -/
theorem yields_record (room : Nat) :
    record.Yields (room + 2) fun file =>
      ∀ c ∈ file.courses, ∀ spec ∈ c.prerequisites, spec.nesting ≤ room := by
  have hcourses := (ListedCourse.yields_record room).decoder.list
  refine .seq (P := fun _ => True) (Record.yields_of_forall fun _ => trivial) ?_
  refine .seq (P := fun _ => True) (Record.yields_of_forall fun _ => trivial) ?_
  refine .map (Record.yields_member (hcourses.imp fun _ h _ _ _ _ => h) ?_)
  rintro _ ⟨⟩ _ _ _ _ c hc
  exact absurd hc List.not_mem_nil

/-- No spec of a catalog file is nested deeper than 124. -/
theorem nesting_le_of_read {bs : Text.Bytes} {file : CatalogFile} (h : read bs = .ok file) :
    ∀ c ∈ file.courses, ∀ spec ∈ c.prerequisites, spec.nesting ≤ 124 :=
  (yields_record 124).decoder.of_decodeText h

end CatalogFile

end Registrar
