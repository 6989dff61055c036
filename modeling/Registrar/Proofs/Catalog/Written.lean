import Registrar.Proofs.Holdings.Closed
import Registrar.Proofs.Json.Faithful

/-!
# Catalog files that list courses

`CatalogFile.coursesJson` writes a catalog file of courses alone.  It is read back exactly if no
prerequisites are nested deeper than 124 (`CatalogFile.read_coursesJson`), since three arrays and
objects stand around them in the file.

`catalog_trees_are_at_most_62_deep` compares this with the depth of trees: a limit may be set to 64,
and a catalog file does not reach beyond 62.
-/

namespace Registrar

open Json
open Prerequisite (Spec Tree)

namespace ListedCourse

/-! ### Courses -/

/-- The members of a listed course that are always written. -/
def ownMembers (c : ListedCourse) : List (String × Value) :=
  [("id", .natural c.id.toNat), ("subject", .string c.subject), ("number", .string c.number),
    ("title", .string c.title), ("credits", .natural c.credits.toNat)]

/-- Writes a listed course. -/
def toJson (c : ListedCourse) : Value :=
  .object (c.ownMembers ++ Value.optional "prerequisites" c.prerequisites Spec.toJson)

/-- The nesting of the prerequisites, 0 if there are none. -/
def nesting (c : ListedCourse) : Nat :=
  (c.prerequisites.map Spec.nesting).getD 0

theorem isExact_toJson (c : ListedCourse) : c.toJson.IsExact := by
  have hown : Value.MembersAreExact c.ownMembers :=
    ⟨trivial, trivial, trivial, trivial, trivial, trivial⟩
  have hprerequisites := Value.membersAreExact_optional "prerequisites"
    (a := c.prerequisites) Spec.isExact_toJson
  exact Value.membersAreExact_append.mpr ⟨hown, hprerequisites⟩

/-- The record of a listed course but for its prerequisites. -/
def ownRecord : Record (Option Spec → ListedCourse) :=
  ListedCourse.mk <$> .required "id" .uint64 <*> .required "subject" .string
    <*> .required "number" .string <*> .withDefault "title" .string ""
    <*> .required "credits" .uint32

theorem reads_ownMembers (c : ListedCourse) (room : Nat) :
    ownRecord.Reads room ["id", "subject", "number", "title", "credits"] c.ownMembers
      (ListedCourse.mk c.id c.subject c.number c.title c.credits) :=
  c.course.reads_members ListedCourse.mk room

/-- A written course is read back exactly if there is room for its prerequisites. -/
theorem decoder_toJson (c : ListedCourse) {room : Nat} (h : room ≤ maxNesting) :
    record.decoder (room + 1) c.toJson.reading =
      if c.nesting ≤ room then .ok c else .error .malformed := by
  -- All other members are read as they were written, whatever the prerequisites are.
  have hown : record.decoder (room + 1) c.toJson.reading =
      ((Record.optional "prerequisites" Spec.decoder).ofWritten room
        (Value.optional "prerequisites" c.prerequisites Spec.toJson)).map
          (ListedCourse.mk c.id c.subject c.number c.title c.credits) := by
    refine (c.reads_ownMembers room).ofWritten_seq _ fun m hm => ?_
    rw [Value.fst_of_mem_optional hm]
    decide
  have hprerequisites := Record.ofWritten_optional (List.mem_singleton_self "prerequisites")
    Spec.decoder room c.prerequisites Spec.toJson Spec.reading_toJson_ne_null
  rw [hown, Record.optional, hprerequisites, nesting]
  obtain ⟨id, subject, number, title, credits, _ | spec⟩ := c
  · rfl
  · have hspec := Spec.decoderWithin_toJson spec (maxNesting + 1) room (by omega)
    simp only [Spec.decoder, hspec, Option.map_some, Option.getD_some]
    split_ifs <;> rfl

end ListedCourse

namespace CatalogFile

/-! ### Files -/

/-- Writes a file of courses alone. -/
def coursesJson (courses : List ListedCourse) : Value :=
  .object [("courses", .array (courses.map ListedCourse.toJson))]

theorem isExact_coursesJson (courses : List ListedCourse) : (coursesJson courses).IsExact := by
  refine ⟨Value.areExact_iff.mpr ?_, trivial⟩
  exact List.forall_mem_map.mpr fun c _ => c.isExact_toJson

/-- A written file of courses is read back exactly if there is room for all prerequisites. -/
theorem decoder_coursesJson (courses : List ListedCourse) {room : Nat} (h : room ≤ maxNesting) :
    record.decoder (room + 3) (coursesJson courses).reading =
      if ∀ c ∈ courses, c.nesting ≤ room then .ok ⟨courses, [], []⟩ else .error .malformed := by
  let listed : Record (List ListedCourse) :=
    Record.withDefault "courses" (.list ListedCourse.record.decoder) []
  have hcourses : listed.ofWritten (room + 2)
      [("courses", .array (courses.map ListedCourse.toJson))] =
      if ∀ c ∈ courses, c.nesting ≤ room then .ok courses else .error .malformed := by
    refine (Record.ofWritten_member (List.mem_singleton_self "courses") _ _ _ _).trans ?_
    exact Decoder.items_map fun c _ => c.decoder_toJson h
  -- Majors and students are left out, and their absence stands for none.
  have hknows : (CatalogFile.mk <$> listed).Knows "courses" :=
    (Record.knows_member (List.mem_singleton_self "courses")).map CatalogFile.mk
  have hfile : record.decoder (room + 3) (coursesJson courses).reading =
      (listed.ofWritten (room + 2)
        [("courses", .array (courses.map ListedCourse.toJson))]).map fun courses =>
          ⟨courses, [], []⟩ := by
    refine (Record.ofWritten_seq_of_absent (a := []) (room + 2) rfl ?_).trans ?_
    · exact List.forall_mem_singleton.mpr (hknows.seq_left _)
    · rw [Record.ofWritten_seq_of_absent (a := []) (room + 2) rfl
        (List.forall_mem_singleton.mpr hknows), Record.ofWritten_map]
      cases listed.ofWritten (room + 2) [("courses", .array (courses.map ListedCourse.toJson))] <;>
        rfl
  rw [hfile, hcourses]
  split_ifs <;> rfl

/-- Three arrays and objects stand around the prerequisites of a course in a file. -/
theorem read_coursesJson (courses : List ListedCourse) :
    read (Text.bytes (coursesJson courses).compact) =
      if ∀ c ∈ courses, c.nesting ≤ 124 then .ok ⟨courses, [], []⟩ else .error .malformed := by
  rw [read, Value.decodeText_compact _ (isExact_coursesJson courses)]
  exact decoder_coursesJson courses (by decide)

/-- One of the courses asks for a tree and the others for none, and the courses of the tree are
all listed. -/
structure ListsTree (courses : List ListedCourse) (c : ListedCourse) (spec : Spec) (t : Tree) :
    Prop where
  distinct : (courses.map ListedCourse.id).Nodup
  mem : c ∈ courses
  asks : c.prerequisites = some spec
  others : ∀ other ∈ courses, other ≠ c → other.prerequisites = none
  leaves : ∀ leaf ∈ t.root.leaves, leaf ∈ courses.map ListedCourse.id

variable {courses : List ListedCourse} {c : ListedCourse} {spec : Spec} {t : Tree} {limit : Nat}

theorem ListsTree.eq_of_asks (h : ListsTree courses c spec t) {other : ListedCourse}
    (hother : other ∈ courses) {spec' : Spec} (hasks : other.prerequisites = some spec') :
    other = c := by
  by_contra hne
  rw [h.others other hother hne] at hasks
  exact absurd hasks (by simp)

theorem ListsTree.consistent (h : ListsTree courses c spec t)
    (hbuilt : Tree.ofSpec spec limit = .ok t) : Consistent ⟨courses, [], []⟩ limit where
  courses_distinct := h.distinct
  prerequisites_admitted := by
    intro other hother spec' hasks
    obtain rfl := h.eq_of_asks hother hasks
    obtain rfl := Option.some.inj (hasks.symm.trans h.asks)
    exact ⟨t, hbuilt, h.leaves⟩
  majors_distinct := List.nodup_nil
  requirements_distinct := List.nodup_nil
  requirement_courses := by simp
  students_distinct := List.nodup_nil
  declared_majors := by simp
  declared_once := by simp
  enrolled_courses := by simp
  enrolled_once := by simp

/-- All prerequisites of the courses fit into a file if those of the one course do. -/
theorem ListsTree.nesting_le_iff (h : ListsTree courses c spec t) {n : Nat} :
    (∀ other ∈ courses, other.nesting ≤ n) ↔ spec.nesting ≤ n := by
  have hnesting : c.nesting = spec.nesting := by
    rw [ListedCourse.nesting, h.asks]
    rfl
  constructor
  · intro hall
    rw [← hnesting]
    exact hall c h.mem
  · intro hle other hother
    -- No other course has prerequisites.
    by_cases heq : other = c
    · rw [heq, hnesting]
      exact hle
    · rw [ListedCourse.nesting, h.others other hother heq]
      exact Nat.zero_le n

end CatalogFile

namespace Holdings

open CatalogFile (ListsTree coursesJson)

/-! ### Trees in catalog files -/

variable {courses : List ListedCourse} {c : ListedCourse} {spec : Spec} {t : Tree} {limit : Nat}

/-- The file of courses with an admitted tree is imported up to a depth of 62, and malformed
beyond. -/
theorem ofBytes_coursesJson (h : ListsTree courses c spec t)
    (hbuilt : Tree.ofSpec spec limit = .ok t) :
    ofBytes (Text.bytes (coursesJson courses).compact) limit =
      if t.depth ≤ 62 then .ok (CatalogFile.holdings ⟨courses, [], []⟩ limit)
      else .error (.json .malformed) := by
  have hfits : (∀ other ∈ courses, other.nesting ≤ 124) ↔ t.depth ≤ 62 :=
    h.nesting_le_iff.trans (Tree.nesting_le_two_mul_iff hbuilt 62)
  rw [ofBytes, CatalogFile.read_coursesJson]
  by_cases hdepth : t.depth ≤ 62
  · rw [if_pos (hfits.mpr hdepth), if_pos hdepth]
    exact (ofFile_eq_ok_iff _).mpr ⟨h.consistent hbuilt, rfl⟩
  · rw [if_neg (mt hfits.mp hdepth), if_neg hdepth]
    rfl

theorem tree?_of_listsTree (h : ListsTree courses c spec t)
    (hbuilt : Tree.ofSpec spec limit = .ok t) :
    (CatalogFile.holdings ⟨courses, [], []⟩ limit).prerequisites.tree? c.id = some t := by
  obtain ⟨t', ht', htree⟩ :=
    ((CatalogFile.reflects_holdings (h.consistent hbuilt)).tree_of_listed c h.mem).2 spec h.asks
  obtain rfl := Except.ok.inj (hbuilt.symm.trans ht')
  exact htree

/-- No text of a catalog file, however it is written, holds a tree that is deeper than 62. -/
theorem depth_le_of_ofBytes {bs : Text.Bytes} {h : Holdings} (himport : ofBytes bs limit = .ok h)
    {course : CourseId} (ht : h.prerequisites.tree? course = some t) : t.depth ≤ 62 := by
  obtain ⟨spec, hbuilt, hnesting⟩ := exists_spec_of_ofBytes himport ht
  exact (Tree.nesting_le_two_mul_iff hbuilt 62).mp hnesting

/-- **A tree can come with a catalog file exactly if it is at most 62 deep.**  Limits up to 62 can
thus be used in full.  At limits of 63 and 64 deeper trees are admitted, but the file of the courses
is malformed, and no other text brings such a tree in. -/
theorem catalog_trees_are_at_most_62_deep (limit : Nat) :
    (∀ spec t courses c, Tree.ofSpec spec limit = .ok t → ListsTree courses c spec t →
      (t.depth ≤ 62 → ∃ h, ofBytes (Text.bytes (coursesJson courses).compact) limit = .ok h ∧
        h.prerequisites.tree? c.id = some t) ∧
      (62 < t.depth →
        ofBytes (Text.bytes (coursesJson courses).compact) limit = .error (.json .malformed))) ∧
    (limit ≤ 62 → ∀ spec t, Tree.ofSpec spec limit = .ok t → t.depth ≤ 62) ∧
    ∀ bs h, ofBytes bs limit = .ok h →
      ∀ course t, h.prerequisites.tree? course = some t → t.depth ≤ 62 := by
  refine ⟨fun spec t courses c hbuilt hlists => ⟨fun hdepth => ?_, fun hdepth => ?_⟩,
    fun hlimit spec t hbuilt => ?_, fun bs h himport course t ht => depth_le_of_ofBytes himport ht⟩
  · have himport := ofBytes_coursesJson hlists hbuilt
    rw [if_pos hdepth] at himport
    exact ⟨_, himport, tree?_of_listsTree hlists hbuilt⟩
  · rw [ofBytes_coursesJson hlists hbuilt, if_neg (by omega)]
  · -- A tree that is admitted keeps to the limit, wherever it comes from.
    have hle := (Tree.depth_of_ofSpec hbuilt).2
    have heffective : Prerequisite.effectiveLimit limit ≤ 62 := by
      simp only [Prerequisite.effectiveLimit, Prerequisite.maxDepth]
      omega
    omega

/-- A course that asks for a tree over one other course can be listed behind that one. -/
theorem listsTree_of_leaves (spec : Spec) {t : Tree} (hleaves : t.root.leaves = [1]) :
    ListsTree [⟨1, "CS", "101", "", 3, none⟩, ⟨2, "CS", "102", "", 3, some spec⟩]
      ⟨2, "CS", "102", "", 3, some spec⟩ spec t where
  distinct := by simp
  mem := by simp
  asks := rfl
  others := by simp
  leaves := by
    intro leaf hleaf
    rw [hleaves] at hleaf
    rw [List.mem_singleton.mp hleaf]
    exact List.mem_cons_self

/-- Inside of 61 groups of one a course can still come with a catalog file, inside of 62 not any
more. -/
theorem catalog_trees_are_at_most_62_deep_of_nested_groups :
    let spec k : Spec := Nat.repeat (fun s => .ofGroup "AND" [s]) k (.ofCourse 1)
    let text k := Text.bytes (coursesJson [⟨1, "CS", "101", "", 3, none⟩,
      ⟨2, "CS", "102", "", 3, some (spec k)⟩]).compact
    ∃ t h, Tree.ofSpec (spec 61) 62 = .ok t ∧ ofBytes (text 61) 62 = .ok h ∧
      h.prerequisites.tree? 2 = some t ∧ t.depth = 62 ∧
      (∀ t', Tree.ofSpec (spec 61) 62 = .ok t' → t'.depth ≤ 62) ∧
      (∀ course t', h.prerequisites.tree? course = some t' → t'.depth ≤ 62) ∧
      ofBytes (text 62) 63 = .error (.json .malformed) := by
  intro spec text
  let t k : Tree := ⟨Nat.repeat (fun r => .group .and [r]) k (.course 1), k + 1⟩
  have hbuilt : Tree.ofSpec (spec 61) 62 = .ok (t 61) := by decide +kernel
  have hbuilt' : Tree.ofSpec (spec 62) 63 = .ok (t 62) := by decide +kernel
  have hlists := listsTree_of_leaves (t := t 61) (spec 61) (by decide +kernel)
  have hlists' := listsTree_of_leaves (t := t 62) (spec 62) (by decide +kernel)
  obtain ⟨hknown, hlimited, hstored⟩ := catalog_trees_are_at_most_62_deep 62
  obtain ⟨h, himport, htree⟩ := (hknown _ _ _ _ hbuilt hlists).1 (by decide)
  refine ⟨t 61, h, hbuilt, himport, htree, rfl, ?_, ?_, ?_⟩
  · exact hlimited (by decide) (spec 61)
  · exact hstored _ h himport
  · exact ((catalog_trees_are_at_most_62_deep 63).1 _ _ _ _ hbuilt' hlists').2 (by decide)

/-- At a limit of 63 a spec that is read from its own text, and admitted, is malformed in the file
of its courses. -/
theorem admitted_spec_is_malformed_in_catalog :
    let spec : Spec := Nat.repeat (fun s => .ofGroup "AND" [s]) 62 (.ofCourse 1)
    let courses : List ListedCourse :=
      [⟨1, "CS", "101", "", 3, none⟩, ⟨2, "CS", "102", "", 3, some spec⟩]
    ∃ t c, Tree.ofSpec spec 63 = .ok t ∧ ListsTree courses c spec t ∧
      decodeText Spec.decoder (Text.bytes spec.toJson.compact) = .ok spec ∧
      ofBytes (Text.bytes (coursesJson courses).compact) 63 = .error (.json .malformed) := by
  intro spec courses
  let t : Tree := ⟨Nat.repeat (fun r => .group .and [r]) 62 (.course 1), 63⟩
  have hbuilt : Tree.ofSpec spec 63 = .ok t := by decide +kernel
  have hlists := listsTree_of_leaves (t := t) spec (by decide +kernel)
  have hnesting : spec.nesting ≤ maxNesting := by decide +kernel
  refine ⟨t, _, hbuilt, hlists, ?_, ?_⟩
  · rw [Spec.decodeText_toJson, if_pos hnesting]
  · rw [ofBytes_coursesJson hlists hbuilt, if_neg (by decide)]

end Holdings

end Registrar
