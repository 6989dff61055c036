import Registrar.Prerequisite.Tree

/-!
# The store of prerequisites

A `Store` holds at most one tree a course.  It knows nothing of the catalog: that courses and
leaves exist is checked by those who write to it.  `Store.tree?` is what a store means; `replace`
and `remove` change it at one course and nowhere else, and answer with the tree that was there.
-/

namespace Registrar.Prerequisite

/-- At most one tree a course. -/
structure Store where
  entries : List (CourseId × Tree)
  deriving DecidableEq, Repr

namespace Store

/-- The store without trees. -/
def empty : Store := ⟨[]⟩

instance : Inhabited Store := ⟨empty⟩

/-- The tree of a course. -/
def tree? (s : Store) (course : CourseId) : Option Tree :=
  s.entries.lookup course

/-- The entries of the other courses. -/
def others (s : Store) (course : CourseId) : List (CourseId × Tree) :=
  s.entries.filter fun entry => entry.1 != course

/-- Gives a course a tree; answers with the one it had. -/
def replace (s : Store) (course : CourseId) (t : Tree) : Option Tree × Store :=
  (s.tree? course, ⟨(course, t) :: s.others course⟩)

/-- Takes the tree of a course away; answers with it. -/
def remove (s : Store) (course : CourseId) : Option Tree × Store :=
  (s.tree? course, ⟨s.others course⟩)

/-- The number of courses with a tree. -/
def size (s : Store) : Nat :=
  s.entries.length

end Store

end Registrar.Prerequisite
