/-!
# First occurrences

`distinctBy key` keeps of the entries that share a key the first one, in order.  Course lists,
the courses of a prerequisite rule and the lists of missing courses are all cleared of
repetitions in this way.
-/

namespace Registrar

/-- The entries whose key is not among those seen, of each key the first. -/
def distinctAfter {α κ : Type} [BEq κ] (key : α → κ) (seen : List κ) : List α → List α
  | [] => []
  | a :: rest =>
    if seen.contains (key a) then distinctAfter key seen rest
    else a :: distinctAfter key (key a :: seen) rest

/-- Of the entries that share a key, the first. -/
def distinctBy {α κ : Type} [BEq κ] (key : α → κ) (entries : List α) : List α :=
  distinctAfter key [] entries

end Registrar
