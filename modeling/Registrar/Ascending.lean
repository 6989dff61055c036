/-!
# Ascending lists

Records are listed by ascending number.  `insertAscending` puts an entry in its place, after the
entries of the same number, and `ascending` sorts numbers and leaves repetitions out.
-/

namespace Registrar

/-- The entries with one more, put before the first of a greater key. -/
def insertAscending {α : Type} (key : α → UInt64) (a : α) : List α → List α
  | [] => [a]
  | b :: rest => if key a < key b then a :: b :: rest else b :: insertAscending key a rest

/-- The numbers in ascending order, each once. -/
def ascending (numbers : List UInt64) : List UInt64 :=
  numbers.foldl (fun sorted n => if sorted.contains n then sorted else insertAscending id n sorted)
    []

end Registrar
