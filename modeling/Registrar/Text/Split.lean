/-!
# Splitting texts

`splitAt c` cuts a list of characters at every occurrence of `c`: putting the parts together
again with `c` between them gives the list back (`intercalate_splitAt`), and no part contains `c`
(`not_mem_of_mem_splitAt`).
-/

namespace Registrar.Text

/-- The parts of a text between the occurrences of a character. -/
def splitAt (c : Char) : List Char → List (List Char)
  | [] => [[]]
  | x :: rest =>
    if x = c then [] :: splitAt c rest
    else match splitAt c rest with
      | [] => [[x]]
      | first :: others => (x :: first) :: others

theorem splitAt_ne_nil (c : Char) (cs : List Char) : splitAt c cs ≠ [] := by
  cases cs with
  | nil => simp [splitAt]
  | cons x rest =>
    unfold splitAt
    split
    · simp
    · split <;> simp

theorem intercalate_splitAt (c : Char) (cs : List Char) :
    [c].intercalate (splitAt c cs) = cs := by
  induction cs with
  | nil => simp [splitAt, List.intercalate]
  | cons x rest ih =>
    obtain ⟨first, others, h⟩ := List.exists_cons_of_ne_nil (splitAt_ne_nil c rest)
    unfold splitAt
    split
    · next hx => rw [h] at ih ⊢; cases others <;> simp_all [List.intercalate, List.intersperse]
    · rw [h] at ih ⊢; cases others <;> simp_all [List.intercalate, List.intersperse]

theorem not_mem_of_mem_splitAt {c : Char} {cs part : List Char} (h : part ∈ splitAt c cs) :
    c ∉ part := by
  induction cs generalizing part with
  | nil => simp_all [splitAt]
  | cons x rest ih =>
    obtain ⟨first, others, hs⟩ := List.exists_cons_of_ne_nil (splitAt_ne_nil c rest)
    simp only [splitAt, hs] at h ih
    split at h
    · rcases List.mem_cons.1 h with rfl | h
      · simp
      · exact ih h
    · next hx =>
      rcases List.mem_cons.1 h with rfl | h
      · simp [Ne.symm hx, ih (List.mem_cons_self ..)]
      · exact ih (List.mem_cons_of_mem _ h)

end Registrar.Text
