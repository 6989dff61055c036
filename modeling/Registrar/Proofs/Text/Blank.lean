import Registrar.Text.Blank
import Mathlib.Data.List.Basic
import Mathlib.Data.List.DropRight
import Mathlib.Data.List.TakeDrop

/-!
# Texts without blanks around them

A trimmed text neither begins nor ends with a blank (`not_isBlank_of_mem_head?_trimChars`,
`not_isBlank_of_mem_getLast?_trimChars`), and a text that does neither is trimmed already
(`trimChars_eq_self_iff`).  Trimming leaves nothing exactly of a text of blanks
(`isBlankText_trim`).
-/

namespace Registrar.Text

/-- What all of some characters have, the first has also where others follow them. -/
theorem forall_mem_head?_append {P : Char → Prop} {cs : List Char} (hne : cs ≠ [])
    (h : ∀ c ∈ cs, P c) (more : List Char) : ∀ c ∈ (cs ++ more).head?, P c := by
  intro c hc
  rw [List.head?_append_of_ne_nil _ hne] at hc
  exact h c (List.mem_of_mem_head? hc)

theorem dropWhile_isBlank_eq_self {cs : List Char} (h : ∀ c ∈ cs.head?, isBlank c = false) :
    cs.dropWhile isBlank = cs := by
  cases cs with
  | nil => rfl
  | cons c rest => rw [List.dropWhile_cons, h c rfl]; rfl

/-- What is left behind the blanks in front does not begin with one. -/
theorem not_isBlank_of_mem_head?_dropWhile {cs : List Char} {c : Char}
    (h : c ∈ (cs.dropWhile isBlank).head?) : isBlank c = false := by
  have hnot := List.head?_dropWhile_not isBlank cs
  rw [Option.mem_def.mp h] at hnot
  exact hnot

theorem dropTrailingBlanks_front (cs : List Char) : dropTrailingBlanks cs <+: cs :=
  List.rdropWhile_prefix isBlank cs

theorem trimChars_sublist (cs : List Char) : (trimChars cs).Sublist cs :=
  (dropTrailingBlanks_front _).sublist.trans (List.dropWhile_sublist isBlank)

theorem not_isBlank_of_mem_head?_trimChars {cs : List Char} {c : Char}
    (h : c ∈ (trimChars cs).head?) : isBlank c = false := by
  obtain ⟨blanks, hfront⟩ : trimChars cs <+: cs.dropWhile isBlank := dropTrailingBlanks_front _
  have hne : trimChars cs ≠ [] := by
    intro hnil
    rw [hnil] at h
    exact absurd h (by simp)
  have hdrop : c ∈ (cs.dropWhile isBlank).head? := by
    rw [← hfront, List.head?_append_of_ne_nil _ hne]
    exact h
  exact not_isBlank_of_mem_head?_dropWhile hdrop

theorem not_isBlank_of_mem_getLast?_trimChars {cs : List Char} {c : Char}
    (h : c ∈ (trimChars cs).getLast?) : isBlank c = false := by
  rw [trimChars, dropTrailingBlanks, List.getLast?_reverse] at h
  exact not_isBlank_of_mem_head?_dropWhile h

/-- Characters that neither begin nor end with a blank are trimmed already. -/
theorem trimChars_eq_self {cs : List Char} (hfirst : ∀ c ∈ cs.head?, isBlank c = false)
    (hlast : ∀ c ∈ cs.getLast?, isBlank c = false) : trimChars cs = cs := by
  have hreverse : ∀ c ∈ cs.reverse.head?, isBlank c = false := by
    rw [List.head?_reverse]
    exact hlast
  rw [trimChars, dropWhile_isBlank_eq_self hfirst, dropTrailingBlanks,
    dropWhile_isBlank_eq_self hreverse, List.reverse_reverse]

/-- Just the characters that neither begin nor end with a blank are trimmed already. -/
theorem trimChars_eq_self_iff {cs : List Char} :
    trimChars cs = cs ↔
      (∀ c ∈ cs.head?, isBlank c = false) ∧ ∀ c ∈ cs.getLast?, isBlank c = false := by
  refine ⟨fun h => ⟨fun c hc => ?_, fun c hc => ?_⟩, fun h => trimChars_eq_self h.1 h.2⟩
  · exact not_isBlank_of_mem_head?_trimChars (h.symm ▸ hc)
  · exact not_isBlank_of_mem_getLast?_trimChars (h.symm ▸ hc)

/-- Trimmed characters are not all blank, unless there are none. -/
theorem all_isBlank_trimChars {cs : List Char} :
    (trimChars cs).all isBlank = true ↔ trimChars cs = [] := by
  refine ⟨fun h => ?_, fun h => by rw [h]; rfl⟩
  cases hcs : trimChars cs with
  | nil => rfl
  | cons c rest =>
    rw [hcs] at h
    have hblank : isBlank c = true := List.all_eq_true.mp h c List.mem_cons_self
    have hfirst : c ∈ (trimChars cs).head? := by
      rw [hcs]
      rfl
    exact absurd (hblank.symm.trans (not_isBlank_of_mem_head?_trimChars hfirst)) (by decide)

theorem isBlankText_trim {s : String} : isBlankText (trim s) = true ↔ trim s = "" := by
  rw [isBlankText, trim, String.toList_ofList, all_isBlank_trimChars]
  constructor
  · intro h
    rw [h]
  · intro h
    exact String.ofList_injective (h.trans rfl)

end Registrar.Text
