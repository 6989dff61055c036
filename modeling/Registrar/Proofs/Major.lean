import Registrar.Major
import Registrar.Proofs.Text.Blank
import Mathlib.Data.List.TakeWhile

/-!
# Reading the text of a major key

A key is read from a text by cutting the trimmed text at its last separator.  The separator is the
underscore, and the slash only of a text without underscores (`MajorKey.separator`).  So a text
names one key at most, and `MajorKey.Names` says which (`MajorKey.read?_eq_some_iff`).

The same text may have been written for another key.  `MajorKey.read?_joined` says when a key is
found in what has been written for it: the last separator has to be the one that was written, and
no blank may come off at the two ends.  `MajorKey.reading_inverts_writing` gathers the laws.
-/

namespace Registrar.MajorKey

open Text (isBlank trim trimChars trimChars_sublist trimChars_eq_self_iff)

/-! ### The last occurrence of a character -/

variable {c : Char} {cs front back : List Char}

/-- A list without the character is passed as a whole when it is read from its end. -/
theorem forall_mem_reverse_bne (h : c ∉ cs) : ∀ x ∈ cs.reverse, (x != c) = true := by
  intro x hx
  have hne : x ≠ c := fun heq => h (heq ▸ List.mem_reverse.mp hx)
  exact bne_iff_ne.mpr hne

theorem splitAtLast?_of_not_mem (h : c ∉ cs) : splitAtLast? c cs = none := by
  have hall : cs.reverse.dropWhile (· != c) = [] :=
    List.dropWhile_eq_nil_iff.mpr (forall_mem_reverse_bne h)
  simp only [splitAtLast?, hall]

/-- A list is cut in front of the part in which the character does not occur any more. -/
theorem splitAtLast?_append (h : c ∉ back) :
    splitAtLast? c (front ++ c :: back) = some (front, back) := by
  have hback := forall_mem_reverse_bne h
  have hreverse : (front ++ c :: back).reverse = back.reverse ++ c :: front.reverse := by
    simp
  simp [splitAtLast?, hreverse, List.dropWhile_append_of_pos hback,
    List.takeWhile_append_of_pos hback]

theorem exists_last_of_mem (h : c ∈ cs) : ∃ front back, cs = front ++ c :: back ∧ c ∉ back := by
  obtain ⟨back, front, hcs, hback⟩ := List.eq_append_cons_of_mem (List.mem_reverse.mpr h)
  refine ⟨front.reverse, back.reverse, ?_, fun hmem => hback (List.mem_reverse.mp hmem)⟩
  rw [← List.reverse_reverse cs, hcs]
  simp

theorem splitAtLast?_eq_some_iff :
    splitAtLast? c cs = some (front, back) ↔ cs = front ++ c :: back ∧ c ∉ back := by
  constructor
  · intro h
    by_cases hmem : c ∈ cs
    · obtain ⟨front', back', rfl, hback'⟩ := exists_last_of_mem hmem
      rw [splitAtLast?_append hback'] at h
      obtain ⟨rfl, rfl⟩ := Prod.mk.inj (Option.some.inj h)
      exact ⟨rfl, hback'⟩
    · rw [splitAtLast?_of_not_mem hmem] at h
      exact absurd h (by simp)
  · rintro ⟨rfl, hback⟩
    exact splitAtLast?_append hback

/-! ### Keys that a text names -/

/-- Code and designation with a separator between them. -/
def joined (separator : Char) (k : MajorKey) : String :=
  k.code ++ String.singleton separator ++ k.designation

/-- What a text is cut at: its underscores, or its slashes if it has no underscore. -/
def separator (text : String) : Char :=
  if '_' ∈ text.toList then '_' else '/'

/-- The text is cut at its last separator into the two parts of the key, neither of which is
empty. -/
structure Names (text : String) (k : MajorKey) : Prop where
  code_ne_empty : k.code ≠ ""
  designation_ne_empty : k.designation ≠ ""
  text_eq : text = k.joined (separator text)
  separator_not_mem : separator text ∉ k.designation.toList

theorem toList_joined (s : Char) (k : MajorKey) :
    (k.joined s).toList = k.code.toList ++ s :: k.designation.toList := by
  simp [joined]

theorem text_eq_joined (k : MajorKey) : k.text = k.joined '_' := rfl

/-- The second separator is looked for only if there is no first one. -/
theorem splitAtLast?_separator (text : String) :
    (splitAtLast? '_' text.toList <|> splitAtLast? '/' text.toList) =
      splitAtLast? (separator text) text.toList := by
  unfold separator
  split_ifs with h
  · obtain ⟨front, back, htext, hback⟩ := exists_last_of_mem h
    rw [htext, splitAtLast?_append hback]
    rfl
  · rw [splitAtLast?_of_not_mem h]
    rfl

/-- Just the key that the trimmed text names is read. -/
theorem read?_eq_some_iff {raw : String} {k : MajorKey} :
    read? raw = some k ↔ Names (trim raw) k := by
  have hchars : trimChars raw.toList = (trim raw).toList := String.toList_ofList.symm
  simp only [read?, hchars, splitAtLast?_separator]
  constructor
  · intro h
    split at h
    · next x code y designation hsplit =>
      obtain ⟨htext, hlast⟩ := splitAtLast?_eq_some_iff.mp hsplit
      obtain rfl := Option.some.inj h
      refine ⟨?_, ?_, ?_, ?_⟩
      · simp [← String.toList_eq_nil_iff]
      · simp [← String.toList_eq_nil_iff]
      · rw [← String.toList_inj, toList_joined, String.toList_ofList, String.toList_ofList]
        exact htext
      · rw [String.toList_ofList]
        exact hlast
    · exact absurd h (by simp)
  · rintro ⟨hcode, hdesignation, htext, hlast⟩
    -- The parts are not empty, so the reader does not refuse them.
    have hsplit : splitAtLast? (separator (trim raw)) (trim raw).toList =
        some (k.code.toList, k.designation.toList) := by
      refine splitAtLast?_eq_some_iff.mpr ⟨?_, hlast⟩
      rw [← toList_joined, ← htext]
    obtain ⟨x, code, hx⟩ := List.exists_cons_of_ne_nil
      (mt String.toList_eq_nil_iff.mp hcode)
    obtain ⟨y, designation, hy⟩ := List.exists_cons_of_ne_nil
      (mt String.toList_eq_nil_iff.mp hdesignation)
    rw [hsplit, hx, hy]
    simp only [← hx, ← hy, String.ofList_toList]

/-! ### What has been written for a key -/

/-- Neither part is empty, and the key with a separator in it has no blanks at its two ends. -/
structure Trimmed (k : MajorKey) : Prop where
  code_ne_empty : k.code ≠ ""
  designation_ne_empty : k.designation ≠ ""
  code_begins : ∀ c ∈ k.code.toList.head?, isBlank c = false
  designation_ends : ∀ c ∈ k.designation.toList.getLast?, isBlank c = false

theorem trim_joined_eq_self_iff {k : MajorKey} (hcode : k.code ≠ "")
    (hdesignation : k.designation ≠ "") (s : Char) :
    trim (k.joined s) = k.joined s ↔ k.Trimmed := by
  have hfirst : (k.joined s).toList.head? = k.code.toList.head? := by
    rw [toList_joined, List.head?_append_of_ne_nil _ (mt String.toList_eq_nil_iff.mp hcode)]
  have hlast : (k.joined s).toList.getLast? = k.designation.toList.getLast? := by
    obtain ⟨x, rest, hx⟩ := List.exists_cons_of_ne_nil (mt String.toList_eq_nil_iff.mp hdesignation)
    rw [toList_joined, List.getLast?_append_cons, hx, List.getLast?_cons_cons]
  rw [← String.toList_inj, trim, String.toList_ofList, trimChars_eq_self_iff, hfirst, hlast]
  exact ⟨fun h => ⟨hcode, hdesignation, h.1, h.2⟩, fun h => ⟨h.code_begins, h.designation_ends⟩⟩

/-- What is left of a text and is as long as the text can only be the text. -/
theorem trim_joined_of_eq_joined {k : MajorKey} {s s' : Char}
    (h : trim (k.joined s) = k.joined s') : s' = s ∧ trim (k.joined s) = k.joined s := by
  -- Both texts are the two parts with one character between them.
  have hlength : (trimChars (k.joined s).toList).length = (k.joined s).toList.length := by
    rw [← String.toList_ofList (l := trimChars _), ← trim, h]
    simp [toList_joined]
  have htrim : trim (k.joined s) = k.joined s := by
    rw [← String.toList_inj, trim, String.toList_ofList]
    exact (trimChars_sublist _).eq_of_length hlength
  refine ⟨?_, htrim⟩
  rw [htrim, ← String.toList_inj, toList_joined, toList_joined] at h
  exact (List.cons.inj (List.append_cancel_left h)).1.symm

/-- A key is found in what has been written for it if nothing is trimmed and the separator that
has been written is the last one of the text. -/
theorem read?_joined {k : MajorKey} {s : Char} :
    read? (k.joined s) = some k ↔
      k.Trimmed ∧ separator (k.joined s) = s ∧ s ∉ k.designation.toList := by
  rw [read?_eq_some_iff]
  constructor
  · rintro ⟨hcode, hdesignation, htext, hlast⟩
    obtain ⟨hseparator, htrim⟩ := trim_joined_of_eq_joined htext
    rw [hseparator] at hlast
    rw [htrim] at hseparator
    exact ⟨(trim_joined_eq_self_iff hcode hdesignation s).mp htrim, hseparator, hlast⟩
  · rintro ⟨htrimmed, hseparator, hlast⟩
    have hcode := htrimmed.code_ne_empty
    have hdesignation := htrimmed.designation_ne_empty
    rw [(trim_joined_eq_self_iff hcode hdesignation s).mpr htrimmed]
    exact ⟨hcode, hdesignation, by rw [hseparator], by rwa [hseparator]⟩

theorem separator_joined_underscore (k : MajorKey) : separator (k.joined '_') = '_' := by
  simp [separator, toList_joined]

theorem separator_joined_slash_iff {k : MajorKey} :
    separator (k.joined '/') = '/' ↔ '_' ∉ k.code.toList ∧ '_' ∉ k.designation.toList := by
  simp [separator, toList_joined]

/-- **Reading inverts writing.**  A key is read from its text exactly if neither part is empty, no
blank stands at the outer ends, and the designation has no underscore.  With a slash in the place
of the underscore the code may not have an underscore either, nor the designation a slash.
Whatever the text, the key that is read is the one that the trimmed text names, and a text that
names none is refused. -/
theorem reading_inverts_writing :
    (∀ k : MajorKey, read? k.text = some k ↔ k.Trimmed ∧ '_' ∉ k.designation.toList) ∧
    (∀ k : MajorKey, read? (k.joined '/') = some k ↔
      (k.Trimmed ∧ '_' ∉ k.designation.toList) ∧
        '_' ∉ k.code.toList ∧ '/' ∉ k.designation.toList) ∧
    (∀ raw k, read? raw = some k ↔ Names (trim raw) k) ∧
    ∀ raw, read? raw = none ↔ ¬ ∃ k, Names (trim raw) k := by
  refine ⟨fun k => ?_, fun k => ?_, fun raw k => read?_eq_some_iff, fun raw => ?_⟩
  · rw [text_eq_joined, read?_joined, separator_joined_underscore]
    exact and_congr_right fun _ => and_iff_right rfl
  · -- A slash separates only where there is no underscore, on either side of it.
    rw [read?_joined, separator_joined_slash_iff]
    constructor
    · rintro ⟨htrimmed, ⟨hcode, hdesignation⟩, hslash⟩
      exact ⟨⟨htrimmed, hdesignation⟩, hcode, hslash⟩
    · rintro ⟨⟨htrimmed, hdesignation⟩, hcode, hslash⟩
      exact ⟨htrimmed, ⟨hcode, hdesignation⟩, hslash⟩
  · simp only [Option.eq_none_iff_forall_ne_some, ne_eq, read?_eq_some_iff, not_exists]

/-- An underscore in the designation moves to the code, and blanks at the ends are lost. -/
example : read? (MajorKey.text ⟨" CS", "BS_HONORS"⟩) = some ⟨"CS_BS", "HONORS"⟩ := by
  decide

end Registrar.MajorKey
