import Registrar.Calendar.Date
import Registrar.Proofs.Text.Decimal

/-!
# Written dates read back

A date is written as the digits of its year, month and day, with a sign in front where the year has
one.  Each part is as wide as a reader takes it: month and day have two digits, and a year without a
sign has four (`length_padded`).  So a part is read up to what follows it (`takeYear?_yearText`,
`takePart?_padded`), and `Date.read?_text` puts the parts together.
-/

namespace Registrar.Calendar

open Text

/-! ### Days and months -/

theorem daysInMonth_le (year : Int) (month : Nat) : daysInMonth year month ≤ 31 := by
  unfold daysInMonth
  split
  · split <;> decide
  all_goals decide

theorem month_le_of_daysInMonth_pos {year : Int} {month : Nat} (h : 1 ≤ daysInMonth year month) :
    month ≤ 12 := by
  unfold daysInMonth at h
  split at h <;> omega

namespace Date

theorem month_le (d : Date) : d.month ≤ 12 :=
  month_le_of_daysInMonth_pos (Nat.le_trans d.day_mem.1 d.day_mem.2)

theorem day_le (d : Date) : d.day ≤ 31 :=
  Nat.le_trans d.day_mem.2 (daysInMonth_le d.year d.month)

theorem ofParts?_self (d : Date) : ofParts? d.year d.month d.day = some d := by
  rw [ofParts?, dif_pos d.year_mem, dif_pos d.day_mem]

/-! ### Digits of a part -/

theorem toList_padded (width n : Nat) : (padded width n).toList =
    List.replicate (width - (Nat.toDigits 10 n).length) '0' ++ Nat.toDigits 10 n := by
  rw [padded, String.toList_ofList]

theorem isDigit_of_mem_padded {width n : Nat} {c : Char} (h : c ∈ (padded width n).toList) :
    c.isDigit = true := by
  rw [toList_padded, List.mem_append] at h
  rcases h with h | h
  · rw [List.eq_of_mem_replicate h]
    decide
  · exact isDigit_of_mem_toDigits h

theorem padded_ne_nil (width n : Nat) : (padded width n).toList ≠ [] := by
  rw [toList_padded]
  exact List.append_ne_nil_of_right_ne_nil _ Nat.toDigits_ne_nil

theorem ofDigitChars_padded (width n : Nat) :
    Nat.ofDigitChars 10 (padded width n).toList 0 = n := by
  rw [toList_padded, Nat.ofDigitChars_append, Nat.ofDigitChars_replicate_zero, Nat.mul_zero,
    Nat.ofDigitChars_ten_toDigits]

/-- A number that fits the width is written with exactly so many digits. -/
theorem length_padded {width n : Nat} (hwidth : 0 < width) (h : n < Nat.pow 10 width) :
    (padded width n).toList.length = width := by
  have hlength : (Nat.toDigits 10 n).length ≤ width :=
    (Nat.length_toDigits_le_iff (by decide) hwidth).mpr h
  rw [toList_padded, List.length_append, List.length_replicate]
  omega

/-! ### Reading a part -/

/-- Digits are taken off the front, up to the width or to what is no digit. -/
theorem takeNumber?_append {width : Nat} {ds cs : List Char} (hds : ∀ c ∈ ds, c.isDigit = true)
    (hne : ds ≠ []) (hle : ds.length ≤ width) (hstop : ds.length = width ∨ EndsNumber cs) :
    takeNumber? width (ds ++ cs) = some (Nat.ofDigitChars 10 ds 0, cs) := by
  have hends : EndsNumber (cs.take (width - ds.length)) := by
    intro c hc
    rw [List.head?_take] at hc
    split_ifs at hc with hfull
    · exact absurd hc (Option.not_mem_none c)
    · exact hstop.resolve_left (by omega) c hc
  have hdigits : ((ds ++ cs).take width).takeWhile Char.isDigit = ds := by
    rw [List.take_append, List.take_of_length_le hle, takeWhile_isDigit_append hds hends]
  have hempty : ds.isEmpty = false := List.isEmpty_eq_false_iff.mpr hne
  simp only [takeNumber?, hdigits, hempty, Bool.false_eq_true, if_false, List.drop_left']

theorem takeNumber?_padded {width w n : Nat} {cs : List Char}
    (hle : (padded w n).toList.length ≤ width)
    (hstop : (padded w n).toList.length = width ∨ EndsNumber cs) :
    takeNumber? width ((padded w n).toList ++ cs) = some (n, cs) := by
  have htake := takeNumber?_append (fun _ => isDigit_of_mem_padded) (padded_ne_nil w n) hle hstop
  rwa [ofDigitChars_padded] at htake

/-- Where any number of digits may stand, a number is taken up to what is no digit. -/
theorem takeNumber?_length_padded (w n : Nat) {cs : List Char} (hcs : EndsNumber cs) :
    takeNumber? ((padded w n).toList ++ cs).length ((padded w n).toList ++ cs) = some (n, cs) := by
  refine takeNumber?_padded ?_ (.inr hcs)
  rw [List.length_append]
  exact Nat.le_add_right _ _

theorem isBlank_of_mem_padded {w n : Nat} {c : Char} (h : c ∈ (padded w n).toList) :
    isBlank c = false :=
  isBlank_of_isDigit (isDigit_of_mem_padded h)

/-- No blanks are taken off in front of a number. -/
theorem dropWhile_isBlank_padded (w n : Nat) (cs : List Char) :
    ((padded w n).toList ++ cs).dropWhile isBlank = (padded w n).toList ++ cs :=
  dropWhile_isBlank_eq_self
    (forall_mem_head?_append (padded_ne_nil w n) (fun _ => isBlank_of_mem_padded) cs)

theorem takePart?_padded {n : Nat} (h : n < 100) (cs : List Char) :
    takePart? ((padded 2 n).toList ++ cs) = some (n, cs) := by
  have hlength : (padded 2 n).toList.length = 2 := length_padded (by decide) h
  rw [takePart?, dropWhile_isBlank_padded]
  exact takeNumber?_padded (Nat.le_of_eq hlength) (.inl hlength)

theorem takeHyphen?_cons (cs : List Char) : takeHyphen? ('-' :: cs) = some cs := by
  have hblank : isBlank '-' = false := by decide
  rw [takeHyphen?, List.dropWhile_cons, hblank]
  rfl

/-! ### Years -/

/-- The year as it is written. -/
def yearText (year : Int) : String :=
  (if year < 0 then "-" else if year > 9999 then "+" else "") ++ padded 4 year.natAbs

theorem yearText_ne_nil (year : Int) : (yearText year).toList ≠ [] := by
  rw [yearText, String.toList_append]
  exact List.append_ne_nil_of_right_ne_nil _ (padded_ne_nil 4 year.natAbs)

theorem isBlank_of_mem_yearText {year : Int} {c : Char} (h : c ∈ (yearText year).toList) :
    isBlank c = false := by
  rw [yearText, String.toList_append, List.mem_append] at h
  rcases h with hsign | hdigits
  · split_ifs at hsign
    · rw [List.mem_singleton.mp hsign]
      decide
    · rw [List.mem_singleton.mp hsign]
      decide
    · exact absurd hsign List.not_mem_nil
  · exact isBlank_of_mem_padded hdigits

theorem takeYear?_of_isDigit {cs : List Char} (h : ∀ c ∈ cs.head?, c.isDigit = true) :
    takeYear? cs = (takeNumber? 4 cs).map fun (n, rest) => ((n : Int), rest) := by
  rw [takeYear?]
  · intro rest heq
    exact absurd (h '-' (by rw [heq]; rfl)) (by decide)
  · intro rest heq
    exact absurd (h '+' (by rw [heq]; rfl)) (by decide)

/-- A written year is read up to what is no digit. -/
theorem takeYear?_yearText (year : Int) {cs : List Char} (hcs : EndsNumber cs) :
    takeYear? ((yearText year).toList ++ cs) = some (year, cs) := by
  -- A sign lets the year have any number of digits, and without one it has four.
  have hsigned := takeNumber?_length_padded 4 year.natAbs hcs
  by_cases hneg : year < 0
  · have htext : (yearText year).toList = '-' :: (padded 4 year.natAbs).toList := by
      rw [yearText, if_pos hneg, String.toList_append]
      rfl
    have hvalue : -(year.natAbs : Int) = year := by omega
    rw [htext, List.cons_append, takeYear?, hsigned]
    simp only [Option.map_some, hvalue]
  · have hvalue : (year.natAbs : Int) = year := Int.natAbs_of_nonneg (Int.not_lt.mp hneg)
    by_cases hlong : year > 9999
    · have htext : (yearText year).toList = '+' :: (padded 4 year.natAbs).toList := by
        rw [yearText, if_neg hneg, if_pos hlong, String.toList_append]
        rfl
      rw [htext, List.cons_append, takeYear?, hsigned]
      simp only [Option.map_some, hvalue]
    · have htext : (yearText year).toList = (padded 4 year.natAbs).toList := by
        rw [yearText, if_neg hneg, if_neg hlong, String.empty_append]
      have hlimit : Nat.pow 10 4 = 10000 := rfl
      have hlength : (padded 4 year.natAbs).toList.length = 4 :=
        length_padded (by decide) (by omega)
      rw [htext, takeYear?_of_isDigit, takeNumber?_padded (Nat.le_of_eq hlength) (.inl hlength)]
      · simp only [Option.map_some, hvalue]
      · exact forall_mem_head?_append (padded_ne_nil _ _) (fun _ => isDigit_of_mem_padded) cs

/-! ### Dates -/

theorem toList_text (d : Date) : d.text.toList =
    (yearText d.year).toList ++ '-' :: ((padded 2 d.month).toList ++
      '-' :: ((padded 2 d.day).toList ++ [])) := by
  have htext : d.text = yearText d.year ++ "-" ++ padded 2 d.month ++ "-" ++ padded 2 d.day := rfl
  simp [htext]

/-- A part that is followed by a hyphen ends there. -/
theorem endsNumber_hyphen (cs : List Char) : EndsNumber ('-' :: cs) := by
  intro c hc
  rw [← Option.some.inj hc]
  decide

theorem read?_text (d : Date) : read? d.text = some d := by
  -- Month and day have two digits, which is all that is read of them.
  have hmonth : d.month < 100 := Nat.lt_of_le_of_lt d.month_le (by decide)
  have hday : d.day < 100 := Nat.lt_of_le_of_lt d.day_le (by decide)
  have hyear := takeYear?_yearText d.year (endsNumber_hyphen
    ((padded 2 d.month).toList ++ '-' :: ((padded 2 d.day).toList ++ [])))
  rw [read?, toList_text, dropWhile_isBlank_eq_self]
  · simp only [hyear, takeHyphen?_cons, takePart?_padded hmonth, takePart?_padded hday,
      List.all_nil, if_true, ofParts?_self, Option.bind_eq_bind, Option.bind_some]
  · exact forall_mem_head?_append (yearText_ne_nil d.year) (fun _ => isBlank_of_mem_yearText) _

example : (ofParts? (-44) 3 15).map text = some "-0044-03-15" := by decide +kernel

end Date

end Registrar.Calendar
