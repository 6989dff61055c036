import Registrar.Json.Numeral

/-!
# Numerals of natural numbers

The numeral that a natural number is written as stands for that number (`natural?_ofNat`).  If the
number has 64 bits, no digit is dropped from its significand, and it is not too large for a binary
double (`overflows_ofNat`).
-/

namespace Registrar.Json.Numeral

@[simp] theorem natural?_ofNat (n : Nat) : (Numeral.ofNat n).natural? = some n := by
  simp only [Numeral.ofNat, Numeral.natural?, Nat.ofDigitChars_ten_toDigits]

/-! ### Overflow -/

theorem le_ofDigitChars (ds : List Char) (high : Nat) : high ≤ Nat.ofDigitChars 10 ds high := by
  induction ds generalizing high with
  | nil => exact Nat.le_of_eq Nat.ofDigitChars_nil.symm
  | cons d rest ih =>
    rw [Nat.ofDigitChars_cons]
    exact Nat.le_trans (by omega) (ih _)

/-- Digits of a number of 64 bits all go into the significand. -/
theorem takeSignificand_of_lt {ds : List Char} {high : Nat}
    (h : Nat.ofDigitChars 10 ds high < UInt64.size) :
    takeSignificand high ds = (Nat.ofDigitChars 10 ds high, []) := by
  induction ds generalizing high with
  | nil => rfl
  | cons d rest ih =>
    rw [Nat.ofDigitChars_cons, Nat.mul_comm] at h ⊢
    have hnext := Nat.lt_of_le_of_lt (le_ofDigitChars rest _) h
    rw [takeSignificand, if_pos hnext, ih h]

/-- Rounding adds no more than the number itself, or one to none. -/
theorem roundTo53Bits_le (n : Nat) : roundTo53Bits n ≤ 2 * n + 1 := by
  have hunit : Nat.pow 2 (n.log2 - 52) ≤ n + 1 := by
    rcases Nat.eq_zero_or_pos n with rfl | hpos
    · decide
    · have hlog : 2 ^ n.log2 ≤ n := Nat.log2_self_le (Nat.ne_of_gt hpos)
      have hdrop : 2 ^ (n.log2 - 52) ≤ 2 ^ n.log2 :=
        Nat.pow_le_pow_right (by decide) (Nat.sub_le _ _)
      exact Nat.le_succ_of_le (Nat.le_trans hdrop hlog)
  have hlow : n / Nat.pow 2 (n.log2 - 52) * Nat.pow 2 (n.log2 - 52) ≤ n := Nat.div_mul_le_self _ _
  simp only [roundTo53Bits]
  -- Rounding adds at most one unit, and a unit is at most the number and one.
  generalize Nat.pow 2 (n.log2 - 52) = unit at hunit hlow ⊢
  split
  · rw [Nat.add_mul]
    omega
  · omega

/-- No number of 64 bits is too large for a double. -/
theorem overflows_ofNat {n : Nat} (h : n < UInt64.size) : (ofNat n).overflows = false := by
  have hscaled : (ofNat n).scaled = (n, 0) := by
    have hvalue : Nat.ofDigitChars 10 (Nat.toDigits 10 n) 0 = n := Nat.ofDigitChars_ten_toDigits
    simp only [scaled, ofNat, takeSignificand_of_lt (hvalue.symm ▸ h), hvalue]
    rfl
  have hsmall : ¬roundTo53Bits n * roundTo53Bits (Nat.pow 10 0) ≥
      Nat.pow 2 1024 - Nat.pow 2 970 := by
    -- Rounded, the number has 65 bits at most, far from the limit of 1024.
    have hone : roundTo53Bits (Nat.pow 10 0) = 1 := by decide +kernel
    have hlimit : 2 * UInt64.size < Nat.pow 2 1024 - Nat.pow 2 970 := by decide +kernel
    have hround := roundTo53Bits_le n
    rw [hone]
    generalize Nat.pow 2 1024 - Nat.pow 2 970 = limit at hlimit ⊢
    omega
  have hnone : (ofNat n).exponent = none := rfl
  have hpower : exceedsDoubles n 0 = (n != 0 && (decide (0 > 308) ||
      decide (roundTo53Bits n * roundTo53Bits (Nat.pow 10 0) ≥ Nat.pow 2 1024 - Nat.pow 2 970))) :=
    rfl
  simp only [overflows, hscaled, hnone, hpower, hsmall, decide_false, Bool.or_false]
  exact Bool.and_false _

end Registrar.Json.Numeral
