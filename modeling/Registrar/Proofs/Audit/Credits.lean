import Registrar.Audit
import Mathlib.Algebra.BigOperators.Group.List.Basic
import Mathlib.Algebra.GroupWithZero.Nat
import Mathlib.Algebra.Order.BigOperators.Group.List
import Mathlib.Algebra.Order.Group.Nat

/-!
# Sums of credits

A total of credits is cut off after every single number that is added.  It is still the exact sum
(`Credits.sum`) cut off once at the end: `toNat_total`.  So totals follow the laws of exact sums.
Lists of the same sum have the same total (`total_congr`), a list has no less than what is picked
from it (`total_le_total_of_sublist`), and the totals of parts may be totalled again
(`total_flatten`).  Where a total is compared with a number of credits or taken off it, nothing
shows that it has been cut off (`le_total_iff`, `total_pos_iff`, `toNat_minus_total`).
-/

namespace Registrar.Credits

/-- The exact sum of credits. -/
def sum (credits : List Credits) : Nat :=
  (credits.map UInt32.toNat).sum

variable {a b : Credits} {cs ds : List Credits}

/-! ### Exact sums -/

@[simp] theorem sum_nil : sum [] = 0 := rfl

@[simp] theorem sum_cons (c : Credits) (cs : List Credits) : sum (c :: cs) = c.toNat + sum cs := by
  simp [sum]

@[simp] theorem sum_append (cs ds : List Credits) : sum (cs ++ ds) = sum cs + sum ds := by
  simp [sum]

theorem sum_flatten (parts : List (List Credits)) :
    sum parts.flatten = (parts.map sum).sum := by
  induction parts with
  | nil => rfl
  | cons part rest ih => rw [List.flatten_cons, sum_append, ih, List.map_cons, List.sum_cons]

theorem sum_le_sum_of_sublist (h : cs.Sublist ds) : sum cs ≤ sum ds :=
  (h.map UInt32.toNat).sum_le_sum fun _ _ => Nat.zero_le _

/-! ### One sum and one difference -/

theorem toNat_le_limit (a : Credits) : a.toNat ≤ limit := by
  have h := a.toNat_lt
  unfold limit
  omega

theorem toNat_ofNat_of_le {n : Nat} (h : n ≤ limit) : (UInt32.ofNat n).toNat = n := by
  have hlt : n < UInt32.size := by
    unfold limit at h
    have hsize : UInt32.size = 4294967296 := rfl
    omega
  exact UInt32.toNat_ofNat_of_lt' hlt

@[simp] theorem toNat_plus (a b : Credits) : (plus a b).toNat = min (a.toNat + b.toNat) limit :=
  toNat_ofNat_of_le (Nat.min_le_right _ _)

@[simp] theorem toNat_minus (a b : Credits) : (minus a b).toNat = a.toNat - b.toNat :=
  toNat_ofNat_of_le ((Nat.sub_le _ _).trans a.toNat_le_limit)

/-! ### Totals -/

/-- Cutting off after every number comes to the same as cutting off at the end: what has been cut
off once stays at the limit, whatever is added. -/
theorem toNat_foldl_plus (start : Credits) (cs : List Credits) :
    (cs.foldl plus start).toNat = min (start.toNat + sum cs) limit := by
  induction cs generalizing start with
  | nil =>
    have h := start.toNat_le_limit
    simp only [List.foldl_nil, sum_nil, Nat.add_zero]
    omega
  | cons c cs ih =>
    rw [List.foldl_cons, ih, toNat_plus, sum_cons]
    omega

theorem toNat_total (cs : List Credits) : (total cs).toNat = min (sum cs) limit := by
  have h := toNat_foldl_plus 0 cs
  rwa [UInt32.toNat_zero, Nat.zero_add] at h

theorem total_le_total_of_sum_le (h : sum cs ≤ sum ds) : total cs ≤ total ds := by
  rw [UInt32.le_iff_toNat_le, toNat_total, toNat_total]
  omega

theorem total_congr (h : sum cs = sum ds) : total cs = total ds :=
  UInt32.le_antisymm (total_le_total_of_sum_le h.le) (total_le_total_of_sum_le h.ge)

theorem total_le_total_of_sublist (h : cs.Sublist ds) : total cs ≤ total ds :=
  total_le_total_of_sum_le (sum_le_sum_of_sublist h)

theorem total_append (cs ds : List Credits) : total (cs ++ ds) = plus (total cs) (total ds) := by
  apply UInt32.toNat_inj.mp
  rw [toNat_plus, toNat_total, toNat_total, toNat_total, sum_append]
  omega

theorem total_cons (c : Credits) (cs : List Credits) : total (c :: cs) = plus c (total cs) := by
  have hc := c.toNat_le_limit
  apply UInt32.toNat_inj.mp
  rw [toNat_plus, toNat_total, toNat_total, sum_cons]
  omega

/-- The total of the totals of parts is the total of all. -/
theorem total_flatten (parts : List (List Credits)) :
    total (parts.map total) = total parts.flatten := by
  induction parts with
  | nil => rfl
  | cons part rest ih => rw [List.map_cons, total_cons, ih, List.flatten_cons, total_append]

/-- A total reaches what fits into a number of credits exactly if the exact sum does: what is cut
off makes no difference to such a comparison. -/
theorem le_total_iff : a ≤ total cs ↔ a.toNat ≤ sum cs := by
  have ha := a.toNat_le_limit
  rw [UInt32.le_iff_toNat_le, toNat_total]
  omega

theorem total_pos_iff : 0 < total cs ↔ 0 < sum cs := by
  rw [UInt32.lt_iff_toNat_lt, toNat_total, UInt32.toNat_zero]
  unfold limit
  omega

/-- Nor does it to what is left of a number of credits. -/
theorem toNat_minus_total (a : Credits) (cs : List Credits) :
    (minus a (total cs)).toNat = a.toNat - sum cs := by
  have ha := a.toNat_le_limit
  rw [toNat_minus, toNat_total]
  omega

theorem minus_le_minus_left (h : a ≤ b) (c : Credits) : minus c b ≤ minus c a := by
  rw [UInt32.le_iff_toNat_le] at h ⊢
  rw [toNat_minus, toNat_minus]
  omega

end Registrar.Credits
