import Registrar.Proofs.Text.Blank
import Registrar.Text.Natural

/-!
# Decimal numbers read back

A natural number is written by its digits `Nat.toDigits 10`.  They are taken off the front of a text
as long as no digit follows (`takeWhile_isDigit_append`), and reading them gives the number
(`readNatural?_toDigits`, `readUInt64?_toString`).
-/

namespace Registrar.Text

/-! ### Digits -/

theorem isDigit_iff {c : Char} : c.isDigit = true ↔ 0x30 ≤ c.toNat ∧ c.toNat ≤ 0x39 := by
  simp only [Char.isDigit, Bool.and_eq_true, decide_eq_true_eq, ge_iff_le,
    UInt32.le_iff_toNat_le]
  rfl

theorem lt_of_isDigit {c : Char} (h : c.isDigit = true) : c.toNat < 0x80 :=
  Nat.lt_of_le_of_lt (isDigit_iff.mp h).2 (by decide)

theorem isDigit_of_mem_toDigits {n : Nat} {c : Char} (h : c ∈ Nat.toDigits 10 n) :
    c.isDigit = true :=
  Nat.isDigit_of_mem_toDigits (by decide) (by decide) h

theorem isBlank_of_isDigit {c : Char} (h : c.isDigit = true) : isBlank c = false := by
  obtain ⟨hle, hge⟩ := isDigit_iff.mp h
  simp only [isBlank, Bool.or_eq_false_iff, Bool.and_eq_false_iff, decide_eq_false_iff_not,
    beq_eq_false_iff_ne]
  omega

/-- The characters do not go on with a digit. -/
def EndsNumber (cs : List Char) : Prop :=
  ∀ c ∈ cs.head?, c.isDigit = false

theorem takeWhile_isDigit_append {ds cs : List Char} (hds : ∀ c ∈ ds, c.isDigit = true)
    (hcs : EndsNumber cs) : (ds ++ cs).takeWhile Char.isDigit = ds := by
  have hstop : cs.takeWhile Char.isDigit = [] := by
    cases cs with
    | nil => rfl
    | cons c cs => rw [List.takeWhile_cons, hcs c rfl]; rfl
  rw [List.takeWhile_append_of_pos hds, hstop, List.append_nil]

/-! ### Reading -/

theorem digitValue?_of_isDigit {c : Char} (h : c.isDigit = true) :
    digitValue? 10 c = some (c.toNat - '0'.toNat) := by
  obtain ⟨hle, hge⟩ := isDigit_iff.mp h
  have hrange : ('0' ≤ c && c ≤ '9') = true := by
    simp only [Bool.and_eq_true, decide_eq_true_eq, Char.le_def, UInt32.le_iff_toNat_le]
    exact ⟨hle, hge⟩
  have hlt : c.toNat - '0'.toNat < 10 := by
    have hzero : '0'.toNat = 0x30 := rfl
    omega
  simp only [digitValue?, hrange, if_true, Option.filter_some, hlt, decide_true]

/-- Digits are read to the number that they stand for. -/
theorem readDigits?_of_isDigit {ds : List Char} (h : ∀ c ∈ ds, c.isDigit = true) (high : Nat) :
    readDigits? 10 high ds = some (Nat.ofDigitChars 10 ds high) := by
  induction ds generalizing high with
  | nil => rfl
  | cons c rest ih =>
    obtain ⟨hc, hrest⟩ := List.forall_mem_cons.mp h
    rw [readDigits?, digitValue?_of_isDigit hc, Option.bind_some, ih hrest, Nat.ofDigitChars_cons,
      Nat.mul_comm]

theorem readNatural?_toDigits (n : Nat) : readNatural? 10 (Nat.toDigits 10 n) = some n := by
  obtain ⟨d, ds, hds⟩ := List.exists_cons_of_ne_nil (Nat.toDigits_ne_nil (n := n) (b := 10))
  have hdigits : ∀ c ∈ d :: ds, c.isDigit = true := by
    rw [← hds]
    exact fun c => isDigit_of_mem_toDigits
  have hvalue : Nat.ofDigitChars 10 (d :: ds) 0 = n := by
    rw [← hds, Nat.ofDigitChars_ten_toDigits]
  have hplus : d ≠ '+' := by
    rintro rfl
    exact absurd (hdigits '+' List.mem_cons_self) (by decide)
  rw [hds, readNatural?]
  · rw [readDigits?_of_isDigit hdigits, hvalue]
  · intro rest heq
    exact hplus (List.cons.inj heq).1
  · exact List.cons_ne_nil d ds

/-- No blanks stand around a number. -/
theorem trim_toString (n : Nat) : trim (toString n) = toString n := by
  have hblank : ∀ c ∈ Nat.toDigits 10 n, isBlank c = false :=
    fun c hc => isBlank_of_isDigit (isDigit_of_mem_toDigits hc)
  have htrim : trimChars (Nat.toDigits 10 n) = Nat.toDigits 10 n :=
    trimChars_eq_self (fun c hc => hblank c (List.mem_of_mem_head? hc))
      fun c hc => hblank c (List.mem_of_mem_getLast? hc)
  rw [trim, Nat.toString_eq_ofList_toDigits, String.toList_ofList, htrim]

theorem readUInt64?_toString (n : UInt64) : readUInt64? (toString n.toNat) = some n := by
  have hlt : n.toNat < UInt64.size := n.toNat_lt
  rw [readUInt64?, readBelow?, Nat.toString_eq_ofList_toDigits, String.toList_ofList,
    readNatural?_toDigits]
  simp [hlt]

end Registrar.Text
