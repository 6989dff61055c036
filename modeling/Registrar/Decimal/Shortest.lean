import Registrar.Decimal.Binary64

/-!
# The shortest decimal of a double

`Decimal.shortest` finds the decimal with the fewest digits that reads back as a given double,
and of several the nearest.  It tries one digit, two digits and so on: of the decimals with that
many digits only the two neighbours of the double can be nearest, so the first count for which
one of the two lies between the half-way points is the least.  Seventeen digits always do.

`Decimal.text` writes a decimal out, in positions while the point stands near its digits and with
an exponent otherwise.
-/

namespace Registrar

/-- The number `digits * 10 ^ exponent`. -/
structure Decimal where
  digits : Nat
  exponent : Int
  deriving DecidableEq, Repr

namespace Decimal

/-- `n * 10 ^ e` as a numerator and a denominator. -/
def ratio (n : Nat) (e : Int) : Nat × Nat :=
  match e with
  | .ofNat k => (n * Nat.pow 10 k, 1)
  | .negSucc k => (n, Nat.pow 10 (k + 1))

/-- Is the first fraction below the second, or equal to it where `closed` holds? -/
def below (closed : Bool) (a b : Nat × Nat) : Bool :=
  let left := a.1 * b.2
  let right := b.1 * a.2
  left < right || (closed && left == right)

/-- The exponent `k` with `10 ^ k ≤ v < 10 ^ (k + 1)` of a positive fraction `v`. -/
def decimalExponent (v : Nat × Nat) : Int :=
  if v.2 ≤ v.1 then ((Nat.toDigits 10 (v.1 / v.2)).length : Int) - 1
  else
    let k := (Nat.toDigits 10 (v.2 / v.1)).length
    if v.1 * Nat.pow 10 (k - 1) ≥ v.2 then 1 - (k : Int) else -(k : Int)

/-- The whole number of units `10 ^ e` in a fraction, rounded down. -/
def unitsBelow (v : Nat × Nat) (e : Int) : Nat :=
  match e with
  | .ofNat k => v.1 / (v.2 * Nat.pow 10 k)
  | .negSucc k => v.1 * Nat.pow 10 (k + 1) / v.2

/-- Of the two neighbours of a double among the multiples of `10 ^ e`, the nearest one that reads
back as the double; of two equally near, the even one. -/
def nearestOnGrid (b : Binary64) (e : Int) : Option Decimal :=
  let v := b.value
  -- A half-way point itself is rounded to the even one of its two doubles.
  let closed := b.significand % 2 == 0
  let low := unitsBelow v e
  let readsBack (n : Nat) : Bool :=
    below closed b.lowerEnd (ratio n e) && below closed (ratio n e) b.upperEnd
  let middle := ratio (2 * low + 1) e
  let twice := (2 * v.1, v.2)
  match readsBack low, readsBack (low + 1) with
  | false, false => none
  | true, false => some ⟨low, e⟩
  | false, true => some ⟨low + 1, e⟩
  | true, true =>
    if below false twice middle then some ⟨low, e⟩
    else if below false middle twice then some ⟨low + 1, e⟩
    else some ⟨low + low % 2, e⟩

/-- The decimal without trailing zeros among its digits, up to so many of them. -/
def normalize : Nat → Decimal → Decimal
  | 0, d => d
  | n + 1, d =>
    if d.digits ≠ 0 ∧ d.digits % 10 = 0 then normalize n ⟨d.digits / 10, d.exponent + 1⟩ else d

/-- The decimal with the fewest digits that reads back as a finite double that is not
negative. -/
def shortest (b : Binary64) : Decimal :=
  if b.significand = 0 then ⟨0, 0⟩
  else
    let top := decimalExponent b.value
    let found? := (List.range 17).findSome? fun n => nearestOnGrid b (top - (n : Nat))
    (found?.getD ⟨b.significand, b.exponent⟩).normalize 17

/-! ### Layout -/

/-- Where a decimal is written in positions: the least and the greatest place of its first digit,
counted as a power of ten. -/
structure Layout where
  least : Int
  greatest : Int

/-- Percentages are written in positions from `0.00001` up to sixteen places before the point. -/
def Layout.percentage : Layout := ⟨-5, 15⟩

/-- Writes a decimal, always with a fraction in positional form. -/
def text (layout : Layout) (d : Decimal) : String :=
  let digits := Nat.toDigits 10 d.digits
  let place := d.exponent + digits.length - 1
  if d.digits = 0 then "0.0"
  else if layout.least ≤ place ∧ place ≤ layout.greatest then
    match d.exponent with
    | .ofNat k => String.ofList (digits ++ List.replicate k '0') ++ ".0"
    | .negSucc k =>
      let places := k + 1
      let padded := List.replicate (places + 1 - digits.length) '0' ++ digits
      let whole := padded.length - places
      String.ofList (padded.take whole) ++ "." ++ String.ofList (padded.drop whole)
  else
    let fraction := digits.drop 1
    let tail := if fraction.isEmpty then "" else "." ++ String.ofList fraction
    String.ofList (digits.take 1) ++ tail ++ "e" ++ toString place

/-- The shortest text of a finite double that is not negative. -/
def shortestText (x : Float) : String :=
  (shortest (Binary64.ofFloat x)).text .percentage

/-! ### Fixed places -/

/-- A quotient rounded to the nearest whole number, a tie going to the even one. -/
def roundDiv (num den : Nat) : Nat :=
  let low := num / den
  let twice := 2 * (num % den)
  if twice > den || (twice == den && low % 2 == 1) then low + 1 else low

/-- A finite double that is not negative, with one digit after the point. -/
def onePlaceText (x : Float) : String :=
  let (num, den) := (Binary64.ofFloat x).value
  let tenths := roundDiv (num * 10) den
  toString (tenths / 10) ++ "." ++ toString (tenths % 10)

end Decimal

end Registrar
