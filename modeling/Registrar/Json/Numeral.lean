import Registrar.Text.Bytes

/-!
# JSON numerals

A `Numeral` is a number as it stands in a JSON text: sign, whole part, fraction and exponent.
`natural?` gives the value of those that are natural numbers, and `overflows` tells the numerals
that are too large for a binary double, which a reader refuses although they are well formed.

The overflow rule follows a fixed scheme: as many leading digits as fit 64 bits form the
significand, the further digits of the whole part count as powers of ten, and the further digits
of the fraction are dropped; significand and power of ten are rounded to 53 bits each, and so is
their product.
-/

namespace Registrar.Json

/-- A number as it is written, digits from the most significant on. -/
structure Numeral where
  negative : Bool
  whole : List Char
  fraction : Option (List Char)
  /-- The exponent's sign (`true` for a minus) and digits. -/
  exponent : Option (Bool × List Char)
  deriving DecidableEq, Repr

namespace Numeral

/-- The numeral of a natural number. -/
def ofNat (n : Nat) : Numeral :=
  ⟨false, Nat.toDigits 10 n, none, none⟩

/-- The value of a numeral without sign, fraction and exponent. -/
def natural? (n : Numeral) : Option Nat :=
  match n with
  | ⟨false, whole, none, none⟩ => some (Nat.ofDigitChars 10 whole 0)
  | _ => none

/-! ### Overflow -/

/-- A natural number rounded to 53 significant bits, a tie going to the even neighbour. -/
def roundTo53Bits (n : Nat) : Nat :=
  -- With at most 53 bits nothing is dropped, and the number is its own rounding.
  let drop := n.log2 - 52
  let unit := Nat.pow 2 drop
  let low := n / unit
  let twice := 2 * (n % unit)
  (if twice > unit || (twice == unit && low % 2 == 1) then low + 1 else low) * unit

/-- The significand read from a run of digits, starting at `high`, and the digits that no longer
fit 64 bits. -/
def takeSignificand (high : Nat) : List Char → Nat × List Char
  | [] => (high, [])
  | d :: ds =>
    let next := high * 10 + (d.toNat - '0'.toNat)
    if next < UInt64.size then takeSignificand next ds else (high, d :: ds)

/-- The significand and the power of ten that a numeral without its exponent stands for. -/
def scaled (n : Numeral) : Nat × Int :=
  let (high, beyond) := takeSignificand 0 n.whole
  match n.fraction with
  | none => (high, beyond.length)
  | some digits =>
    let (significand, dropped) := takeSignificand high digits
    (significand, (beyond.length : Int) - ((digits.length - dropped.length : Nat) : Int))

/-- Does a significand times a power of ten exceed every double? -/
def exceedsDoubles (significand : Nat) (power : Int) : Bool :=
  significand != 0 && match power with
    | .ofNat k =>
      -- `2 ^ 1024 - 2 ^ 970` lies half-way between the greatest double and the next power of two.
      k > 308 || roundTo53Bits significand * roundTo53Bits (Nat.pow 10 k)
        ≥ Nat.pow 2 1024 - Nat.pow 2 970
    -- A significand of 64 bits only gets smaller.
    | .negSucc _ => false

/-- Is the numeral too large for a binary double?  An exponent beyond 32 bits is judged by its
sign alone. -/
def overflows (n : Numeral) : Bool :=
  let (significand, power) := n.scaled
  match n.exponent with
  | none => exceedsDoubles significand power
  | some (negative, digits) =>
    let size := Nat.ofDigitChars 10 digits 0
    if negative then exceedsDoubles significand (power - size)
    else if size < Nat.pow 2 31 then exceedsDoubles significand (power + size)
    else significand != 0

end Numeral

end Registrar.Json
