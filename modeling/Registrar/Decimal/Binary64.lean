/-!
# Binary doubles as ratios

A finite double that is not negative is a significand times a power of two.  `Binary64` holds the
two as exact numbers, together with the half-way points to the doubles on either side, and
`ratio` turns multiples of a power of two into fractions of natural numbers, on which everything
else is computed.
-/

namespace Registrar

/-- The double `significand * 2 ^ exponent`, and whether the double below it is only half as far
away as the one above. -/
structure Binary64 where
  significand : Nat
  exponent : Int
  narrowBelow : Bool
  deriving DecidableEq, Repr

namespace Binary64

/-- Takes a double apart, its sign left out.  The values are those of a finite double. -/
def ofFloat (x : Float) : Binary64 :=
  let bits : Nat := x.toBits.toNat
  let fraction : Nat := bits % Nat.pow 2 52
  let biased : Nat := bits / Nat.pow 2 52 % Nat.pow 2 11
  if biased = 0 then ⟨fraction, -1074, false⟩
  else ⟨fraction + Nat.pow 2 52, (biased : Int) - 1075, fraction = 0 && biased > 1⟩

/-- The fraction `n * 2 ^ e`, as a numerator and a denominator. -/
def ratio (n : Nat) (e : Int) : Nat × Nat :=
  match e with
  | .ofNat k => (n * Nat.pow 2 k, 1)
  | .negSucc k => (n, Nat.pow 2 (k + 1))

/-- The value as a fraction. -/
def value (b : Binary64) : Nat × Nat :=
  ratio b.significand b.exponent

/-- The half-way point to the double below, as a fraction. -/
def lowerEnd (b : Binary64) : Nat × Nat :=
  ratio (4 * b.significand - if b.narrowBelow then 1 else 2) (b.exponent - 2)

/-- The half-way point to the double above, as a fraction. -/
def upperEnd (b : Binary64) : Nat × Nat :=
  ratio (4 * b.significand + 2) (b.exponent - 2)

end Binary64

end Registrar
