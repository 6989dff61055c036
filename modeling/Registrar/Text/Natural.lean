/-!
# Natural numbers as text

`readNatural?` reads a number in a base up to 36: an optional plus sign and at least one digit,
and nothing else.  `readUInt64?` and `readUInt16?` read decimal numbers that fit a word, which is
how ids, depths and ports are written outside of JSON.
-/

namespace Registrar.Text

/-- The value of a digit in base `base`; letters of either case are the digits from ten on. -/
def digitValue? (base : Nat) (c : Char) : Option Nat :=
  let value? :=
    if '0' ≤ c && c ≤ '9' then some (c.toNat - '0'.toNat)
    else if 'a' ≤ c && c ≤ 'z' then some (c.toNat - 'a'.toNat + 10)
    else if 'A' ≤ c && c ≤ 'Z' then some (c.toNat - 'A'.toNat + 10)
    else none
  value?.filter (· < base)

/-- Reads digits from the most significant on, the value so far being `high`. -/
def readDigits? (base : Nat) (high : Nat) : List Char → Option Nat
  | [] => some high
  | c :: cs => (digitValue? base c).bind fun d => readDigits? base (high * base + d) cs

/-- An optional plus sign, then one digit or more. -/
def readNatural? (base : Nat) (cs : List Char) : Option Nat :=
  match (match cs with | '+' :: rest => rest | _ => cs) with
  | [] => none
  | digits => readDigits? base 0 digits

/-- A number in base `base` that is below `bound`. -/
def readBelow? (base bound : Nat) (cs : List Char) : Option Nat :=
  (readNatural? base cs).filter (· < bound)

/-- A decimal number of 64 bits. -/
def readUInt64? (s : String) : Option UInt64 :=
  (readBelow? 10 UInt64.size s.toList).map UInt64.ofNat

/-- A decimal number of 16 bits. -/
def readUInt16? (s : String) : Option UInt16 :=
  (readBelow? 10 UInt16.size s.toList).map UInt16.ofNat

end Registrar.Text
