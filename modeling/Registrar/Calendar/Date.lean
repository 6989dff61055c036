import Registrar.Text.Blank
import Registrar.Text.Natural

/-!
# Calendar dates

A `Date` is a day of the proleptic Gregorian calendar, which has a year zero.  `read?` reads
`year-month-day` and `text` writes it with two digits for month and day and at least four for the
year.  A year outside of 0 to 9999 carries a sign, which is also what lets it have more than four
digits when it is read.
-/

namespace Registrar.Calendar

open Text

/-- Has the year a 29th of February? -/
def isLeapYear (year : Int) : Bool :=
  year % 4 == 0 && (year % 100 != 0 || year % 400 == 0)

/-- The number of days of a month, none for what is no month. -/
def daysInMonth (year : Int) (month : Nat) : Nat :=
  match month with
  | 2 => if isLeapYear year then 29 else 28
  | 4 | 6 | 9 | 11 => 30
  | 1 | 3 | 5 | 7 | 8 | 10 | 12 => 31
  | _ => 0

/-- The first year of the calendar. -/
def firstYear : Int := -262143

/-- The last year of the calendar. -/
def lastYear : Int := 262142

/-- A day of the calendar. -/
structure Date where
  year : Int
  month : Nat
  day : Nat
  year_mem : firstYear ≤ year ∧ year ≤ lastYear
  day_mem : 1 ≤ day ∧ day ≤ daysInMonth year month
  deriving DecidableEq

namespace Date

/-- The day with this year, month and number, if there is one. -/
def ofParts? (year : Int) (month day : Nat) : Option Date :=
  if h : firstYear ≤ year ∧ year ≤ lastYear then
    if h' : 1 ≤ day ∧ day ≤ daysInMonth year month then some ⟨year, month, day, h, h'⟩ else none
  else none

/-! ### Reading -/

/-- Takes a number of at least one and at most `width` digits off the front. -/
def takeNumber? (width : Nat) (cs : List Char) : Option (Nat × List Char) :=
  let digits := (cs.take width).takeWhile Char.isDigit
  if digits.isEmpty then none
  else some (Nat.ofDigitChars 10 digits 0, cs.drop digits.length)

/-- Takes a year off the front: four digits at most, or a sign and any number of digits. -/
def takeYear? (cs : List Char) : Option (Int × List Char) :=
  match cs with
  | '-' :: rest => (takeNumber? rest.length rest).map fun (n, rest) => (-(n : Int), rest)
  | '+' :: rest => (takeNumber? rest.length rest).map fun (n, rest) => ((n : Int), rest)
  | _ => (takeNumber? 4 cs).map fun (n, rest) => ((n : Int), rest)

/-- Takes a hyphen off the front, blanks before it included. -/
def takeHyphen? (cs : List Char) : Option (List Char) :=
  match cs.dropWhile isBlank with
  | '-' :: rest => some rest
  | _ => none

/-- Takes a month or a day off the front, blanks before it included. -/
def takePart? (cs : List Char) : Option (Nat × List Char) :=
  takeNumber? 2 (cs.dropWhile isBlank)

/-- Reads a date.  Blanks may stand around each of its parts. -/
def read? (s : String) : Option Date := do
  let (year, rest) ← takeYear? (s.toList.dropWhile isBlank)
  let (month, rest) ← takePart? (← takeHyphen? rest)
  let (day, rest) ← takePart? (← takeHyphen? rest)
  if rest.all isBlank then ofParts? year month day else none

/-! ### Writing -/

/-- A number with zeros in front, up to a width. -/
def padded (width n : Nat) : String :=
  let digits := Nat.toDigits 10 n
  String.ofList (List.replicate (width - digits.length) '0' ++ digits)

/-- Writes a date. -/
def text (d : Date) : String :=
  let sign := if d.year < 0 then "-" else if d.year > 9999 then "+" else ""
  sign ++ padded 4 d.year.natAbs ++ "-" ++ padded 2 d.month ++ "-" ++ padded 2 d.day

end Date

end Registrar.Calendar
