import Registrar.Text.Natural
import Registrar.Text.Split

/-!
# Network addresses

An `Address` is an IPv4 address of four bytes or an IPv6 address of eight groups.  `read?` takes
the usual notations, for IPv6 with one `::` for a run of zero groups and with an IPv4 address for
the last two groups.  `text` writes the canonical form: lower case, no leading zeros, the first
longest run of two or more zero groups as `::`, and a mapped IPv4 address in its own notation.
-/

namespace Registrar.Net

open Text

/-- An address of a host. -/
inductive Address where
  | v4 (a b c d : Nat)
  /-- Eight groups of 16 bits. -/
  | v6 (groups : List Nat)
  deriving DecidableEq, Repr

namespace Address

/-! ### Reading -/

/-- Reads a byte of an IPv4 address: up to three digits without leading zeros. -/
def readByte? (cs : List Char) : Option Nat :=
  match cs with
  -- A leading zero might be meant as base eight.
  | '0' :: _ :: _ => none
  | [] => none
  | _ => if cs.length ≤ 3 then (readDigits? 10 0 cs).filter (· < 256) else none

/-- Reads an IPv4 address. -/
def readV4? (cs : List Char) : Option (Nat × Nat × Nat × Nat) :=
  match splitAt '.' cs with
  | [a, b, c, d] => do pure (← readByte? a, ← readByte? b, ← readByte? c, ← readByte? d)
  | _ => none

/-- Reads a group of an IPv6 address: one to four hexadecimal digits. -/
def readGroup? (cs : List Char) : Option Nat :=
  match cs with
  | [] => none
  | _ => if cs.length ≤ 4 then readDigits? 16 0 cs else none

/-- Reads groups with colons between them; the last part may be an IPv4 address where
`mayEndInV4` holds. -/
def readGroups? (mayEndInV4 : Bool) : List (List Char) → Option (List Nat)
  | [] => some []
  | [last] =>
    match readGroup? last with
    | some g => some [g]
    | none =>
      if mayEndInV4 then
        (readV4? last).map fun (a, b, c, d) => [a * 256 + b, c * 256 + d]
      else none
  | first :: rest => do pure ((← readGroup? first) :: (← readGroups? mayEndInV4 rest))

/-- Reads a side of `::`, which may be empty. -/
def readSide? (mayEndInV4 : Bool) (cs : List Char) : Option (List Nat) :=
  match cs with
  | [] => some []
  | _ => readGroups? mayEndInV4 (splitAt ':' cs)

/-- The parts before and after the first double colon. -/
def splitAtGap? : List Char → Option (List Char × List Char)
  | [] => none
  | ':' :: ':' :: rest => some ([], rest)
  | c :: rest => (splitAtGap? rest).map fun (front, back) => (c :: front, back)

/-- Reads an IPv6 address. -/
def readV6? (cs : List Char) : Option (List Nat) :=
  match splitAtGap? cs with
  | none => do
    let groups ← readGroups? true (splitAt ':' cs)
    if groups.length = 8 then some groups else none
  | some (front, back) => do
    let high ← readSide? false front
    let low ← readSide? true back
    let known := high.length + low.length
    -- The gap stands for at least one group.
    if known ≤ 7 then some (high ++ List.replicate (8 - known) 0 ++ low) else none

/-- Reads an address. -/
def read? (s : String) : Option Address :=
  match readV4? s.toList with
  | some (a, b, c, d) => some (.v4 a b c d)
  | none => (readV6? s.toList).map .v6

/-! ### Writing -/

/-- The text of an IPv4 address. -/
def v4Text (a b c d : Nat) : String :=
  ".".intercalate [toString a, toString b, toString c, toString d]

/-- The text of groups with colons between them. -/
def groupsText (groups : List Nat) : String :=
  ":".intercalate (groups.map fun g => String.ofList (Nat.toDigits 16 g))

/-- The number of zero groups at the start. -/
def zeroRun (groups : List Nat) : Nat :=
  (groups.takeWhile (· == 0)).length

/-- The start and the length of the first longest run of zero groups. -/
def longestRun (groups : List Nat) : Nat × Nat :=
  (List.range groups.length).foldl
    (fun (best : Nat × Nat) start =>
      let length := zeroRun (groups.drop start)
      -- Strictly longer, so the first of two runs of one length wins.
      if best.2 < length then (start, length) else best)
    (0, 0)

/-- The text of an IPv6 address. -/
def v6Text (groups : List Nat) : String :=
  match groups with
  | [0, 0, 0, 0, 0, 0xFFFF, high, low] =>
    "::ffff:" ++ v4Text (high / 256) (high % 256) (low / 256) (low % 256)
  | _ =>
    let (start, length) := longestRun groups
    if length < 2 then groupsText groups
    else groupsText (groups.take start) ++ "::" ++ groupsText (groups.drop (start + length))

/-- The text of an address together with a port. -/
def withPort (port : UInt16) : Address → String
  | .v4 a b c d => v4Text a b c d ++ ":" ++ toString port.toNat
  | .v6 groups => "[" ++ v6Text groups ++ "]:" ++ toString port.toNat

end Address

end Registrar.Net
