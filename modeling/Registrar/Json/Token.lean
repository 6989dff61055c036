import Registrar.Json.Numeral
import Registrar.Json.Quoted

/-!
# JSON tokens

`tokens` cuts a text into the tokens of the format and never fails: where the text stops being
JSON the list ends in a token that says so, one of the `cut` ones where the text ends inside a
token, and `stray` where a byte cannot begin or continue one.  Whether such a token is a fault is
for the reader of the tokens to say.
-/

namespace Registrar.Json

open Text

/-- A token of a JSON text, or the way in which its last one breaks off. -/
inductive Token where
  | openBracket
  | closeBracket
  | openBrace
  | closeBrace
  | comma
  | colon
  | null
  | boolean (b : Bool)
  | numeral (n : Numeral)
  /-- The characters of a string as they are written between the quotes. -/
  | string (raw : Bytes)
  /-- The text ends inside `null`, `true` or `false`. -/
  | cutWord
  /-- The text ends inside a number. -/
  | cutNumeral
  /-- The text ends inside a string, of which these characters are complete. -/
  | cutString (raw : Bytes)
  /-- A byte that neither begins a token nor continues the one it stands in. -/
  | stray
  deriving DecidableEq, Repr

namespace Token

/-- The blanks between tokens. -/
def isSpaceByte (b : UInt8) : Bool :=
  b == 0x20 || b == 0x09 || b == 0x0A || b == 0x0D

/-- Scans the rest of a word whose remaining letters are `letters`. -/
def scanWord (word : Token) : Bytes → Bytes → Token × Bytes
  | [], rest => (word, rest)
  | _ :: _, [] => (.cutWord, [])
  | l :: letters, b :: rest => if b == l then scanWord word letters rest else (.stray, [])

/-- Scans digits, of which there is at least one. -/
def scanDigits (bs : Bytes) : Except Token (List Char × Bytes) :=
  let digits := bs.takeWhile isDigitByte
  let rest := bs.dropWhile isDigitByte
  match digits, rest with
  | [], [] => .error .cutNumeral
  | [], _ :: _ => .error .stray
  | digits, rest => .ok (digits.map asciiChar, rest)

/-- Scans the part after a numeral's whole part: a fraction and an exponent, either of which may
be missing. -/
def scanNumeralTail (negative : Bool) (whole : List Char) (bs : Bytes) :
    Except Token (Numeral × Bytes) := do
  let (fraction, bs) ← match bs with
    | 0x2E :: rest => do
      let (digits, rest) ← scanDigits rest
      pure (some digits, rest)
    | _ => pure (none, bs)
  let exponent? := match bs with
    | b :: rest => if b == 0x65 || b == 0x45 then some rest else none
    | [] => none
  match exponent? with
  | none => pure (⟨negative, whole, fraction, none⟩, bs)
  | some rest =>
    let (minus, rest) := match rest with
      | 0x2B :: rest => (false, rest)
      | 0x2D :: rest => (true, rest)
      | _ => (false, rest)
    let (digits, rest) ← scanDigits rest
    pure (⟨negative, whole, fraction, some (minus, digits)⟩, rest)

/-- Scans a numeral.  A whole part of several digits does not begin with zero. -/
def scanNumeral (bs : Bytes) : Token × Bytes :=
  let (negative, bs) := match bs with
    | 0x2D :: rest => (true, rest)
    | _ => (false, bs)
  match scanDigits bs with
  | .error broken => (broken, [])
  | .ok ('0' :: _ :: _, _) => (.stray, [])
  | .ok (whole, rest) =>
    match scanNumeralTail negative whole rest with
    | .error broken => (broken, [])
    | .ok (n, rest) => (.numeral n, rest)

/-- Scans a string after its opening quote and the characters read so far, which come last
first.  An escape counts as complete only with all its bytes, and a control character has no
place in a string. -/
def scanString (read : Bytes) : Bytes → Token × Bytes
  | [] => (.cutString read.reverse, [])
  | 0x22 :: rest => (.string read.reverse, rest)
  | 0x5C :: rest =>
    match rest with
    | [] => (.cutString read.reverse, [])
    | 0x75 :: a :: b :: c :: d :: rest' =>
      if isHexByte a && isHexByte b && isHexByte c && isHexByte d then
        scanString (d :: c :: b :: a :: 0x75 :: 0x5C :: read) rest'
      else (.stray, [])
    | 0x75 :: _ => (.cutString read.reverse, [])
    | e :: rest' =>
      if isSimpleEscape e then scanString (e :: 0x5C :: read) rest' else (.stray, [])
  | b :: rest => if b < 0x20 then (.stray, []) else scanString (b :: read) rest

/-- Scans the token that begins with the first of these bytes. -/
def scan (b : UInt8) (rest : Bytes) : Token × Bytes :=
  if b == 0x5B then (.openBracket, rest)
  else if b == 0x5D then (.closeBracket, rest)
  else if b == 0x7B then (.openBrace, rest)
  else if b == 0x7D then (.closeBrace, rest)
  else if b == 0x2C then (.comma, rest)
  else if b == 0x3A then (.colon, rest)
  else if b == 0x22 then scanString [] rest
  else if b == 0x6E then scanWord .null (bytes "ull") rest
  else if b == 0x74 then scanWord (.boolean true) (bytes "rue") rest
  else if b == 0x66 then scanWord (.boolean false) (bytes "alse") rest
  else if b == 0x2D || isDigitByte b then scanNumeral (b :: rest)
  else (.stray, [])

/-- The tokens of a text after those found so far, which come last first.  The first argument
bounds their number; no text has more tokens than bytes. -/
def tokensAfter (found : List Token) : Nat → Bytes → List Token
  | 0, _ => found.reverse
  | bound + 1, bs =>
    match bs.dropWhile isSpaceByte with
    | [] => found.reverse
    | b :: rest =>
      let (token, rest) := scan b rest
      tokensAfter (token :: found) bound rest

end Token

/-- The tokens of a text. -/
def tokens (bs : Bytes) : List Token :=
  Token.tokensAfter [] bs.length bs

end Registrar.Json
