import Registrar.Text.Bytes

/-!
# Quoted JSON strings

The characters of a string between its quotes are kept as they are written; `unescape` reads
them and `quote` writes a string.  Escapes beyond 16 bits are two halves, a leading and a trailing
surrogate, and a half without its partner stands for no character: `Unpaired` says how the pair
breaks off.
-/

namespace Registrar.Json

open Text

/-- How an escaped surrogate fails to be half of a pair. -/
inductive Unpaired where
  /-- What follows it, or stands before it, is not its partner. -/
  | lone
  /-- The written characters end where its partner is due. -/
  | awaiting
  deriving DecidableEq, Repr

/-- The value of four hexadecimal digits. -/
def hexQuad (a b c d : UInt8) : Nat :=
  [a, b, c, d].foldl (fun high x => high * 16 + hexValue x) 0
where
  /-- The value of one hexadecimal digit of either case. -/
  hexValue (x : UInt8) : Nat :=
    let n := x.toNat
    if n ≤ 0x39 then n - 0x30 else if n ≤ 0x46 then n - 0x41 + 10 else n - 0x61 + 10

/-- Is the byte a hexadecimal digit of either case? -/
def isHexByte (b : UInt8) : Bool :=
  isDigitByte b || (0x41 ≤ b && b ≤ 0x46) || (0x61 ≤ b && b ≤ 0x66)

/-- The bytes that may follow a backslash, `u` apart. -/
def isSimpleEscape (b : UInt8) : Bool :=
  b == 0x22 || b == 0x5C || b == 0x2F || b == 0x62 || b == 0x66 || b == 0x6E || b == 0x72
    || b == 0x74

/-- What a backslash and this byte stand for. -/
def simpleEscape (b : UInt8) : UInt8 :=
  if b == 0x62 then 0x08
  else if b == 0x66 then 0x0C
  else if b == 0x6E then 0x0A
  else if b == 0x72 then 0x0D
  else if b == 0x74 then 0x09
  else b

/-- The UTF-8 bytes of the character with this number. -/
def encodeNumber (n : Nat) : Bytes :=
  String.utf8EncodeChar (Char.ofNat n)

/-- The bytes of the string that written characters stand for, after those read so far, which
come last first.  Every backslash is taken to begin a complete escape. -/
def unescapeAfter (read : Bytes) : Bytes → Except Unpaired Bytes
  | [] => .ok read.reverse
  | 0x5C :: 0x75 :: a :: b :: c :: d :: rest =>
    let n := hexQuad a b c d
    if 0xDC00 ≤ n ∧ n < 0xE000 then .error .lone
    else if 0xD800 ≤ n ∧ n < 0xDC00 then
      match rest with
      | [] => .error .awaiting
      | 0x5C :: 0x75 :: a' :: b' :: c' :: d' :: rest' =>
        let m := hexQuad a' b' c' d'
        if 0xDC00 ≤ m ∧ m < 0xE000 then
          let whole := (n - 0xD800) * 0x400 + (m - 0xDC00) + 0x10000
          unescapeAfter ((encodeNumber whole).reverse ++ read) rest'
        else .error .lone
      | _ => .error .lone
    else unescapeAfter ((encodeNumber n).reverse ++ read) rest
  | 0x5C :: e :: rest => unescapeAfter (simpleEscape e :: read) rest
  | b :: rest => unescapeAfter (b :: read) rest

/-- The bytes of the string that written characters stand for. -/
def unescape (raw : Bytes) : Except Unpaired Bytes :=
  unescapeAfter [] raw

/-! ### Writing -/

/-- A character inside quotes: the quote, the backslash and the control characters are escaped,
the five that have one by their letter. -/
def escapeChar (c : Char) : String :=
  match c with
  | '"' => "\\\""
  | '\\' => "\\\\"
  | '\x08' => "\\b"
  | '\x0C' => "\\f"
  | '\n' => "\\n"
  | '\r' => "\\r"
  | '\t' => "\\t"
  | c =>
    if c.toNat < 0x20 then
      "\\u00" ++ String.ofList [Nat.digitChar (c.toNat / 16), Nat.digitChar (c.toNat % 16)]
    else c.toString

/-- A text in quotes. -/
def quote (s : String) : String :=
  "\"" ++ String.join (s.toList.map escapeChar) ++ "\""

end Registrar.Json
