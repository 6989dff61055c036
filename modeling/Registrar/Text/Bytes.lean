/-!
# Texts as bytes

File contents and request bodies arrive as lists of bytes, which need not be UTF-8.  `bytes`
encodes a text and `text?` reads one back; `text?_bytes` says that nothing is lost on the way.
-/

namespace Registrar.Text

/-- A sequence of bytes. -/
abbrev Bytes := List UInt8

/-- The UTF-8 encoding of a text. -/
def bytes (s : String) : Bytes :=
  s.toUTF8.data.toList

/-- The text that the bytes encode, if they are valid UTF-8. -/
def text? (bs : Bytes) : Option String :=
  String.fromUTF8? (ByteArray.mk bs.toArray)

/-- Encoding loses nothing. -/
theorem text?_bytes (s : String) : text? (bytes s) = some s := by
  have h : ByteArray.mk (bytes s).toArray = s.toUTF8 := by simp [bytes]
  simp [text?, h, String.fromUTF8?, s.isValidUTF8]
  rfl

/-- The text without a byte order mark at its start. -/
def withoutMark : Bytes → Bytes
  | 0xEF :: 0xBB :: 0xBF :: rest => rest
  | bs => bs

/-- The ASCII character of a byte below 128, and some other character for the rest. -/
def asciiChar (b : UInt8) : Char :=
  Char.ofNat b.toNat

/-- The ASCII digits. -/
def isDigitByte (b : UInt8) : Bool :=
  0x30 ≤ b && b ≤ 0x39

end Registrar.Text
