/-!
# Blank characters

`isBlank` decides Unicode's property `White_Space`, and `trim` cuts blanks off both ends of a
text.  The property has more characters than `Char.isWhitespace` knows: the vertical tab, the form
feed, the next-line control and the wide spaces.
-/

namespace Registrar.Text

/-- The characters with Unicode's property `White_Space`. -/
def isBlank (c : Char) : Bool :=
  let n := c.toNat
  (0x09 ≤ n && n ≤ 0x0D) || n == 0x20 || n == 0x85 || n == 0xA0 || n == 0x1680
    || (0x2000 ≤ n && n ≤ 0x200A) || n == 0x2028 || n == 0x2029 || n == 0x202F || n == 0x205F
    || n == 0x3000

/-- Drops the blanks that a list of characters ends in. -/
def dropTrailingBlanks (cs : List Char) : List Char :=
  (cs.reverse.dropWhile isBlank).reverse

/-- The characters between the first and the last that is not blank, ends included. -/
def trimChars (cs : List Char) : List Char :=
  dropTrailingBlanks (cs.dropWhile isBlank)

/-- The text without the blanks at its two ends. -/
def trim (s : String) : String :=
  String.ofList (trimChars s.toList)

/-- A text of blanks only, the empty one included. -/
def isBlankText (s : String) : Bool :=
  s.toList.all isBlank

end Registrar.Text
