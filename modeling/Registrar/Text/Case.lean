/-!
# ASCII letter case

The case maps of this library move the letters `a`–`z` and `A`–`Z` and leave every other
character alone, so they never change the length of a text.
-/

namespace Registrar.Text

/-- The text with its ASCII letters in upper case. -/
def asciiUpper (s : String) : String :=
  String.ofList (s.toList.map Char.toUpper)

/-- The text with its ASCII letters in lower case. -/
def asciiLower (s : String) : String :=
  String.ofList (s.toList.map Char.toLower)

/-- Equality up to the case of ASCII letters. -/
def sameUpToCase (s t : String) : Bool :=
  asciiLower s == asciiLower t

end Registrar.Text
