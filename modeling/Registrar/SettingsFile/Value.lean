import Registrar.Text.Alphanumeric

/-!
# Values in settings files

A value is a sequence of `Piece`s: characters, and variables whose values stand for them.
`readPieces?` takes a value apart.  Quotes keep blanks, and between single quotes every character
stands for itself.  Elsewhere a backslash marks a character that stands for itself, or `n` for a
line break, and a dollar sign begins the name of a variable: a run of letters and digits, or
anything between braces.  The character behind a name without braces stands for itself, even a
quote.  A blank outside of quotes ends the value, and only a remark may follow it.
-/

namespace Registrar.SettingsFile

open Text

/-- A part of a value. -/
inductive Piece where
  | char (c : Char)
  | variable (name : String)
  deriving DecidableEq, Repr

/-- Where in a value the reader stands; `quoted` says whether that is between double quotes. -/
inductive Place where
  | plain (quoted : Bool)
  /-- Behind a backslash. -/
  | escape (quoted : Bool)
  /-- Between single quotes. -/
  | single
  /-- In a name behind a dollar sign, the characters of the name so far last first. -/
  | name (quoted : Bool) (letters : List Char)
  /-- In a name between braces, the characters of the name so far last first. -/
  | braces (quoted : Bool) (letters : List Char)
  /-- Behind the value. -/
  | behind
  | remark
  deriving DecidableEq, Repr

/-- The character that one stands for behind a backslash. -/
def escaped? : Char → Option Char
  | 'n' => some '\n'
  | c => if ['\\', '\'', '"', '$', ' '].contains c then some c else none

/-- A variable whose name has been read last character first. -/
def Piece.ofLetters (letters : List Char) : Piece :=
  .variable (String.ofList letters.reverse)

namespace Place

/-- Takes a character that is not in a name. -/
def stepPlain (quoted : Bool) (c : Char) : List Piece × Place :=
  match quoted, c with
  | _, '$' => ([], .name quoted [])
  | _, '\\' => ([], .escape quoted)
  | _, '"' => ([], .plain !quoted)
  | false, '\'' => ([], .single)
  | false, ' ' | false, '\t' => ([], .behind)
  | _, c => ([.char c], .plain quoted)

/-- Takes a character behind a dollar sign and some letters of a name. -/
def stepName (quoted : Bool) (letters : List Char) (c : Char) : List Piece × Place :=
  if isAlphanumeric c then ([], .name quoted (c :: letters))
  else match letters, c with
    | [], '{' => ([], .braces quoted [])
    | _, '$' => ([.ofLetters letters], .name quoted [])
    | _, _ => ([.ofLetters letters, .char c], .plain quoted)

/-- Takes a character; answers with the pieces that it completes. -/
def step (p : Place) (c : Char) : Option (List Piece × Place) :=
  match p with
  | .plain quoted => some (stepPlain quoted c)
  | .escape quoted => (escaped? c).map fun meant => ([.char meant], .plain quoted)
  | .single => some (if c == '\'' then ([], .plain false) else ([.char c], .single))
  | .name quoted letters => some (stepName quoted letters c)
  | .braces quoted letters =>
    some
      (if c == '\x7d' then ([.ofLetters letters], .plain quoted)
        else ([], .braces quoted (c :: letters)))
  | .behind =>
    if c == ' ' || c == '\t' then some ([], .behind)
    else if c == '#' then some ([], .remark)
    else none
  | .remark => some ([], .remark)

/-- The pieces that the end of the text completes, unless a quote or a brace is open. -/
def finish? : Place → Option (List Piece)
  | .plain false | .escape false | .behind | .remark => some []
  | .name false letters => some [.ofLetters letters]
  | _ => none

/-- Takes a text apart from some place on. -/
def pieces? (p : Place) : List Char → Option (List Piece)
  | [] => p.finish?
  | c :: cs => do
    let (done, p) ← p.step c
    let rest ← p.pieces? cs
    pure (done ++ rest)

end Place

/-- Takes a value apart. -/
def readPieces? (cs : List Char) : Option (List Piece) :=
  (Place.plain false).pieces? cs

/-- What a piece stands for, given the values of variables; nothing for one without a value. -/
def Piece.text (valueOf : String → Option String) : Piece → String
  | .char c => c.toString
  | .variable name => (valueOf name).getD ""

/-- What a value stands for, given the values of variables. -/
def expand (valueOf : String → Option String) (pieces : List Piece) : String :=
  String.join (pieces.map fun piece => piece.text valueOf)

end Registrar.SettingsFile
