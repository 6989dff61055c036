import Registrar.Text.Blank
import Registrar.Text.Bytes

/-!
# Lines of settings files

A quoted value may run over several lines of the file, so lines are read together until no quote
is open (`joinLines`).  A line whose first character that is not blank is `#` is a remark, and so
is what follows a blank and `#` outside of quotes; remarks are left out, and what they quote opens
nothing.

Of several blanks in a row only the first, the third and so on count as a blank before `#`.  A
text that ends in such a blank, behind a backslash or inside quotes is unfinished, and what is
unfinished at the end of a file is not read.
-/

namespace Registrar.SettingsFile

open Text

/-- What the characters of a line leave open. -/
inductive Pending where
  /-- Nothing. -/
  | nothing
  /-- A blank, before which a remark may begin. -/
  | blank
  /-- A backslash outside of quotes. -/
  | backslash
  /-- Double quotes, and perhaps a backslash between them. -/
  | double (backslash : Bool)
  /-- Single quotes, and perhaps a backslash between them. -/
  | single (backslash : Bool)
  deriving DecidableEq, Repr

namespace Pending

/-- What is open behind a character outside of quotes. -/
def behind (c : Char) : Pending :=
  match c with
  | '\\' => .backslash
  | '"' => .double false
  | '\'' => .single false
  | _ => .nothing

/-- Does the character count as a blank inside of a line? -/
def isInnerBlank (c : Char) : Bool :=
  isBlank c && c != '\n' && c != '\r'

/-- What is open behind one more character; no answer where the character begins a remark. -/
def step (p : Pending) (c : Char) : Option Pending :=
  match p with
  | .nothing => some (if isInnerBlank c then .blank else behind c)
  | .blank => if c == '#' then none else some (behind c)
  | .backslash => some .nothing
  | .double true => some (.double false)
  | .double false =>
    some (if c == '"' then .nothing else .double (c == '\\'))
  | .single true => some (.single false)
  | .single false =>
    some (if c == '\'' then .nothing else .single (c == '\\'))

/-- The characters up to a remark, and what is open behind the last of them if there is no
remark. -/
def scan (p : Pending) : List Char → List Char × Option Pending
  | [] => ([], some p)
  | c :: cs =>
    match p.step c with
    | none => ([], none)
    | some p =>
      let (kept, p?) := p.scan cs
      (c :: kept, p?)

end Pending

/-- Is the line a remark from its start? -/
def isRemark (line : List Char) : Bool :=
  (line.dropWhile isBlank).head? == some '#'

/-- The lines of a file with those read together that an open quote joins, behind the characters
of an unfinished one.  They end before the first line that is not UTF-8. -/
def joinLines (unfinished : List Char) (p : Pending) : List Bytes → List (List Char)
  | [] => []
  | bs :: rest =>
    match text? bs with
    | none => []
    | some s =>
      if p = .nothing ∧ isRemark s.toList then joinLines [] .nothing rest
      else
        let (kept, p?) := p.scan s.toList
        match p?.getD .nothing with
        | .nothing => (unfinished ++ kept) :: joinLines [] .nothing rest
        | p => joinLines (unfinished ++ kept) p rest

/-- The bytes of each line, its line feed included. -/
def physicalLines (bs : Bytes) : List Bytes :=
  bs.foldr
    (fun b lines => match lines with
      | line :: rest => if b == 0x0A then [b] :: line :: rest else (b :: line) :: rest
      | [] => [[b]])
    []

/-- The lines of a file, those that an open quote joins read together. -/
def lines (file : Bytes) : List (List Char) :=
  joinLines [] .nothing (physicalLines (withoutMark file))

end Registrar.SettingsFile
