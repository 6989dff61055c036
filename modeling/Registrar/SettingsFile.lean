import Registrar.Settings
import Registrar.SettingsFile.Lines
import Registrar.SettingsFile.Value

/-!
# Settings files

A settings file names variables and their values, one `NAME=value` a line, with the word
`export` allowed in front.  Blank lines and remarks are left out, and so is a byte order mark in
front of the file.

`Environment.withFile?` adds the variables of a file to an environment, line by line, up to the
first line that is not of this form.  What is set already stays as it is, and a value may refer to
variables of the environment and of earlier lines.  No variable can be set to a text with a null
character.
-/

namespace Registrar.SettingsFile

open Text

/-! ### Names -/

/-- May a name begin with this character? -/
def isNameStart (c : Char) : Bool :=
  c.isAlpha || c == '_'

/-- May this character stand in a name? -/
def isNameChar (c : Char) : Bool :=
  c.isAlphanum || c == '_' || c == '.'

/-- Takes a name off the front, and the blanks behind it. -/
def takeName? (cs : List Char) : Option (String × List Char) :=
  if cs.head?.any isNameStart then
    some (String.ofList (cs.takeWhile isNameChar), (cs.dropWhile isNameChar).dropWhile isBlank)
  else none

/-- Takes an equals sign off the front, and the blanks behind it. -/
def takeEquals? : List Char → Option (List Char)
  | '=' :: rest => some (rest.dropWhile isBlank)
  | _ => none

/-! ### Assignments -/

/-- A line that sets a variable. -/
structure Assignment where
  name : String
  value : List Piece
  deriving DecidableEq, Repr

/-- Reads the value of a variable; a remark in its place means the empty value. -/
def readValue? (name : String) (cs : List Char) : Option Assignment :=
  match cs with
  | [] | '#' :: _ => some ⟨name, []⟩
  | _ => (readPieces? cs).map fun value => ⟨name, value⟩

/-- Reads an assignment. -/
def readAssignment? (cs : List Char) : Option Assignment := do
  let (name, rest) ← takeName? cs
  match name, takeEquals? rest with
  | _, some value => readValue? name value
  | "export", none => do
    let (name, rest) ← takeName? rest
    readValue? name (← takeEquals? rest)
  | _, none => none

/-- The assignment of a line, if it has any; no answer where it has not the form of a line. -/
def readLine? (line : List Char) : Option (Option Assignment) :=
  match trimChars line with
  | [] | '#' :: _ => some none
  | cs => (readAssignment? cs).map some

/-- The assignments of lines, up to the first that has not the form of a line. -/
def assignments : List (List Char) → List Assignment
  | [] => []
  | line :: rest =>
    match readLine? line with
    | none => []
    | some found => found.toList ++ assignments rest

/-- The assignments of a file, in order. -/
def read (file : Bytes) : List Assignment :=
  assignments (lines file)

end Registrar.SettingsFile

namespace Registrar.Environment

open SettingsFile

/-- Sets a variable, unless it is set already; no answer where it cannot be set. -/
def assign? (env : Environment) (a : Assignment) : Option Environment :=
  let value := expand (fun name => env.lookup name) a.value
  if (env.lookup a.name).isSome then some env
  else if value.toList.contains '\x00' then none
  else some (env ++ [(a.name, value)])

/-- The environment with the variables of a settings file; no answer where one of them cannot be
set. -/
def withFile? (env : Environment) (file : Text.Bytes) : Option Environment :=
  (read file).foldlM assign? env

end Registrar.Environment
