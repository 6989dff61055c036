import Registrar.Text.Bytes
import Registrar.Text.Split

/-!
# Files

Why a file cannot be read is a `FileError`.  A `Folder` is a directory together with those above
it, as a value, and `Folder.read` reads a file there by its path, step by step as a disk does: a
name longer than 255 bytes or a path of 4096 bytes and more is refused, and every name but the
last one has to be that of a directory.
-/

namespace Registrar

open Text

/-- Why a file cannot be read. -/
inductive FileError where
  | missing
  /-- What has to be a directory is not one. -/
  | notDirectory
  /-- A directory can be opened like a file, and then not be read. -/
  | directory
  | nameTooLong
  | other (reason : String)
  deriving DecidableEq, Repr

/-- What is said of a file that cannot be read. -/
def FileError.message : FileError → String
  | .missing => "No such file or directory (os error 2)"
  | .notDirectory => "Not a directory (os error 20)"
  | .directory => "Is a directory (os error 21)"
  | .nameTooLong => "File name too long (os error 36)"
  | .other reason => reason

/-- A file, or a directory with the names of what it holds. -/
inductive FileTree where
  | file (contents : Bytes)
  | directory (entries : List (String × FileTree))

/-- A directory and the directories above it, the nearest first. -/
structure Folder where
  here : FileTree
  above : List FileTree

namespace FileTree

/-- The longest name, in bytes. -/
def nameLimit : Nat := 255

/-- What a directory holds under a name. -/
def entry (tree : FileTree) (name : String) : Except FileError FileTree :=
  match tree with
  | .file _ => .error .notDirectory
  | .directory entries =>
    if name.utf8ByteSize > nameLimit then .error .nameTooLong
    else match entries.lookup name with
      | some found => .ok found
      | none => .error .missing

/-- Follows the names of a path from a place in a tree, with the directories above it. -/
def follow (above : List FileTree) (here : FileTree) : List String → Except FileError FileTree
  | [] => .ok here
  | name :: names =>
    match here with
    | .file _ => .error .notDirectory
    | .directory _ =>
      if name = "" ∨ name = "." then follow above here names
      else if name = ".." then
        match above with
        | [] => follow [] here names
        | parent :: above => follow above parent names
      else do
        let found ← here.entry name
        follow (here :: above) found names

/-- The contents of a file. -/
def contents : FileTree → Except FileError Bytes
  | .file contents => .ok contents
  | .directory _ => .error .directory

end FileTree

namespace Folder

/-- The bytes from which on a path is too long. -/
def pathLimit : Nat := 4096

/-- The uppermost directory. -/
def root (f : Folder) : FileTree :=
  f.above.getLast?.getD f.here

/-- Reads the file at a path, which begins with a slash if it starts from the root. -/
def read (f : Folder) (path : String) : Except FileError Bytes := do
  let names := (splitAt '/' path.toList).map String.ofList
  if path.utf8ByteSize ≥ pathLimit then .error .nameTooLong
  else match names with
    | [""] => .error .missing
    | "" :: names => (← FileTree.follow [] f.root names).contents
    | names => (← FileTree.follow f.above f.here names).contents

end Folder

end Registrar
