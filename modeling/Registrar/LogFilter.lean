import Registrar.Text.Case
import Registrar.Text.Split

/-!
# Filters of log messages

A filter is a list of directives with commas between them, empty ones left out.  A directive is a
level, or the name of a target with or without a level behind an equals sign.
`LogFilter.isValid` decides which texts are filters.
-/

namespace Registrar.LogFilter

/-- The names of levels; their numbers do as well. -/
def levelNames : List String :=
  ["off", "error", "warn", "info", "debug", "trace", "0", "1", "2", "3", "4", "5"]

/-- Does the text name a level, in any case? -/
def isLevel (cs : List Char) : Bool :=
  levelNames.contains (Text.asciiLower (String.ofList cs))

/-- The characters of the name of a target: ASCII letters and digits, and every character beyond
ASCII, which may be a letter of some script. -/
def isTargetChar (c : Char) : Bool :=
  c.isAlphanum || c == '_' || c == ':' || c == '-' || c.toNat ≥ 128

/-- Is the text the name of a target? -/
def isTarget (cs : List Char) : Bool :=
  !cs.isEmpty && cs.all isTargetChar

/-- Is the text a directive? -/
def isDirective (cs : List Char) : Bool :=
  match Text.splitAt '=' cs with
  | [target] => isTarget target
  | [target, level] => isTarget target && (level.isEmpty || isLevel level)
  | _ => false

/-- Is the text a filter? -/
def isValid (s : String) : Bool :=
  (Text.splitAt ',' s.toList).all fun directive => directive.isEmpty || isDirective directive

end Registrar.LogFilter
