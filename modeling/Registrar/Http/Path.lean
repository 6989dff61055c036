import Registrar.Text.Bytes
import Registrar.Text.Natural
import Registrar.Text.Split

/-!
# Request paths

A request target is a path, possibly with a query behind a question mark, or such a path behind a
scheme and an authority, as in `http://host/path`.  Paths are compared segment by segment as they
are written; only a segment that stands for a parameter is decoded, where `%` and two hexadecimal
digits stand for a byte and everything else for itself.
-/

namespace Registrar.Http

open Text

/-- Does the character end the path of a request target? -/
def endsPath (c : Char) : Bool :=
  c == '?' || c == '#'

/-- May the character stand in a scheme? -/
def isSchemeChar (c : Char) : Bool :=
  c.isAlphanum || c == '+' || c == '-' || c == '.'

/-- What follows the scheme and the authority of a request target that has them. -/
def behindAuthority? (target : List Char) : Option (List Char) :=
  match target.dropWhile isSchemeChar with
  | ':' :: '/' :: '/' :: rest => some (rest.dropWhile fun c => c != '/' && !endsPath c)
  | _ => none

/-- The path of a request target, without query and fragment; an authority without a path has the
path of the root, and a target of another form has none. -/
def pathOf (target : String) : List Char :=
  match target.toList with
  | '/' :: rest => '/' :: rest.takeWhile fun c => !endsPath c
  | cs =>
    match behindAuthority? cs with
    | some ('/' :: rest) => '/' :: rest.takeWhile fun c => !endsPath c
    | some _ => ['/']
    | none => []

/-- The segments of a path, which begins with a slash. -/
def segments? (path : List Char) : Option (List (List Char)) :=
  match path with
  | '/' :: rest => some (splitAt '/' rest)
  | _ => none

/-- The bytes that a segment stands for. -/
def percentDecode : List Char → Bytes
  | [] => []
  | '%' :: a :: b :: rest =>
    match digitValue? 16 a, digitValue? 16 b with
    | some high, some low => UInt8.ofNat (16 * high + low) :: percentDecode rest
    | _, _ => 0x25 :: percentDecode (a :: b :: rest)
  | c :: rest => String.utf8EncodeChar c ++ percentDecode rest

/-- The text that a segment stands for, if that is one. -/
def segmentText? (segment : List Char) : Option String :=
  text? (percentDecode segment)

/-- The id that a segment stands for, if that is one. -/
def segmentId? (segment : List Char) : Option UInt64 :=
  (segmentText? segment).bind readUInt64?

end Registrar.Http
