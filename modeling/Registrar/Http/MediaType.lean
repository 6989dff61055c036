import Registrar.Text.Case

/-!
# Media types

`announcesJson` decides whether a content type is one of JSON: `application/json` or a subtype of
`application` with the suffix `+json`, in any case and with any parameters.  The text has to be
well formed throughout: a type and a subtype made of token characters, then parameters, each a
name and a value that is a token or stands in quotes.
-/

namespace Registrar.Http

/-- The characters of tokens in a header. -/
def isTokenChar (c : Char) : Bool :=
  c.isAlphanum || "!#$%&'*+-.^_`|~".toList.contains c

/-- The characters of a quoted value. -/
def isQuotedChar (c : Char) : Bool :=
  0x20 ≤ c.toNat && c.toNat < 0x7F

/-- A media type without its parameters. -/
structure MediaType where
  kind : List Char
  /-- The subtype, a suffix included. -/
  subtype : List Char

namespace MediaType

/-- Where in the parameters of a media type the reader stands. -/
inductive Place where
  /-- Before a name, possibly after blanks. -/
  | beforeName
  | name
  /-- Behind an equals sign. -/
  | beforeValue
  | value
  /-- Behind an opening quote; whatever comes next belongs to the value. -/
  | beforeQuoted
  | quoted
  | afterQuoted

/-- Are the characters after the semicolon parameters? -/
def areParameters (place : Place) : List Char → Bool
  | [] =>
    match place with
    | .beforeName | .beforeValue | .value | .afterQuoted => true
    | .name | .beforeQuoted | .quoted => false
  | c :: rest =>
    match place with
    | .beforeName =>
      if c = ' ' then areParameters .beforeName rest
      else isTokenChar c && areParameters .name rest
    | .name =>
      if c = '=' then areParameters .beforeValue rest
      else isTokenChar c && areParameters .name rest
    | .beforeValue =>
      if c = '"' then areParameters .beforeQuoted rest
      else isTokenChar c && areParameters .value rest
    | .value =>
      if c = ';' then areParameters .beforeName rest
      else isTokenChar c && areParameters .value rest
    | .beforeQuoted => isQuotedChar c && areParameters .quoted rest
    | .quoted =>
      if c = '"' then areParameters .afterQuoted rest
      else isQuotedChar c && areParameters .quoted rest
    | .afterQuoted =>
      if c = ';' then areParameters .beforeName rest
      else c = ' ' && areParameters .afterQuoted rest

/-- Reads a media type; its letters may be of either case. -/
def read? (s : String) : Option MediaType :=
  let cs := (Text.asciiLower s).toList
  let kind := cs.takeWhile isTokenChar
  match kind, cs.drop kind.length with
  | _ :: _, '/' :: rest =>
    let subtype := rest.takeWhile isTokenChar
    match subtype, rest.drop subtype.length with
    | _, [] => some ⟨kind, subtype⟩
    | _ :: _, ';' :: parameters =>
      if areParameters .beforeName parameters then some ⟨kind, subtype⟩ else none
    | _, _ => none
  | _, _ => none

/-- The subtype before its last plus sign, and the suffix after it. -/
def splitSuffix (subtype : List Char) : List Char × Option (List Char) :=
  let back := subtype.reverse
  match back.dropWhile (· != '+') with
  | _ :: front@(_ :: _) => (front.reverse, some (back.takeWhile (· != '+')).reverse)
  | _ => (subtype, none)

/-- Does the media type stand for JSON? -/
def isJson (m : MediaType) : Bool :=
  let (base, suffix) := splitSuffix m.subtype
  m.kind == "application".toList && (base == "json".toList || suffix == some "json".toList)

end MediaType

/-- Does a content type announce JSON? -/
def announcesJson (contentType : String) : Bool :=
  match MediaType.read? contentType with
  | some m => m.isJson
  | none => false

end Registrar.Http
