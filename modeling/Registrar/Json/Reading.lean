import Registrar.Json.Token

/-!
# What a JSON text says

A `Reading` is the value a text spells, as far as it goes.  Literals are kept as they are
written, and where the text breaks off the reading has a `gap`, a `cut` or a `keyless` end that
keeps the token found there, or none at the end of the text.  Nothing is judged here: the same
gap may be one fault for a decoder that needs the value and another for one that skips it.
-/

namespace Registrar.Json

open Text

mutual

/-- A value as far as the text spells it. -/
inductive Reading where
  | null
  | boolean (b : Bool)
  | numeral (n : Numeral)
  /-- The characters of a string as they are written between the quotes. -/
  | string (raw : Bytes)
  | array (items : Items)
  | object (members : Members)
  /-- A value is due, and this token stands there. -/
  | gap (found : Option Token)

/-- The items of an array and the way they end. -/
inductive Items where
  | done
  /-- A comma or the closing bracket is due, and this token stands there. -/
  | cut (found : Option Token)
  | item (first : Reading) (rest : Items)

/-- The members of an object and the way they end. -/
inductive Members where
  | done
  /-- A comma or the closing brace is due, and this token stands there. -/
  | cut (found : Option Token)
  /-- A key is due, and this token stands there. -/
  | keyless (found : Option Token)
  /-- A key, as it is written between its quotes, and its value. -/
  | member (key : Bytes) (value : Reading) (rest : Members)

end

namespace Reading

/-- The gap that a missing colon leaves: whatever else stands there is out of place. -/
def missingColon (rest : List Token) : Reading :=
  .gap (rest.head?.map fun _ => .stray)

mutual

/-- Reads a value off the front of the tokens and returns what is left.  The number bounds the
steps: values, items and members count one each. -/
def ofTokens : Nat → List Token → Reading × List Token
  | 0, _ => (.gap none, [])
  | bound + 1, ts =>
    match ts with
    | [] => (.gap none, [])
    | .null :: rest => (.null, rest)
    | .boolean b :: rest => (.boolean b, rest)
    | .numeral n :: rest => (.numeral n, rest)
    | .string raw :: rest => (.string raw, rest)
    | .openBracket :: .closeBracket :: rest => (.array .done, rest)
    | .openBracket :: rest =>
      let (items, rest) := itemsOfTokens bound rest
      (.array items, rest)
    | .openBrace :: .closeBrace :: rest => (.object .done, rest)
    | .openBrace :: rest =>
      let (members, rest) := membersOfTokens bound rest
      (.object members, rest)
    | t :: _ => (.gap (some t), [])

/-- Reads items up to the closing bracket, the first of them due at once. -/
def itemsOfTokens : Nat → List Token → Items × List Token
  | 0, _ => (.cut none, [])
  | bound + 1, ts =>
    let (first, rest) := ofTokens bound ts
    match rest with
    | .closeBracket :: rest => (.item first .done, rest)
    | .comma :: rest =>
      let (items, rest) := itemsOfTokens bound rest
      (.item first items, rest)
    | rest => (.item first (.cut rest.head?), [])

/-- Reads members up to the closing brace, a key due at once. -/
def membersOfTokens : Nat → List Token → Members × List Token
  | 0, _ => (.keyless none, [])
  | bound + 1, .string key :: .colon :: ts =>
    let (value, rest) := ofTokens bound ts
    match rest with
    | .closeBrace :: rest => (.member key value .done, rest)
    | .comma :: rest =>
      let (members, rest) := membersOfTokens bound rest
      (.member key value members, rest)
    | rest => (.member key value (.cut rest.head?), [])
  | _ + 1, .string key :: rest => (.member key (missingColon rest) (.cut none), [])
  | _ + 1, ts => (.keyless ts.head?, [])

end

/-- The value at the front of a text, and the tokens after it. -/
def ofBytes (bs : Bytes) : Reading × List Token :=
  let ts := tokens bs
  ofTokens (2 * ts.length + 1) ts

end Reading

end Registrar.Json
