import Registrar.Json.Reading

/-!
# Decoding what a JSON text says

A `Decoder α` takes a reading to a value of type `α` or to the first `Fault` met from left to
right.  It is told how many arrays and objects may still be entered, and refuses the one beyond
as malformed.  A value that nobody wants is passed over by `Reading.skip`, which asks less of it
than a decoder does: any nesting, any size of number and any escaped character will do.

`decodeText` decodes a text with nothing but blanks after the value, and `decodeFront` the value
a text begins with.
-/

namespace Registrar.Json

open Text

/-- Why a text does not decode. -/
inductive Fault where
  /-- It ends too early. -/
  | truncated
  /-- It is not JSON, or nested too deeply. -/
  | malformed
  /-- It is JSON, and not of the shape that is wanted. -/
  | unsuitable
  deriving DecidableEq, Repr

/-- Takes a reading to a value, with the number of arrays and objects that may be entered. -/
abbrev Decoder (α : Type) := Nat → Reading → Except Fault α

/-- The arrays and objects that may stand inside each other. -/
def maxNesting : Nat := 127

/-! ### Literals and gaps -/

/-- The text of a string as it is written between its quotes. -/
def stringText (raw : Bytes) : Except Fault String :=
  match unescape raw with
  | .error _ => .error .malformed
  | .ok bs =>
    match text? bs with
    | some s => .ok s
    | none => .error .malformed

/-- The fault of a value that is due where this token stands, when the value is wanted. -/
def gapFault : Option Token → Fault
  | none => .truncated
  | some .cutWord => .truncated
  | some .cutNumeral => .truncated
  | some (.cutString raw) =>
    match unescape raw with
    | .error .lone => .malformed
    | _ => .truncated
  | some _ => .malformed

/-- The fault of a separator or a closing bracket that is due where this token stands. -/
def cutFault : Option Token → Fault
  | none => .truncated
  | some _ => .malformed

/-- The fault of a key that is due where this token stands. -/
def keyFault : Option Token → Fault
  | none => .truncated
  | some (.cutString raw) => gapFault (some (.cutString raw))
  | some _ => .malformed

/-- The fault of a value of another kind than the wanted one.  A literal is read before its kind
is found unsuitable; arrays and objects are not entered. -/
def mismatch : Reading → Fault
  | .gap found => gapFault found
  | .numeral n => if n.overflows then .malformed else .unsuitable
  | .string raw =>
    match stringText raw with
    | .ok _ => .unsuitable
    | .error fault => fault
  | _ => .unsuitable

/-! ### Passing over a value -/

namespace Reading

/-- The fault of a value that is due where this token stands, when the value is passed over. -/
def skipFault : Option Token → Fault
  | none => .truncated
  | some .cutWord => .truncated
  | some (.cutString _) => .truncated
  | some _ => .malformed

/-- The fault of a key that is due where this token stands, when the object is passed over. -/
def skipKeyFault : Option Token → Fault
  | none => .truncated
  | some (.cutString _) => .truncated
  | some _ => .malformed

mutual

/-- Passes over a value that is complete, whatever its literals stand for. -/
def skip : Reading → Except Fault Unit
  | .array items => skipItems items
  | .object members => skipMembers members
  | .gap found => .error (skipFault found)
  | _ => .ok ()

/-- Passes over the items of an array. -/
def skipItems : Items → Except Fault Unit
  | .done => .ok ()
  | .cut found => .error (cutFault found)
  | .item first rest => do
    skip first
    skipItems rest

/-- Passes over the members of an object. -/
def skipMembers : Members → Except Fault Unit
  | .done => .ok ()
  | .cut found => .error (cutFault found)
  | .keyless found => .error (skipKeyFault found)
  | .member _ value rest => do
    skip value
    skipMembers rest

end

mutual

/-- Reads a value of any kind: its literals are read and its nesting counts. -/
def readAny (room : Nat) : Reading → Except Fault Unit
  | .null => .ok ()
  | .boolean _ => .ok ()
  | .numeral n => if n.overflows then .error .malformed else .ok ()
  | .string raw => (stringText raw).map fun _ => ()
  | .array items => if room = 0 then .error .malformed else readAnyItems (room - 1) items
  | .object members => if room = 0 then .error .malformed else readAnyMembers (room - 1) members
  | .gap found => .error (gapFault found)

/-- Reads the items of an array, of any kind. -/
def readAnyItems (room : Nat) : Items → Except Fault Unit
  | .done => .ok ()
  | .cut found => .error (cutFault found)
  | .item first rest => do
    readAny room first
    readAnyItems room rest

/-- Reads the members of an object, of any kind. -/
def readAnyMembers (room : Nat) : Members → Except Fault Unit
  | .done => .ok ()
  | .cut found => .error (cutFault found)
  | .keyless found => .error (keyFault found)
  | .member key value rest => do
    let _ ← stringText key
    readAny room value
    readAnyMembers room rest

end

end Reading

/-! ### Decoders of literals -/

namespace Decoder

/-- A natural number below a bound. -/
def naturalBelow (bound : Nat) : Decoder Nat := fun _ reading =>
  match reading with
  | .numeral n =>
    match n.natural? with
    | some value => if value < bound then .ok value else .error (mismatch reading)
    | none => .error (mismatch reading)
  | _ => .error (mismatch reading)

/-- A natural number of 64 bits. -/
def uint64 : Decoder UInt64 := fun room reading =>
  (naturalBelow UInt64.size room reading).map UInt64.ofNat

/-- A natural number of 32 bits. -/
def uint32 : Decoder UInt32 := fun room reading =>
  (naturalBelow UInt32.size room reading).map UInt32.ofNat

/-- A string. -/
def string : Decoder String := fun _ reading =>
  match reading with
  | .string raw => stringText raw
  | _ => .error (mismatch reading)

/-- A truth value. -/
def boolean : Decoder Bool := fun _ reading =>
  match reading with
  | .boolean b => .ok b
  | _ => .error (mismatch reading)

/-- A string that a function makes sense of. -/
def parsed {α : Type} (parse : String → Option α) : Decoder α := fun room reading => do
  let s ← string room reading
  match parse s with
  | some a => .ok a
  | none => .error .unsuitable

/-- A value that may be `null`. -/
def nullable {α : Type} (decode : Decoder α) : Decoder (Option α) := fun room reading =>
  match reading with
  | .null => .ok none
  | _ => (decode room reading).map some

/-! ### Arrays and choices -/

/-- The items of an array, each decoded alike. -/
def items {α : Type} (decode : Decoder α) (room : Nat) : Items → Except Fault (List α)
  | .done => .ok []
  | .cut found => .error (cutFault found)
  | .item first rest => do
    let a ← decode room first
    let as ← items decode room rest
    pure (a :: as)

/-- An array. -/
def list {α : Type} (decode : Decoder α) : Decoder (List α) := fun room reading =>
  match reading, room with
  | .array _, 0 => .error .malformed
  | .array is, room + 1 => items decode room is
  | _, _ => .error (mismatch reading)

/-- One of finitely many names: a string, or an object with the name as its only key and `null`
as its value. -/
def choice {α : Type} (named : String → Option α) : Decoder α := fun room reading =>
  match reading with
  | .string raw => do select (← stringText raw)
  | .object members =>
    if room = 0 then .error .malformed
    else match members with
      | .member key value rest => do
        let a ← select (← stringText key)
        match value with
        | .null => match rest with
          | .done => .ok a
          | .cut found => .error (cutFault found)
          | _ => .error .malformed
        | _ => .error (mismatch value)
      | .keyless found => .error (keyFault found)
      | _ => .error .malformed
  | .gap (some (.cutString raw)) => .error (gapFault (some (.cutString raw)))
  | .gap none => .error .truncated
  -- Any other value is refused at its first byte, without being read.
  | _ => .error .malformed
where
  /-- The alternative of this name. -/
  select (name : String) : Except Fault α :=
    match named name with
    | some a => .ok a
    | none => .error .unsuitable

end Decoder

/-! ### Texts -/

/-- Decodes the value that a text begins with, whatever follows it. -/
def decodeFront {α : Type} (decode : Decoder α) (bs : Bytes) : Except Fault α :=
  decode maxNesting (Reading.ofBytes bs).1

/-- Decodes a text that holds one value and blanks around it. -/
def decodeText {α : Type} (decode : Decoder α) (bs : Bytes) : Except Fault α := do
  let (reading, rest) := Reading.ofBytes bs
  let a ← decode maxNesting reading
  if rest.isEmpty then .ok a else .error .malformed

end Registrar.Json
