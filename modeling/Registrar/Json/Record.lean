import Registrar.Json.Decoder

/-!
# Records in JSON

A `Record α` describes how the members of an object make up a value of type `α`.  Records are
put together from members by `<$>` and `<*>`, and the order of the members is that of the
description: `Record.decoder` reads an object with its members in any order, or an array with
its items in that order.

In an object, members of other names are passed over, a name that comes twice is unsuitable at
once, and a missing one is noticed at the closing brace.  In an array, members with a value for
their absence may be missing from the end, and a surplus item is malformed.
-/

namespace Registrar.Json

open Text

/-- A description of a value by named members. -/
structure Record (α : Type) where
  /-- What has been found of the value so far. -/
  Slots : Type
  /-- Nothing found yet. -/
  empty : Slots
  /-- Takes up the member of this name, if the record has one. -/
  put : Nat → String → Reading → Slots → Option (Except Fault Slots)
  /-- The value, if nothing that it needs is missing. -/
  result : Slots → Option α
  /-- Takes the members in order off the front of an array. -/
  inOrder : Nat → Items → Except Fault (α × Items)

namespace Record

variable {α β : Type}

/-- A member that goes by one of several names, with the value that its absence stands for, if
it may be absent. -/
def member (names : List String) (decode : Decoder α) (absent : Option α) : Record α where
  Slots := Option α
  empty := none
  put room name reading slot :=
    if names.contains name then
      match slot with
      | some _ => some (.error .unsuitable)
      | none => some ((decode room reading).map some)
    else none
  result slot := slot <|> absent
  inOrder room
    | .item first rest => do
      let a ← decode room first
      pure (a, rest)
    | .cut found => .error (cutFault found)
    | .done =>
      match absent with
      | some a => .ok (a, .done)
      | none => .error .unsuitable

/-- A member that must be there. -/
def required (name : String) (decode : Decoder α) : Record α :=
  member [name] decode none

/-- A member that may be absent, with the value that its absence stands for. -/
def withDefault (name : String) (decode : Decoder α) (absent : α) : Record α :=
  member [name] decode (some absent)

/-- A member that may be absent or `null`. -/
def optional (name : String) (decode : Decoder α) : Record (Option α) :=
  member [name] (Decoder.nullable decode) (some none)

instance : Functor Record where
  map f r :=
    { Slots := r.Slots
      empty := r.empty
      put := r.put
      result := fun slots => (r.result slots).map f
      inOrder := fun room items => (r.inOrder room items).map fun (a, rest) => (f a, rest) }

instance : Seq Record where
  seq f r :=
    let r := r ()
    { Slots := f.Slots × r.Slots
      empty := (f.empty, r.empty)
      put := fun room name reading (left, right) =>
        match f.put room name reading left with
        | some step => some (step.map fun left => (left, right))
        | none => (r.put room name reading right).map fun step =>
          step.map fun right => (left, right)
      result := fun (left, right) =>
        match f.result left, r.result right with
        | some g, some a => some (g a)
        | _, _ => none
      inOrder := fun room items => do
        let (g, items) ← f.inOrder room items
        let (a, items) ← r.inOrder room items
        pure (g a, items) }

/-- Takes up the members of an object one by one. -/
def ofMembers (r : Record α) (room : Nat) : Members → r.Slots → Except Fault α
  | .done, slots =>
    match r.result slots with
    | some a => .ok a
    | none => .error .unsuitable
  | .cut found, _ => .error (cutFault found)
  | .keyless found, _ => .error (keyFault found)
  | .member key value rest, slots => do
    let name ← stringText key
    match r.put room name value slots with
    | some step => do
      let slots ← step
      ofMembers r room rest slots
    | none => do
      value.skip
      ofMembers r room rest slots

/-- Takes the items of an array for the members in order. -/
def ofItems (r : Record α) (room : Nat) (items : Items) : Except Fault α := do
  let (a, rest) ← r.inOrder room items
  match rest with
  | .done => .ok a
  | .cut found => .error (cutFault found)
  | .item _ _ => .error .malformed

/-- Reads a record from an object, or from an array of its members in order. -/
def decoder (r : Record α) : Decoder α := fun room reading =>
  match reading, room with
  | .object _, 0 => .error .malformed
  | .array _, 0 => .error .malformed
  | .object members, room + 1 => r.ofMembers room members r.empty
  | .array items, room + 1 => r.ofItems room items
  | _, _ => .error (mismatch reading)

end Record

end Registrar.Json
