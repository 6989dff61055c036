import Registrar.Json.Record
import Registrar.Proofs.Json.Numeral
import Registrar.Proofs.Json.Written
import Registrar.Proofs.Outcome

/-!
# Records read back, and what records yield

`Record.ofWritten` is what comes of the members of an object that has been written.  A record that
is put together from parts reads them one after another: when the members that stand first belong
to its first part and the others to its second, each part is read by itself (`ofWritten_seq`).
With `ofWritten_member` and `ofWritten_optional` this tells what comes of an object, the first
fault included.  `Record.Reads` puts parts together that are all read.

In the other direction, `Decoder.Yields` and `Record.Yields` say what all values have that a
decoder or a record accepts, however the text is written.
-/

namespace Registrar.Json

open Text

variable {α β : Type}

/-! ### Literals read back -/

namespace Decoder

@[simp] theorem uint64_reading (room : Nat) (n : UInt64) :
    uint64 room (Value.natural n.toNat).reading = .ok n := by
  have hlt : n.toNat < UInt64.size := n.toNat_lt
  simp only [uint64, naturalBelow, Value.reading, Numeral.natural?_ofNat, if_pos hlt]
  exact congrArg Except.ok UInt64.ofNat_toNat

@[simp] theorem uint32_reading (room : Nat) (n : UInt32) :
    uint32 room (Value.natural n.toNat).reading = .ok n := by
  have hlt : n.toNat < UInt32.size := n.toNat_lt
  simp only [uint32, naturalBelow, Value.reading, Numeral.natural?_ofNat, if_pos hlt]
  exact congrArg Except.ok UInt32.ofNat_toNat

@[simp] theorem string_reading (room : Nat) (s : String) :
    string room (Value.string s).reading = .ok s :=
  stringText_escaped s

@[simp] theorem boolean_reading (room : Nat) (b : Bool) :
    boolean room (Value.boolean b).reading = .ok b :=
  rfl

theorem parsed_reading {parse : String → Option α} {s : String} {a : α} (h : parse s = some a)
    (room : Nat) : parsed parse room (Value.string s).reading = .ok a := by
  simp only [parsed, string_reading, bind, Except.bind, h]

theorem nullable_of_ne_null (decode : Decoder α) (room : Nat) {reading : Reading}
    (h : reading ≠ .null) : nullable decode room reading = (decode room reading).map some := by
  cases reading with
  | null => exact absurd rfl h
  | _ => rfl

/-- Written items are read if each of them is, and else the first that is not stops it. -/
theorem items_map {decode : Decoder α} {room : Nat} {write : α → Value} {Fits : α → Prop}
    [DecidablePred Fits] {as : List α} (h : ∀ a ∈ as, decode room (write a).reading =
      if Fits a then .ok a else .error .malformed) :
    items decode room (Value.itemsReading (as.map write)) =
      if ∀ a ∈ as, Fits a then .ok as else .error .malformed := by
  induction as with
  | nil => simp [Value.itemsReading, items]
  | cons a rest ih =>
    obtain ⟨ha, hrest⟩ := List.forall_mem_cons.mp h
    have hall : (∀ b ∈ a :: rest, Fits b) ↔ Fits a ∧ ∀ b ∈ rest, Fits b := List.forall_mem_cons
    rw [List.map_cons, Value.itemsReading, items, ha, ih hrest]
    -- The items are read from the front, so the first one that does not fit decides.
    by_cases hfirst : Fits a
    · by_cases hothers : ∀ b ∈ rest, Fits b
      · rw [if_pos hfirst, if_pos hothers, if_pos (hall.mpr ⟨hfirst, hothers⟩)]
        rfl
      · have hsome : ¬∀ b ∈ a :: rest, Fits b := fun h => hothers (hall.mp h).2
        rw [if_pos hfirst, if_neg hothers, if_neg hsome]
        rfl
    · have hsome : ¬∀ b ∈ a :: rest, Fits b := fun h => hfirst (hall.mp h).1
      rw [if_neg hfirst, if_neg hsome]
      rfl

/-- A written array is read if all of its items are. -/
theorem list_reading {decode : Decoder α} {room : Nat} {write : α → Value} {as : List α}
    (h : ∀ a ∈ as, decode room (write a).reading = .ok a) :
    list decode (room + 1) (Value.array (as.map write)).reading = .ok as := by
  have hitems : ∀ a ∈ as, decode room (write a).reading =
      if True then .ok a else .error .malformed :=
    fun a ha => (h a ha).trans (if_pos trivial).symm
  exact (items_map hitems).trans (if_pos fun _ _ => trivial)

end Decoder

namespace Record

/-! ### Objects read back -/

/-- The record has a member of this name. -/
def Knows (r : Record α) (name : String) : Prop :=
  ∀ room reading slots, (r.put room name reading slots).isSome = true

/-- The record has no member of this name. -/
def Ignores (r : Record α) (name : String) : Prop :=
  ∀ room reading slots, r.put room name reading slots = none

theorem knows_member {names : List String} {decode : Decoder α} {absent : Option α}
    {name : String} (h : name ∈ names) : (member names decode absent).Knows name := by
  intro room reading slot
  have hname : names.contains name = true := List.contains_iff_mem.mpr h
  cases slot <;> simp only [member, hname, if_true, Option.isSome_some]

theorem ignores_member {names : List String} {decode : Decoder α} {absent : Option α}
    {name : String} (h : name ∉ names) : (member names decode absent).Ignores name := by
  intro room reading slot
  have hname : names.contains name = false := by
    rw [Bool.eq_false_iff]
    exact fun hc => h (List.contains_iff_mem.mp hc)
  simp only [member, hname, Bool.false_eq_true, if_false]

theorem Knows.map {r : Record α} {name : String} (h : r.Knows name) (f : α → β) :
    (f <$> r).Knows name :=
  h

theorem Ignores.map {r : Record α} {name : String} (h : r.Ignores name) (f : α → β) :
    (f <$> r).Ignores name :=
  h

/-- What the first part takes up leaves the second alone. -/
theorem put_seq_of_eq_some {f : Record (α → β)} {room : Nat} {name : String} {reading : Reading}
    {left : f.Slots} {step : Except Fault f.Slots} (h : f.put room name reading left = some step)
    (r : Record α) (right : r.Slots) :
    (f <*> r).put room name reading (left, right) =
      some (step.map fun left => (left, right)) := by
  simp only [Seq.seq, h]

/-- What the first part does not know is for the second to take up. -/
theorem put_seq_of_ignores {f : Record (α → β)} {name : String} (h : f.Ignores name)
    (r : Record α) (room : Nat) (reading : Reading) (left : f.Slots) (right : r.Slots) :
    (f <*> r).put room name reading (left, right) =
      (r.put room name reading right).map fun step => step.map fun right => (left, right) := by
  simp only [Seq.seq, h room reading left]

theorem Knows.seq_left {f : Record (α → β)} {name : String} (h : f.Knows name) (r : Record α) :
    (f <*> r).Knows name := by
  rintro room reading ⟨left, right⟩
  obtain ⟨step, hstep⟩ := Option.isSome_iff_exists.mp (h room reading left)
  rw [put_seq_of_eq_some hstep]
  rfl

theorem Knows.seq_right {r : Record α} {name : String} (h : r.Knows name) (f : Record (α → β)) :
    (f <*> r).Knows name := by
  rintro room reading ⟨left, right⟩
  simp only [Seq.seq]
  split
  · rfl
  · rw [Option.isSome_map]
    exact h room reading right

theorem Ignores.seq {f : Record (α → β)} {r : Record α} {name : String} (hf : f.Ignores name)
    (hr : r.Ignores name) : (f <*> r).Ignores name := by
  rintro room reading ⟨left, right⟩
  rw [put_seq_of_ignores hf, hr room reading right, Option.map_none]

/-- A written member is taken up by its name. -/
theorem ofMembers_cons (r : Record α) (room : Nat) (name : String) (v : Value)
    (rest : List (String × Value)) (slots : r.Slots) :
    r.ofMembers room (Value.membersReading ((name, v) :: rest)) slots =
      match r.put room name v.reading slots with
      | some step => step >>= r.ofMembers room (Value.membersReading rest)
      | none => v.reading.skip >>= fun _ => r.ofMembers room (Value.membersReading rest) slots := by
  rw [Value.membersReading, ofMembers, stringText_escaped]
  rfl

theorem ofMembers_map (f : α → β) (r : Record α) (room : Nat) :
    ∀ (members : Members) (slots : r.Slots),
      (f <$> r).ofMembers room members slots = (r.ofMembers room members slots).map f
  | .done, slots => by
    have hresult : (f <$> r).result slots = (r.result slots).map f := rfl
    rw [ofMembers, ofMembers, hresult]
    cases r.result slots <;> rfl
  | .cut _, _ => rfl
  | .keyless _, _ => rfl
  | .member key value rest, slots => by
    -- Mapping the result changes neither the slots nor what is put into them.
    have hput : ∀ name, (f <$> r).put room name value slots = r.put room name value slots :=
      fun _ => rfl
    rw [ofMembers, ofMembers]
    cases stringText key with
    | error _ => rfl
    | ok name =>
      simp only [bind, Except.bind, hput]
      cases r.put room name value slots with
      | none =>
        cases value.skip with
        | error _ => rfl
        | ok _ => exact ofMembers_map f r room rest slots
      | some step =>
        cases step with
        | error _ => rfl
        | ok slots => exact ofMembers_map f r room rest slots

/-- Once its first part has all it needs, a record reads on with its second part, as long as
the members that follow are none of the first part. -/
theorem ofMembers_seq_of_result {f : Record (α → β)} {r : Record α} {room : Nat} {g : α → β}
    {left : f.Slots} (hg : f.result left = some g) {members : List (String × Value)}
    (h : ∀ m ∈ members, f.Ignores m.1) (right : r.Slots) :
    (f <*> r).ofMembers room (Value.membersReading members) (left, right) =
      (r.ofMembers room (Value.membersReading members) right).map g := by
  induction members generalizing right with
  | nil =>
    have hresult : (f <*> r).result (left, right) = (r.result right).map g := by
      simp only [Seq.seq, hg]
      cases r.result right <;> rfl
    rw [Value.membersReading, ofMembers, ofMembers, hresult]
    cases r.result right <;> rfl
  | cons m rest ih =>
    obtain ⟨k, v⟩ := m
    obtain ⟨hk, hrest⟩ := List.forall_mem_cons.mp h
    -- The first part ignores the member, so the slots of the second alone may change.
    rw [ofMembers_cons, ofMembers_cons, put_seq_of_ignores hk]
    cases r.put room k v.reading right with
    | none =>
      cases v.reading.skip with
      | error _ => rfl
      | ok _ => exact ih hrest right
    | some step =>
      cases step with
      | error _ => rfl
      | ok right => exact ih hrest right

/-- A record reads the members of its first part from wherever it stands, and then those of its
second. -/
theorem ofMembers_seq {f : Record (α → β)} {r : Record α} {room : Nat} {g : α → β}
    {front back : List (String × Value)} (hfront : ∀ m ∈ front, f.Knows m.1)
    (hback : ∀ m ∈ back, f.Ignores m.1) {left : f.Slots} (right : r.Slots)
    (hg : f.ofMembers room (Value.membersReading front) left = .ok g) :
    (f <*> r).ofMembers room (Value.membersReading (front ++ back)) (left, right) =
      (r.ofMembers room (Value.membersReading back) right).map g := by
  -- The members of the first part leave the slots of the second alone.
  induction front generalizing left with
  | nil =>
    rw [Value.membersReading, ofMembers] at hg
    split at hg
    · rename_i g' hresult
      obtain rfl := Except.ok.inj hg
      exact ofMembers_seq_of_result hresult hback right
    · exact absurd hg (by simp)
  | cons m rest ih =>
    obtain ⟨k, v⟩ := m
    obtain ⟨hk, hrest⟩ := List.forall_mem_cons.mp hfront
    obtain ⟨step, hstep⟩ := Option.isSome_iff_exists.mp (hk room v.reading left)
    rw [ofMembers_cons, hstep] at hg
    rw [List.cons_append, ofMembers_cons, put_seq_of_eq_some hstep]
    cases step with
    | error _ => exact absurd hg (by simp)
    | ok left => exact ih hrest hg

/-- What comes of the members of a written object. -/
def ofWritten (r : Record α) (room : Nat) (members : List (String × Value)) : Except Fault α :=
  r.ofMembers room (Value.membersReading members) r.empty

theorem ofWritten_map (f : α → β) (r : Record α) (room : Nat) (members : List (String × Value)) :
    (f <$> r).ofWritten room members = (r.ofWritten room members).map f :=
  ofMembers_map f r room (Value.membersReading members) r.empty

/-- A record reads the members of its first part and then those of its second. -/
theorem ofWritten_seq {f : Record (α → β)} (r : Record α) {room : Nat} {g : α → β}
    {front back : List (String × Value)} (hfront : ∀ m ∈ front, f.Knows m.1)
    (hback : ∀ m ∈ back, f.Ignores m.1) (hg : f.ofWritten room front = .ok g) :
    (f <*> r).ofWritten room (front ++ back) = (r.ofWritten room back).map g :=
  ofMembers_seq hfront hback r.empty hg

/-- Without any members of the second part, it comes to what its absence stands for. -/
theorem ofMembers_seq_of_absent {f : Record (α → β)} {r : Record α} {room : Nat} {a : α}
    {right : r.Slots} (ha : r.result right = some a) {members : List (String × Value)}
    (h : ∀ m ∈ members, f.Knows m.1) (left : f.Slots) :
    (f <*> r).ofMembers room (Value.membersReading members) (left, right) =
      (f.ofMembers room (Value.membersReading members) left).map fun g => g a := by
  induction members generalizing left with
  | nil =>
    have hresult : (f <*> r).result (left, right) = (f.result left).map fun g => g a := by
      simp only [Seq.seq, ha]
      cases f.result left <;> rfl
    rw [Value.membersReading, ofMembers, ofMembers, hresult]
    cases f.result left <;> rfl
  | cons m rest ih =>
    obtain ⟨k, v⟩ := m
    obtain ⟨hk, hrest⟩ := List.forall_mem_cons.mp h
    -- The first part takes the member up, so the slots of the second stay empty.
    obtain ⟨step, hstep⟩ := Option.isSome_iff_exists.mp (hk room v.reading left)
    rw [ofMembers_cons, ofMembers_cons, hstep, put_seq_of_eq_some hstep]
    cases step with
    | error _ => rfl
    | ok left => exact ih hrest left

theorem ofWritten_seq_of_absent {f : Record (α → β)} {r : Record α} (room : Nat) {a : α}
    (ha : r.result r.empty = some a) {members : List (String × Value)}
    (h : ∀ m ∈ members, f.Knows m.1) :
    (f <*> r).ofWritten room members = (f.ofWritten room members).map fun g => g a :=
  ofMembers_seq_of_absent ha h f.empty

/-- A member that stands there alone is what the record comes to. -/
theorem ofWritten_member {names : List String} {name : String} (h : name ∈ names)
    (decode : Decoder α) (absent : Option α) (room : Nat) (v : Value) :
    (member names decode absent).ofWritten room [(name, v)] = decode room v.reading := by
  have hname : names.contains name = true := List.contains_iff_mem.mpr h
  refine (ofMembers_cons (member names decode absent) room name v [] none).trans ?_
  simp only [member, hname, if_true]
  cases decode room v.reading <;> rfl

/-- A member that is written unless there is nothing to write is read back, and so is its
absence. -/
theorem ofWritten_optional {names : List String} {name : String} (h : name ∈ names)
    (decode : Decoder α) (room : Nat) (a : Option α) (write : α → Value)
    (hnull : ∀ a, (write a).reading ≠ .null) :
    (member names (.nullable decode) (some none)).ofWritten room (Value.optional name a write) =
      match a with
      | some a => (decode room (write a).reading).map some
      | none => .ok none := by
  cases a with
  | none => rfl
  | some a =>
    rw [Value.optional, ofWritten_member h, Decoder.nullable_of_ne_null _ _ (hnull a)]

/-- Of the names, all of which are its own, the record reads these members to a value. -/
structure Reads (r : Record α) (room : Nat) (names : List String)
    (members : List (String × Value)) (a : α) : Prop where
  knows : ∀ name ∈ names, r.Knows name
  ignores : ∀ name, name ∉ names → r.Ignores name
  named : ∀ m ∈ members, m.1 ∈ names
  ofWritten_eq : r.ofWritten room members = .ok a

/-- A member is read under any of its names. -/
theorem reads_member_of_mem {names : List String} {name : String} (hname : name ∈ names)
    {decode : Decoder α} {absent : Option α} {room : Nat} {v : Value} {a : α}
    (h : decode room v.reading = .ok a) :
    (member names decode absent).Reads room names [(name, v)] a where
  knows := fun _ hname => knows_member hname
  ignores := fun _ hname => ignores_member hname
  named := List.forall_mem_singleton.mpr hname
  ofWritten_eq := (ofWritten_member hname decode absent room v).trans h

theorem reads_member {name : String} {decode : Decoder α} {absent : Option α} {room : Nat}
    {v : Value} {a : α} (h : decode room v.reading = .ok a) :
    (member [name] decode absent).Reads room [name] [(name, v)] a :=
  reads_member_of_mem (List.mem_singleton_self name) h

/-- A member that is left out where there is nothing to write is read, and so is its absence. -/
theorem reads_optional {name : String} {decode : Decoder α} {room : Nat} {a : Option α}
    {write : α → Value} (hnull : ∀ a, (write a).reading ≠ .null)
    (h : ∀ b, decode room (write b).reading = .ok b) :
    (optional name decode).Reads room [name] (Value.optional name a write) a where
  knows := fun _ hname => knows_member hname
  ignores := fun _ hname => ignores_member hname
  named := fun _ hm => List.mem_singleton.mpr (Value.fst_of_mem_optional hm)
  ofWritten_eq := by
    rw [optional, ofWritten_optional (List.mem_singleton_self name) decode room a write hnull]
    cases a with
    | none => rfl
    | some b =>
      simp only [h b]
      rfl

theorem Reads.map {r : Record α} {room : Nat} {names : List String}
    {members : List (String × Value)} {a : α} (h : r.Reads room names members a) (f : α → β) :
    (f <$> r).Reads room names members (f a) where
  knows := fun name hname => (h.knows name hname).map f
  ignores := fun name hname => (h.ignores name hname).map f
  named := h.named
  ofWritten_eq := by
    rw [ofWritten_map, h.ofWritten_eq]
    rfl

/-- What the first part reads, the second part goes on from, whatever it comes to. -/
theorem Reads.ofWritten_seq {f : Record (α → β)} {room : Nat} {names : List String}
    {front : List (String × Value)} {g : α → β} (h : f.Reads room names front g) (r : Record α)
    {back : List (String × Value)} (hback : ∀ m ∈ back, m.1 ∉ names) :
    (f <*> r).ofWritten room (front ++ back) = (r.ofWritten room back).map g :=
  Record.ofWritten_seq r (fun m hm => h.knows m.1 (h.named m hm))
    (fun m hm => h.ignores m.1 (hback m hm)) h.ofWritten_eq

/-- Two parts without a name in common read their members one after the other. -/
theorem Reads.seq {f : Record (α → β)} {r : Record α} {room : Nat} {names names' : List String}
    {front back : List (String × Value)} {g : α → β} {a : α} (hf : f.Reads room names front g)
    (hr : r.Reads room names' back a) (hdiffer : ∀ name ∈ names', name ∉ names) :
    (f <*> r).Reads room (names ++ names') (front ++ back) (g a) where
  knows := by
    intro name hname
    rcases List.mem_append.mp hname with hname | hname
    · exact (hf.knows name hname).seq_left r
    · exact (hr.knows name hname).seq_right f
  ignores := by
    intro name hname
    rw [List.mem_append, not_or] at hname
    exact (hf.ignores name hname.1).seq (hr.ignores name hname.2)
  named := by
    intro m hm
    rcases List.mem_append.mp hm with hm | hm
    · exact List.mem_append_left _ (hf.named m hm)
    · exact List.mem_append_right _ (hr.named m hm)
  ofWritten_eq := by
    rw [hf.ofWritten_seq r fun m hm => hdiffer m.1 (hr.named m hm), hr.ofWritten_eq]
    rfl

/-- A written object is not entered without room, and otherwise its members are taken up. -/
theorem decoder_object (r : Record α) (room : Nat) (members : List (String × Value)) :
    r.decoder (room + 1) (Value.object members).reading = r.ofWritten room members :=
  rfl

theorem Reads.decoder {r : Record α} {room : Nat} {names : List String}
    {members : List (String × Value)} {a : α} (h : r.Reads room names members a) :
    r.decoder (room + 1) (Value.object members).reading = .ok a :=
  (decoder_object r room members).trans h.ofWritten_eq

theorem decoder_object_zero (r : Record α) (members : List (String × Value)) :
    r.decoder 0 (Value.object members).reading = .error .malformed :=
  rfl

end Record

/-! ### What is accepted -/

/-- All values that the decoder accepts with this much room have a property. -/
def Decoder.Yields (decode : Decoder α) (room : Nat) (P : α → Prop) : Prop :=
  ∀ reading a, decode room reading = .ok a → P a

/-- All values that the record accepts with this much room have a property: what has been taken
up of an object has an invariant that leads to it, and so do the items of an array. -/
structure Record.Yields (r : Record α) (room : Nat) (P : α → Prop) : Prop where
  object : ∃ Inv : r.Slots → Prop, Inv r.empty ∧
    (∀ name reading slots slots', Inv slots →
      r.put room name reading slots = some (.ok slots') → Inv slots') ∧
    ∀ slots a, Inv slots → r.result slots = some a → P a
  array : ∀ items a rest, r.inOrder room items = .ok (a, rest) → P a

namespace Decoder

variable {decode : Decoder α} {room : Nat} {P : α → Prop}

theorem Yields.imp {Q : α → Prop} (h : decode.Yields room P) (himp : ∀ a, P a → Q a) :
    decode.Yields room Q :=
  fun reading a ha => himp a (h reading a ha)

theorem Yields.of_decodeFront (h : decode.Yields maxNesting P) {bs : Bytes} {a : α}
    (ha : decodeFront decode bs = .ok a) : P a :=
  h _ a ha

theorem Yields.of_decodeText (h : decode.Yields maxNesting P) {bs : Bytes} {a : α}
    (ha : decodeText decode bs = .ok a) : P a := by
  rw [decodeText] at ha
  generalize Reading.ofBytes bs = found at ha
  obtain ⟨a', ha', ha⟩ := bind_eq_ok_iff.mp ha
  split at ha
  · exact Except.ok.inj ha ▸ h _ a' ha'
  · exact absurd ha (by simp)

theorem Yields.nullable (h : decode.Yields room P) :
    (nullable decode).Yields room fun found => ∀ a ∈ found, P a := by
  intro reading found hfound a ha
  obtain rfl := Option.mem_def.mp ha
  cases reading with
  | null => exact absurd hfound (by simp [Decoder.nullable])
  | _ =>
    obtain ⟨a', ha', heq⟩ := map_eq_ok_iff.mp hfound
    exact Option.some.inj heq ▸ h _ a' ha'

theorem Yields.items (h : decode.Yields room P) :
    ∀ (is : Items) (as : List α), items decode room is = .ok as → ∀ a ∈ as, P a
  | .done, as, has => by
    obtain rfl := Except.ok.inj has
    exact fun a ha => absurd ha List.not_mem_nil
  | .cut _, _, has => absurd has (by simp [Decoder.items])
  | .item first rest, as, has => by
    rw [Decoder.items] at has
    obtain ⟨a, ha, has⟩ := bind_eq_ok_iff.mp has
    obtain ⟨as', has', has⟩ := bind_eq_ok_iff.mp has
    obtain rfl := pure_eq_ok_iff.mp has
    exact List.forall_mem_cons.mpr ⟨h first a ha, Yields.items h rest as' has'⟩

/-- An array has room for one less in its items. -/
theorem Yields.list (h : decode.Yields room P) :
    (list decode).Yields (room + 1) fun as => ∀ a ∈ as, P a := by
  intro reading as has
  cases reading with
  | array is => exact h.items is as has
  | _ => exact absurd has (by simp [Decoder.list])

theorem yields_list_zero {P : List α → Prop} : (Decoder.list decode).Yields 0 P := by
  intro reading as has
  cases reading <;> exact absurd has (by simp [Decoder.list])

end Decoder

namespace Record

variable {room : Nat} {P : α → Prop} {Q : β → Prop}

theorem yields_of_forall {r : Record α} (h : ∀ a, P a) : r.Yields room P where
  object := ⟨fun _ => True, trivial, fun _ _ _ _ _ _ => trivial, fun _ a _ _ => h a⟩
  array := fun _ a _ _ => h a

theorem yields_member {names : List String} {decode : Decoder α} {absent : Option α}
    (hdecode : decode.Yields room P) (habsent : ∀ a ∈ absent, P a) :
    (member names decode absent).Yields room P where
  object := by
    refine ⟨fun slot : Option α => ∀ a ∈ slot, P a, ?_, ?_, ?_⟩
    · exact fun a ha => absurd ha (Option.not_mem_none a)
    · intro name reading slot slot' _ hput a ha
      simp only [member] at hput
      split at hput
      · split at hput
        · exact absurd hput (by simp)
        · obtain ⟨a', ha', rfl⟩ := map_eq_ok_iff.mp (Option.some.inj hput)
          exact Option.some.inj (Option.mem_def.mp ha) ▸ hdecode reading a' ha'
      · exact absurd hput (by simp)
    · intro slot a hslot ha
      cases slot with
      | some a' => exact hslot a ha
      | none => exact habsent a ha
  array := by
    intro items a rest h
    cases items with
    | item first rest' =>
      obtain ⟨a', ha', h⟩ := bind_eq_ok_iff.mp h
      obtain ⟨rfl, rfl⟩ := Prod.mk.inj (pure_eq_ok_iff.mp h)
      exact hdecode first _ ha'
    | cut _ => exact absurd h (by simp [member])
    | done =>
      cases habs : absent with
      | none => exact absurd h (by simp [member, habs])
      | some a' =>
        simp only [member, habs, Except.ok.injEq, Prod.mk.injEq] at h
        exact habsent a (by rw [habs, h.1]; rfl)

theorem Yields.map {r : Record α} {f : α → β} (h : r.Yields room fun a => Q (f a)) :
    (f <$> r).Yields room Q where
  object := by
    obtain ⟨Inv, hempty, hput, hresult⟩ := h.object
    refine ⟨Inv, hempty, hput, fun slots b hslots hb => ?_⟩
    obtain ⟨a, ha, rfl⟩ := Option.map_eq_some_iff.mp hb
    exact hresult slots a hslots ha
  array := by
    intro items b rest hb
    obtain ⟨⟨a, rest'⟩, ha, heq⟩ := map_eq_ok_iff.mp hb
    obtain ⟨rfl, rfl⟩ := Prod.mk.inj heq
    exact h.array items a rest' ha

theorem Yields.seq {f : Record (α → β)} {r : Record α} (hr : r.Yields room P)
    (hf : f.Yields room fun g => ∀ a, P a → Q (g a)) : (f <*> r).Yields room Q where
  object := by
    -- A member is taken up by one of the parts, and what holds of the other's slots stays.
    obtain ⟨InvF, hemptyF, hputF, hresultF⟩ := hf.object
    obtain ⟨InvR, hemptyR, hputR, hresultR⟩ := hr.object
    refine ⟨fun slots => InvF slots.1 ∧ InvR slots.2, ⟨hemptyF, hemptyR⟩, ?_, ?_⟩
    · rintro name reading ⟨left, right⟩ slots' ⟨hleft, hright⟩ hput
      simp only [Seq.seq] at hput
      split at hput
      · rename_i step hstep
        obtain ⟨left', rfl, rfl⟩ := map_eq_ok_iff.mp (Option.some.inj hput)
        exact ⟨hputF name reading left left' hleft hstep, hright⟩
      · obtain ⟨step, hstep, hput⟩ := Option.map_eq_some_iff.mp hput
        obtain ⟨right', rfl, rfl⟩ := map_eq_ok_iff.mp hput
        exact ⟨hleft, hputR name reading right right' hright hstep⟩
    · rintro ⟨left, right⟩ b ⟨hleft, hright⟩ hb
      simp only [Seq.seq] at hb
      split at hb
      · rename_i g a hg ha
        obtain rfl := Option.some.inj hb
        exact hresultF left g hleft hg a (hresultR right a hright ha)
      · exact absurd hb (by simp)
  array := by
    intro items b rest hb
    obtain ⟨⟨g, items'⟩, hg, hb⟩ := bind_eq_ok_iff.mp hb
    obtain ⟨⟨a, items''⟩, ha, hb⟩ := bind_eq_ok_iff.mp hb
    obtain ⟨rfl, rfl⟩ := Prod.mk.inj (pure_eq_ok_iff.mp hb)
    exact hf.array items g items' hg a (hr.array items' a items'' ha)

/-- What taking up members keeps leads to what comes of them. -/
theorem of_ofMembers {r : Record α} {Inv : r.Slots → Prop} (hput : ∀ name reading slots slots',
      Inv slots → r.put room name reading slots = some (.ok slots') → Inv slots')
    (hresult : ∀ slots a, Inv slots → r.result slots = some a → P a) {a : α} :
    ∀ (members : Members) (slots : r.Slots), Inv slots →
      r.ofMembers room members slots = .ok a → P a
  | .done, slots, hslots, ha => by
    rw [ofMembers] at ha
    split at ha
    · rename_i a' ha'
      exact Except.ok.inj ha ▸ hresult slots a' hslots ha'
    · exact absurd ha (by simp)
  | .cut _, _, _, ha => absurd ha (by simp [ofMembers])
  | .keyless _, _, _, ha => absurd ha (by simp [ofMembers])
  | .member key value rest, slots, hslots, ha => by
    rw [ofMembers] at ha
    -- A member is put into a slot or skipped; the invariant holds either way.
    obtain ⟨name, -, ha⟩ := bind_eq_ok_iff.mp ha
    split at ha
    · rename_i step hstep
      obtain ⟨slots', rfl, ha⟩ := bind_eq_ok_iff.mp ha
      exact of_ofMembers hput hresult rest slots' (hput name value slots slots' hslots hstep) ha
    · obtain ⟨-, -, ha⟩ := bind_eq_ok_iff.mp ha
      exact of_ofMembers hput hresult rest slots hslots ha

theorem Yields.ofMembers {r : Record α} (h : r.Yields room P) (members : Members) (a : α)
    (ha : r.ofMembers room members r.empty = .ok a) : P a := by
  obtain ⟨Inv, hempty, hput, hresult⟩ := h.object
  exact of_ofMembers hput hresult members r.empty hempty ha

/-- An object or an array has room for one less in its members. -/
theorem Yields.decoder {r : Record α} (h : r.Yields room P) : r.decoder.Yields (room + 1) P := by
  intro reading a ha
  cases reading with
  | object members => exact h.ofMembers members a ha
  | array items =>
    obtain ⟨⟨a', rest⟩, ha', ha⟩ := bind_eq_ok_iff.mp ha
    cases rest with
    | done => exact Except.ok.inj ha ▸ h.array items a' .done ha'
    | _ => exact absurd ha (by simp)
  | _ => exact absurd ha (by simp [Record.decoder])

theorem yields_decoder_zero {r : Record α} : r.decoder.Yields 0 P := by
  intro reading a ha
  cases reading <;> exact absurd ha (by simp [Record.decoder])

end Record

end Registrar.Json
