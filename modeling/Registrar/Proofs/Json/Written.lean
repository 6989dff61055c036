import Registrar.Json.Value
import Registrar.Proofs.Json.Token

/-!
# Written values read back

`Value.reading v` is what the text of `v` says, and `Value.tokens v` are the tokens in between:
the text is cut into them (`spells_compact`), and they are put together to the reading
(`ofTokens_tokens`).  So `ofBytes_compact`: what `compact` writes is read back, nothing left over.

Percentages are left out: `Value.IsExact` says that a value has none in it.  Proofs about values
go by `Value.partsInduction`, which assumes of an array or an object that the statement holds of
each of its parts.
-/

namespace Registrar.Json

open Text Token

/-! ### Members of a reading -/

/-- The value of the first of the members that has this name. -/
def Members.find? (name : String) : Members → Option Reading
  | .member key value rest =>
    match stringText key with
    | .ok found => if found = name then some value else find? name rest
    | .error _ => find? name rest
  | _ => none

/-- The value of the member of this name, if the reading is an object that has one. -/
def Reading.member? (name : String) : Reading → Option Reading
  | .object members => members.find? name
  | _ => none

namespace Value

/-- To show something of every value, show it of the literals, and of an array or an object all
parts of which have it. -/
@[induction_eliminator]
theorem partsInduction {motive : Value → Prop} (null : motive .null)
    (boolean : ∀ b, motive (.boolean b)) (natural : ∀ n, motive (.natural n))
    (float : ∀ x, motive (.float x)) (string : ∀ s, motive (.string s))
    (array : ∀ items, (∀ v ∈ items, motive v) → motive (.array items))
    (object : ∀ members, (∀ m ∈ members, motive m.2) → motive (.object members)) (v : Value) :
    motive v :=
  @Value.rec motive (fun items => ∀ v ∈ items, motive v) (fun members => ∀ m ∈ members, motive m.2)
    (fun m => motive m.2) null boolean natural float string array object
    (fun _ h => absurd h List.not_mem_nil)
    (fun _ _ first rest _ h => (List.mem_cons.mp h).elim (fun e => e ▸ first) (rest _))
    (fun _ h => absurd h List.not_mem_nil)
    (fun _ _ first rest _ h => (List.mem_cons.mp h).elim (fun e => e ▸ first) (rest _))
    (fun _ _ value => value) v

/-! ### Tokens and reading of a value -/

mutual

/-- Is the value made of literals other than percentages? -/
def IsExact : Value → Prop
  | .float _ => False
  | .array items => AreExact items
  | .object members => MembersAreExact members
  | _ => True

/-- Are the items made of literals other than percentages? -/
def AreExact : List Value → Prop
  | [] => True
  | v :: rest => IsExact v ∧ AreExact rest

/-- Are the values of the members made of literals other than percentages? -/
def MembersAreExact : List (String × Value) → Prop
  | [] => True
  | (_, v) :: rest => IsExact v ∧ MembersAreExact rest

end

mutual

/-- The tokens that a value is written as; none for a percentage. -/
def tokens : Value → List Token
  | .null => [.null]
  | .boolean b => [.boolean b]
  | .natural n => [.numeral (.ofNat n)]
  | .float _ => []
  | .string s => [.string (escaped s)]
  | .array items => .openBracket :: (itemTokens items ++ [.closeBracket])
  | .object members => .openBrace :: (memberTokens members ++ [.closeBrace])

/-- The tokens of items, with commas between them. -/
def itemTokens : List Value → List Token
  | [] => []
  | [v] => tokens v
  | v :: w :: rest => tokens v ++ .comma :: itemTokens (w :: rest)

/-- The tokens of members, with commas between them. -/
def memberTokens : List (String × Value) → List Token
  | [] => []
  | [(k, v)] => .string (escaped k) :: .colon :: tokens v
  | (k, v) :: m :: rest =>
    .string (escaped k) :: .colon :: tokens v ++ .comma :: memberTokens (m :: rest)

end

mutual

/-- What the text of a value says; a percentage is not read. -/
def reading : Value → Reading
  | .null => .null
  | .boolean b => .boolean b
  | .natural n => .numeral (.ofNat n)
  | .float _ => .gap none
  | .string s => .string (escaped s)
  | .array items => .array (itemsReading items)
  | .object members => .object (membersReading members)

/-- What the texts of items say. -/
def itemsReading : List Value → Items
  | [] => .done
  | v :: rest => .item (reading v) (itemsReading rest)

/-- What the texts of members say. -/
def membersReading : List (String × Value) → Members
  | [] => .done
  | (k, v) :: rest => .member (escaped k) (reading v) (membersReading rest)

end

theorem areExact_iff {items : List Value} : AreExact items ↔ ∀ v ∈ items, v.IsExact := by
  induction items with
  | nil => simp [AreExact]
  | cons v rest ih => simp [AreExact, ih]

theorem membersAreExact_append {front back : List (String × Value)} :
    MembersAreExact (front ++ back) ↔ MembersAreExact front ∧ MembersAreExact back := by
  induction front with
  | nil => simp [MembersAreExact]
  | cons m rest ih => simp [MembersAreExact, ih, and_assoc]

theorem fst_of_mem_optional {α : Type} {name : String} {a : Option α} {write : α → Value}
    {m : String × Value} (h : m ∈ optional name a write) : m.1 = name := by
  cases a with
  | none => exact absurd h List.not_mem_nil
  | some a => rw [List.mem_singleton.mp h]

theorem membersAreExact_optional {α : Type} (name : String) {a : Option α} {write : α → Value}
    (h : ∀ a, (write a).IsExact) : MembersAreExact (optional name a write) := by
  cases a with
  | none => trivial
  | some a => exact ⟨h a, trivial⟩

/-! ### From the text to the tokens -/

/-- Items are cut into their tokens, if each of them is. -/
theorem spells_compactItems {items : List Value} (h : AreExact items)
    (hitems : ∀ v ∈ items, v.IsExact → ∀ rest, EndsValue rest →
      Spells (bytes v.compact) v.tokens rest) {rest : Bytes} (hrest : EndsValue rest) :
    Spells (bytes (compactItems items)) (itemTokens items) rest := by
  induction items with
  | nil => exact Spells.nil rest
  | cons v items ih =>
    obtain ⟨hv, hvs⟩ := List.forall_mem_cons.mp hitems
    cases items with
    | nil => exact hv h.1 rest hrest
    | cons w items =>
      have hcomma : bytes "," = [0x2C] := rfl
      rw [compactItems, itemTokens, bytes_append, bytes_append, List.append_assoc, hcomma]
      -- The comma ends the item, which matters for a number.
      refine (hv h.1 _ (endsValue_cons (.inl rfl) _)).append ?_
      exact (spells_comma _).append (ih h.2 hvs)

/-- Members are cut into their tokens, if the values of each are. -/
theorem spells_compactMembers {members : List (String × Value)} (h : MembersAreExact members)
    (hmembers : ∀ m ∈ members, m.2.IsExact → ∀ rest, EndsValue rest →
      Spells (bytes m.2.compact) m.2.tokens rest) {rest : Bytes} (hrest : EndsValue rest) :
    Spells (bytes (compactMembers members)) (memberTokens members) rest := by
  have hcolon : bytes ":" = [0x3A] := rfl
  induction members with
  | nil => exact Spells.nil rest
  | cons m members ih =>
    obtain ⟨k, v⟩ := m
    obtain ⟨hv, hvs⟩ := List.forall_mem_cons.mp hmembers
    -- Whether a comma follows depends on whether another member does.
    cases members with
    | nil =>
      rw [compactMembers, memberTokens, bytes_append, bytes_append, List.append_assoc, hcolon]
      refine (spells_quote k _).append ?_
      exact (spells_colon _).append (hv h.1 rest hrest)
    | cons w members =>
      have hcomma : bytes "," = [0x2C] := rfl
      rw [compactMembers, memberTokens]
      simp only [bytes_append, List.append_assoc, hcolon, hcomma]
      refine (spells_quote k _).append ((spells_colon _).append ?_)
      refine (hv h.1 _ (endsValue_cons (.inl rfl) _)).append ?_
      exact (spells_comma _).append (ih h.2 hvs)

theorem spells_compact {v : Value} (h : v.IsExact) {rest : Bytes} (hrest : EndsValue rest) :
    Spells (bytes v.compact) v.tokens rest := by
  induction v generalizing rest with
  | null => exact spells_null rest
  | boolean b =>
    cases b with
    | true => exact spells_true rest
    | false => exact spells_false rest
  | natural n => exact spells_toString n hrest
  | float x => exact h.elim
  | string s => exact spells_quote s rest
  | array items ih =>
    have hopen : bytes "[" = [0x5B] := rfl
    have hclose : bytes "]" = [0x5D] := rfl
    rw [compact, tokens, bytes_append, bytes_append, List.append_assoc, hopen, hclose]
    -- The closing bracket ends the last item, whatever follows the array.
    refine (spells_openBracket _).append ?_
    refine Spells.append ?_ (spells_closeBracket rest)
    exact spells_compactItems h (fun v hv hexact rest hrest => ih v hv hexact hrest)
      (endsValue_cons (.inr (.inl rfl)) rest)
  | object members ih =>
    have hopen : bytes "\x7b" = [0x7B] := rfl
    have hclose : bytes "\x7d" = [0x7D] := rfl
    rw [compact, tokens, bytes_append, bytes_append, List.append_assoc, hopen, hclose]
    refine (spells_openBrace _).append ?_
    refine Spells.append ?_ (spells_closeBrace rest)
    exact spells_compactMembers h (fun m hm hexact rest hrest => ih m hm hexact hrest)
      (endsValue_cons (.inr (.inr rfl)) rest)

/-! ### From the tokens to the reading -/

/-- The tokens of a value do not begin with a closing bracket. -/
theorem exists_tokens_eq_cons {v : Value} (h : v.IsExact) :
    ∃ t ts, v.tokens = t :: ts ∧ t ≠ .closeBracket := by
  cases v with
  | float x => exact h.elim
  | null | boolean b | natural n | string s | array items | object members =>
    exact ⟨_, _, rfl, Token.noConfusion⟩

theorem exists_itemTokens_eq_cons {v : Value} (h : v.IsExact) (items : List Value) :
    ∃ t ts, itemTokens (v :: items) = t :: ts ∧ t ≠ .closeBracket := by
  obtain ⟨t, ts, htokens, hne⟩ := exists_tokens_eq_cons h
  cases items with
  | nil => exact ⟨t, ts, htokens, hne⟩
  | cons w items => exact ⟨t, _, by rw [itemTokens, htokens, List.cons_append], hne⟩

theorem exists_memberTokens_eq_cons (k : String) (v : Value) (members : List (String × Value)) :
    ∃ ts, memberTokens ((k, v) :: members) = .string (escaped k) :: ts := by
  cases members with
  | nil => exact ⟨_, rfl⟩
  | cons w members => exact ⟨_, rfl⟩

open Reading

/-- Items are put together up to the closing bracket, if each of them is. -/
theorem itemsOfTokens_itemTokens {items : List Value} (hne : items ≠ []) (h : AreExact items)
    (hitems : ∀ v ∈ items, v.IsExact → ∀ bound ts, v.tokens.length ≤ bound →
      ofTokens bound (v.tokens ++ ts) = (v.reading, ts)) (bound : Nat)
    (hbound : (itemTokens items).length < bound) (ts : List Token) :
    itemsOfTokens bound (itemTokens items ++ .closeBracket :: ts) = (itemsReading items, ts) := by
  induction items generalizing bound with
  | nil => exact absurd rfl hne
  | cons v items ih =>
    obtain ⟨hv, hvs⟩ := List.forall_mem_cons.mp hitems
    obtain ⟨bound, rfl⟩ : ∃ k, bound = k + 1 := ⟨bound - 1, by omega⟩
    -- One step is spent on the item; the comma behind it makes up for that.
    cases items with
    | nil =>
      rw [itemTokens] at hbound ⊢
      rw [itemsOfTokens, hv h.1 bound _ (by omega)]
      rfl
    | cons w items =>
      rw [itemTokens, List.length_append, List.length_cons] at hbound
      rw [itemTokens, itemsOfTokens, List.append_assoc, hv h.1 bound _ (by omega)]
      simp only [List.cons_append, ih (List.cons_ne_nil w items) h.2 hvs bound (by omega)]
      rfl

/-- Members are put together up to the closing brace, if the value of each is. -/
theorem membersOfTokens_memberTokens {members : List (String × Value)} (hne : members ≠ [])
    (h : MembersAreExact members)
    (hmembers : ∀ m ∈ members, m.2.IsExact → ∀ bound ts, m.2.tokens.length ≤ bound →
      ofTokens bound (m.2.tokens ++ ts) = (m.2.reading, ts)) (bound : Nat)
    (hbound : (memberTokens members).length < bound) (ts : List Token) :
    membersOfTokens bound (memberTokens members ++ .closeBrace :: ts) =
      (membersReading members, ts) := by
  induction members generalizing bound with
  | nil => exact absurd rfl hne
  | cons m members ih =>
    obtain ⟨k, v⟩ := m
    obtain ⟨hv, hvs⟩ := List.forall_mem_cons.mp hmembers
    obtain ⟨bound, rfl⟩ : ∃ k, bound = k + 1 := ⟨bound - 1, by omega⟩
    cases members with
    | nil =>
      rw [memberTokens, List.length_cons, List.length_cons] at hbound
      rw [memberTokens, List.cons_append, List.cons_append, membersOfTokens,
        hv h.1 bound _ (by simp only; omega)]
      rfl
    | cons w members =>
      simp only [memberTokens, List.length_append, List.length_cons] at hbound
      simp only [memberTokens, List.cons_append, List.append_assoc]
      rw [membersOfTokens, hv h.1 bound _ (by simp only; omega)]
      simp only [ih (List.cons_ne_nil w members) h.2 hvs bound (by omega)]
      rfl

theorem ofTokens_tokens {v : Value} (h : v.IsExact) (bound : Nat)
    (hbound : v.tokens.length ≤ bound) (ts : List Token) :
    ofTokens bound (v.tokens ++ ts) = (v.reading, ts) := by
  induction v generalizing bound ts with
  | float x => exact h.elim
  | null | boolean b | natural n | string s =>
    obtain ⟨bound, rfl⟩ : ∃ k, bound = k + 1 := ⟨bound - 1, by simp [tokens] at hbound; omega⟩
    rfl
  | array items ih =>
    simp only [tokens, List.length_cons, List.length_append, List.length_nil] at hbound
    obtain ⟨bound, rfl⟩ : ∃ k, bound = k + 1 := ⟨bound - 1, by omega⟩
    simp only [tokens, List.cons_append, List.append_assoc, List.nil_append]
    cases items with
    | nil => rfl
    | cons v items =>
      have hitems := itemsOfTokens_itemTokens (List.cons_ne_nil v items) h
        (fun v hv hexact bound ts hbound => ih v hv hexact bound hbound ts) bound (by omega) ts
      obtain ⟨t, rest, htokens, hne⟩ := exists_itemTokens_eq_cons h.1 items
      rw [htokens, List.cons_append] at hitems ⊢
      -- The array is entered, as no item begins with a closing bracket.
      rw [ofTokens]
      · simp only [hitems]
        rfl
      · rintro rest' h
        exact hne (List.cons.inj h).1
  | object members ih =>
    simp only [tokens, List.length_cons, List.length_append, List.length_nil] at hbound
    obtain ⟨bound, rfl⟩ : ∃ k, bound = k + 1 := ⟨bound - 1, by omega⟩
    simp only [tokens, List.cons_append, List.append_assoc, List.nil_append]
    cases members with
    | nil => rfl
    | cons m members =>
      obtain ⟨k, v⟩ := m
      -- The brace takes one step, and the others are enough for the members.
      have hmembers := membersOfTokens_memberTokens (List.cons_ne_nil (k, v) members) h
        (fun m hm hexact bound ts hbound => ih m hm hexact bound hbound ts) bound (by omega) ts
      obtain ⟨rest, htokens⟩ := exists_memberTokens_eq_cons k v members
      rw [htokens, List.cons_append] at hmembers ⊢
      rw [ofTokens]
      · simp only [hmembers]
        rfl
      · rintro rest' h
        exact Token.noConfusion (List.cons.inj h).1

/-! ### From the text to the reading -/

/-- What has been written is read back, and nothing is left over. -/
theorem ofBytes_compact {v : Value} (h : v.IsExact) :
    Reading.ofBytes (bytes v.compact) = (v.reading, []) := by
  rw [Reading.ofBytes, (spells_compact h endsValue_nil).tokens_eq]
  have hread := ofTokens_tokens h (2 * v.tokens.length + 1) (by omega) []
  rwa [List.append_nil] at hread

theorem member?_reading (members : List (String × Value)) (name : String) :
    (Value.object members).reading.member? name = (members.lookup name).map reading := by
  rw [reading, Reading.member?]
  induction members with
  | nil => rfl
  | cons m rest ih =>
    obtain ⟨k, v⟩ := m
    rw [membersReading, Members.find?, stringText_escaped, List.lookup_cons]
    by_cases h : k = name
    · subst h
      simp
    · have hne : (name == k) = false := beq_eq_false_iff_ne.mpr (Ne.symm h)
      simp only [if_neg h, hne, ih]

variable {α : Type} (decode : Decoder α)

/-- A text that holds a written value is decoded from its reading. -/
theorem decodeText_compact {v : Value} (h : v.IsExact) :
    decodeText decode (bytes v.compact) = decode maxNesting v.reading := by
  rw [decodeText, ofBytes_compact h]
  exact bind_pure (decode maxNesting v.reading)

end Value

end Registrar.Json
