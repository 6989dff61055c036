import Registrar.Proofs.Json.Record
import Registrar.Proofs.Prerequisite.Spec
import Mathlib.Tactic.SplitIfs

/-!
# Specs in JSON texts

A spec is written as an object, and its items as an array in it, so that every level of items
takes two levels of JSON.  `Spec.nesting` counts those, and a decoder with room for so many reads
a written spec back exactly if the nesting fits (`decoderWithin_toJson`); no text yields a spec
that is nested deeper (`yields_decoderWithin`).

A rule of height `n` is nested `2 * n` deep if a group without items stands at its lowest level,
and less deep otherwise (`Rule.nesting_toSpec`).
`written_spec_decodes_iff` puts this together with the room that there is in a text.
-/

namespace Registrar.Prerequisite

open Json

namespace Spec

/-! ### Nesting -/

mutual

/-- The number of arrays and objects inside each other that a spec is written as. -/
def nesting : Spec → Nat
  | .mk _ _ items => match items with
    | some specs => nestings specs + 2
    | none => 1

/-- The greatest nesting of some specs, none for no specs. -/
def nestings : List Spec → Nat
  | [] => 0
  | s :: ss => max (nesting s) (nestings ss)

end

theorem nestings_le_iff {specs : List Spec} {n : Nat} :
    nestings specs ≤ n ↔ ∀ s ∈ specs, s.nesting ≤ n := by
  induction specs with
  | nil => simp [nestings]
  | cons s ss ih => rw [nestings, Nat.max_le, ih, List.forall_mem_cons]

theorem nesting_pos (s : Spec) : 0 < s.nesting := by
  obtain ⟨courseId, operator, _ | specs⟩ := s
  · exact Nat.one_pos
  · exact Nat.succ_pos _

mutual

theorem nesting_canonical (s : Spec) : s.canonical.nesting = s.nesting := by
  match s with
  | .mk _ _ none => rfl
  | .mk _ _ (some specs) => simp only [canonical, nesting, nestings_canonicalAll specs]

theorem nestings_canonicalAll (specs : List Spec) :
    nestings (canonicalAll specs) = nestings specs := by
  match specs with
  | [] => rfl
  | s :: ss => simp only [canonicalAll, nestings, nesting_canonical s, nestings_canonicalAll ss]

end

/-! ### Written specs -/

theorem toJson_mk (courseId : Option CourseId) (operator : Option String)
    (items : Option (List Spec)) :
    toJson (.mk courseId operator items) =
      .object (Value.optional "courseId" courseId (fun id => .natural id.toNat)
        ++ Value.optional "type" operator .string
        ++ Value.optional "items" items fun specs => .array (listToJson specs)) := by
  cases items <;> rfl

theorem reading_toJson_ne_null (s : Spec) : s.toJson.reading ≠ .null := by
  obtain ⟨courseId, operator, items⟩ := s
  rw [toJson_mk]
  exact fun h => Reading.noConfusion h

mutual

theorem isExact_toJson (s : Spec) : s.toJson.IsExact := by
  match s with
  | .mk courseId operator items =>
    rw [toJson_mk]
    refine Value.membersAreExact_append.mpr ⟨Value.membersAreExact_append.mpr ⟨?_, ?_⟩, ?_⟩
    · exact Value.membersAreExact_optional _ fun _ => trivial
    · exact Value.membersAreExact_optional _ fun _ => trivial
    · match items with
      | none => trivial
      | some specs => exact ⟨areExact_listToJson specs, trivial⟩

theorem areExact_listToJson (specs : List Spec) : Value.AreExact (listToJson specs) := by
  match specs with
  | [] => trivial
  | s :: ss => exact ⟨isExact_toJson s, areExact_listToJson ss⟩

end

/-- What comes of a written spec, its items being read by a given decoder. -/
theorem record_toJson (item : Decoder Spec) (room : Nat) (courseId : Option CourseId)
    (operator : Option String) (items : Option (List Spec)) :
    (record item).decoder (room + 1) (toJson (.mk courseId operator items)).reading =
      match items with
      | some specs =>
        (Decoder.list item room (Value.array (listToJson specs)).reading).map fun specs =>
          .mk courseId operator (some specs)
      | none => .ok (.mk courseId operator none) := by
  let first : Record (Option String → Option (List Spec) → Spec) :=
    Spec.mk <$> Record.optional "courseId" .uint64
  let second : Record (Option String) :=
    Record.member ["type", "operator"] (.nullable .string) (some none)
  let third : Record (Option (List Spec)) := Record.optional "items" (.list item)
  -- Each of the three members has a name that only its part of the record knows.
  have hfirst : first.ofWritten room
      (Value.optional "courseId" courseId fun id => .natural id.toNat) =
      .ok (Spec.mk courseId) := by
    rw [Record.ofWritten_map, Record.optional,
      Record.ofWritten_optional (List.mem_singleton_self _) _ _ _ _
        fun _ h => Reading.noConfusion h]
    cases courseId with
    | none => rfl
    | some id =>
      simp only [Decoder.uint64_reading]
      rfl
  -- The name of the operator is new to the first part, so the front is read as before.
  have hsecond : (first <*> second).ofWritten room
      (Value.optional "courseId" courseId (fun id => .natural id.toNat)
        ++ Value.optional "type" operator .string) =
      .ok (Spec.mk courseId operator) := by
    rw [Record.ofWritten_seq second (fun m hm => ?_) (fun m hm => ?_) hfirst,
      Record.ofWritten_optional List.mem_cons_self _ _ _ _ fun _ h => Reading.noConfusion h]
    · cases operator with
      | none => rfl
      | some s =>
        simp only [Decoder.string_reading]
        rfl
    · rw [Value.fst_of_mem_optional hm]
      exact (Record.knows_member (by decide)).map _
    · rw [Value.fst_of_mem_optional hm]
      exact (Record.ignores_member (by decide)).map _
  -- With the items it is the same, but whether they can be read is left open.
  have hthird : (first <*> second <*> third).ofWritten room
      (Value.optional "courseId" courseId (fun id => .natural id.toNat)
        ++ Value.optional "type" operator .string
        ++ Value.optional "items" items fun specs => .array (listToJson specs)) =
      (third.ofWritten room (Value.optional "items" items fun specs =>
        .array (listToJson specs))).map (Spec.mk courseId operator) := by
    refine Record.ofWritten_seq third (fun m hm => ?_) (fun m hm => ?_) hsecond
    · rcases List.mem_append.mp hm with hm | hm
      · rw [Value.fst_of_mem_optional hm]
        exact ((Record.knows_member (by decide)).map _).seq_left second
      · rw [Value.fst_of_mem_optional hm]
        exact (Record.knows_member (by decide)).seq_right first
    · rw [Value.fst_of_mem_optional hm]
      exact ((Record.ignores_member (by decide)).map _).seq (Record.ignores_member (by decide))
  -- Items that are written are read by the reader of lists, and no list reads as a null.
  have hitems := Record.ofWritten_optional (List.mem_singleton_self "items") (Decoder.list item)
    room items (fun specs => .array (listToJson specs)) fun _ h => Reading.noConfusion h
  rw [toJson_mk, Record.decoder_object]
  refine (hthird.trans (congrArg _ hitems)).trans ?_
  cases items with
  | none => rfl
  | some specs =>
    simp only
    cases Decoder.list item room (Value.array (listToJson specs)).reading <;> rfl

theorem listToJson_eq_map (specs : List Spec) : listToJson specs = specs.map toJson := by
  induction specs with
  | nil => rfl
  | cons s ss ih => rw [listToJson, List.map_cons, ih]

/-- Written items are read if each of them is, and else the first that is not stops it. -/
theorem items_listToJson {item : Decoder Spec} {room : Nat} {specs : List Spec}
    (h : ∀ s ∈ specs, item room s.toJson.reading =
      if s.nesting ≤ room then .ok s else .error .malformed) :
    Decoder.items item room (Value.itemsReading (listToJson specs)) =
      if nestings specs ≤ room then .ok specs else .error .malformed := by
  rw [listToJson_eq_map, Decoder.items_map h]
  simp only [nestings_le_iff]

/-- A written spec is read back exactly if there is room for its nesting.  Two arrays and objects
are entered for every level of specs, so that the levels do not run out before the room. -/
theorem decoderWithin_toJson (s : Spec) (levels room : Nat) (h : room ≤ 2 * levels) :
    decoderWithin levels room s.toJson.reading =
      if s.nesting ≤ room then .ok s else .error .malformed := by
  induction s generalizing levels room with
  | mk courseId operator items ih =>
    have hpos := nesting_pos (.mk courseId operator items)
    cases room with
    | zero =>
      rw [if_neg (by omega)]
      -- Without room not even the object is entered, whatever levels there are.
      cases levels with
      | zero => rfl
      | succ levels =>
        rw [decoderWithin, toJson_mk]
        exact Record.decoder_object_zero _ _
    | succ room =>
      obtain ⟨levels, rfl⟩ : ∃ k, levels = k + 1 := ⟨levels - 1, by omega⟩
      rw [decoderWithin, record_toJson]
      cases items with
      | none => rw [if_pos (by simp [nesting])]
      | some specs =>
        -- The object has been entered, and the array of the items is to be.
        have hnesting : (Spec.mk courseId operator (some specs)).nesting = nestings specs + 2 := rfl
        rw [hnesting]
        cases room with
        | zero =>
          rw [if_neg (by omega)]
          rfl
        | succ room =>
          -- For the items there is one level less and two of the room less, so the bound holds again.
          have hitems := items_listToJson fun s hs => ih specs rfl s hs levels room (by omega)
          have hlist : Decoder.list (decoderWithin levels) (room + 1)
              (Value.array (listToJson specs)).reading =
              Decoder.items (decoderWithin levels) room (Value.itemsReading (listToJson specs)) :=
            rfl
          simp only [hlist, hitems]
          by_cases hfits : nestings specs ≤ room
          · rw [if_pos hfits, if_pos (by omega)]
            rfl
          · rw [if_neg hfits, if_neg (by omega)]
            rfl

theorem decodeText_toJson (s : Spec) :
    decodeText decoder (Text.bytes s.toJson.compact) =
      if s.nesting ≤ maxNesting then .ok s else .error .malformed := by
  rw [Value.decodeText_compact _ s.isExact_toJson]
  exact decoderWithin_toJson s _ _ (by decide)

/-! ### Specs that are read -/

/-- No spec is read that is nested deeper than there is room for. -/
theorem yields_decoderWithin (levels room : Nat) :
    (decoderWithin levels).Yields room fun s => s.nesting ≤ room := by
  induction levels generalizing room with
  | zero => exact fun _ _ h => absurd h (by simp [decoderWithin])
  | succ levels ih =>
    cases room with
    | zero => exact Record.yields_decoder_zero
    | succ room =>
      -- A list of specs takes one array, and its specs are in it.
      have hitems : (Decoder.list (decoderWithin levels)).Yields room fun specs =>
          nestings specs + 2 ≤ room + 1 := by
        cases room with
        | zero => exact Decoder.yields_list_zero
        | succ room =>
          exact (ih room).list.imp fun specs h => Nat.add_le_add_right (nestings_le_iff.mpr h) 2
      refine Record.Yields.decoder (.seq (Record.yields_member hitems.nullable (by simp)) ?_)
      -- Nothing is asked of the other two members.
      refine .seq (P := fun _ => True) (Record.yields_of_forall fun _ => trivial) (.map ?_)
      refine Record.yields_of_forall fun courseId operator _ items hitems => ?_
      cases items with
      | none => exact Nat.succ_pos room
      | some specs => exact hitems specs rfl

end Spec

/-! ### Rules -/

namespace Rule

/-- A part of a rule stands at a level: the rule itself at the first one, and the parts of an item
one level further down than in the item. -/
inductive StandsAt : Rule → Nat → Rule → Prop
  | root (r : Rule) : StandsAt r 1 r
  | item {op : Operator} {items : List Rule} {r part : Rule} {level : Nat} (hr : r ∈ items)
    (hpart : StandsAt r level part) : StandsAt (.group op items) (level + 1) part

theorem standsAt_course_iff {id : CourseId} {level : Nat} {part : Rule} :
    (Rule.course id).StandsAt level part ↔ level = 1 ∧ part = .course id := by
  constructor
  · rintro ⟨⟩
    exact ⟨rfl, rfl⟩
  · rintro ⟨rfl, rfl⟩
    exact .root _

theorem standsAt_group_iff {op : Operator} {items : List Rule} {level : Nat} {part : Rule} :
    (Rule.group op items).StandsAt (level + 1) part ↔
      level = 0 ∧ part = .group op items ∨ ∃ r ∈ items, r.StandsAt level part := by
  constructor
  · rintro (_ | ⟨hr, hpart⟩)
    · exact .inl ⟨rfl, rfl⟩
    · exact .inr ⟨_, hr, hpart⟩
  · rintro (⟨rfl, rfl⟩ | ⟨r, hr, hpart⟩)
    · exact .root _
    · exact .item hr hpart

/-- Inside so many groups of one a rule stands at the next level. -/
theorem standsAt_repeat (op : Operator) (r : Rule) (k : Nat) :
    (Nat.repeat (fun r => .group op [r]) k r).StandsAt (k + 1) r := by
  induction k with
  | zero => exact .root r
  | succ k ih => exact .item (List.mem_singleton_self _) ih

theorem nestings_rulesToSpecs_le_iff {rules : List Rule} {n : Nat} :
    Spec.nestings (rulesToSpecs rules) ≤ n ↔ ∀ r ∈ rules, r.toSpec.nesting ≤ n := by
  induction rules with
  | nil => simp [rulesToSpecs, Spec.nestings]
  | cons r rs ih => rw [rulesToSpecs, Spec.nestings, Nat.max_le, ih, List.forall_mem_cons]

/-- A rule is nested twice as deep as it is high, if a group without items stands at its lowest
level, and less deep if not: a course takes one level of JSON and any group two. -/
theorem nesting_toSpec (r : Rule) {n : Nat} (h : r.height ≤ n) :
    r.toSpec.nesting ≤ 2 * n ∧
      (r.toSpec.nesting = 2 * n ↔ ∃ op, r.StandsAt n (.group op [])) := by
  induction r generalizing n with
  | course id =>
    have hnesting : (Rule.course id).toSpec.nesting = 1 := rfl
    -- One is odd, and no group stands in a course.
    refine ⟨?_, fun heq => ?_, fun ⟨op, hpart⟩ => ?_⟩
    · rw [hnesting]
      rw [height] at h
      omega
    · rw [hnesting] at heq
      omega
    · exact absurd (standsAt_course_iff.mp hpart).2 (by simp)
  | group op items ih =>
    rw [height] at h
    obtain ⟨n, rfl⟩ : ∃ k, n = k + 1 := ⟨n - 1, by omega⟩
    have hheights := heights_le_iff.mp (Nat.le_of_succ_le_succ h)
    have hnesting : (Rule.group op items).toSpec.nesting =
        Spec.nestings (rulesToSpecs items) + 2 := rfl
    -- Object and array of the group make up for the level between it and its items.
    have hle : Spec.nestings (rulesToSpecs items) ≤ 2 * n :=
      nestings_rulesToSpecs_le_iff.mpr fun r hr => (ih r hr (hheights r hr)).1
    refine ⟨by omega, ?_⟩
    rw [hnesting]
    constructor
    · intro heq
      cases items with
      | nil =>
        have hzero : Spec.nestings (rulesToSpecs []) = 0 := rfl
        obtain rfl : n = 0 := by omega
        exact ⟨op, .root _⟩
      | cons first rest =>
        have hpos := Nat.lt_of_lt_of_le first.height_pos (hheights first List.mem_cons_self)
        -- Some item is nested as deep as it can be, or all would be less deep.
        obtain ⟨r, hr, hdeep⟩ : ∃ r ∈ first :: rest, 2 * n ≤ r.toSpec.nesting := by
          by_contra hnone
          have hless : Spec.nestings (rulesToSpecs (first :: rest)) ≤ 2 * n - 1 := by
            refine nestings_rulesToSpecs_le_iff.mpr fun r hr => ?_
            have hshallow : ¬2 * n ≤ r.toSpec.nesting := fun hdeep => hnone ⟨r, hr, hdeep⟩
            omega
          omega
        obtain ⟨hitem, hitem_eq⟩ := ih r hr (hheights r hr)
        obtain ⟨op', hpart⟩ := hitem_eq.mp (Nat.le_antisymm hitem hdeep)
        exact ⟨op', .item hr hpart⟩
    · rintro ⟨op', hpart⟩
      -- The group without items is the rule itself, or it stands in one of the items.
      rcases standsAt_group_iff.mp hpart with ⟨rfl, hroot⟩ | ⟨r, hr, hpart⟩
      · obtain ⟨-, rfl⟩ := Rule.group.inj hroot
        rfl
      · have hdeep := (ih r hr (hheights r hr)).2.mpr ⟨op', hpart⟩
        have hge := nestings_rulesToSpecs_le_iff.mp (Nat.le_refl _) r hr
        omega

/-- A rule is nested almost twice as deep as it is high, or twice. -/
theorem two_mul_height_le (r : Rule) : 2 * r.height ≤ r.toSpec.nesting + 1 := by
  induction r with
  | course id => exact Nat.le_refl 2
  | group op items ih =>
    have hnesting : (Rule.group op items).toSpec.nesting =
        Spec.nestings (rulesToSpecs items) + 2 := rfl
    have hheights : heights items ≤ (Spec.nestings (rulesToSpecs items) + 1) / 2 := by
      refine heights_le_iff.mpr fun r hr => ?_
      have hr_height := ih r hr
      have hr_nesting := nestings_rulesToSpecs_le_iff.mp (Nat.le_refl _) r hr
      omega
    rw [hnesting, height]
    omega

end Rule

/-- The nesting of a spec tells how deep the tree is that is admitted from it. -/
theorem Tree.nesting_le_two_mul_iff {spec : Spec} {limit : Nat} {t : Tree}
    (h : ofSpec spec limit = .ok t) (n : Nat) : spec.nesting ≤ 2 * n ↔ t.depth ≤ n := by
  have hspec : t.root.toSpec.nesting = spec.nesting := by
    rw [← spec.nesting_canonical, ← toSpec_of_ofSpec h, toSpec]
  have hdepth := (withinLimit_of_ofSpec h).depth_eq
  constructor
  · intro hnesting
    have hheight := t.root.two_mul_height_le
    omega
  · intro hle
    have hnesting := (t.root.nesting_toSpec (hdepth ▸ hle)).1
    omega

/-! ### Texts of specs and trees -/

/-- **What is written of a spec is read back exactly if its nesting is at most 127.**  So the text
of a tree is read back if the tree is at most 63 deep, and at a depth of 64 if no group without
items stands at the lowest level. -/
theorem written_spec_decodes_iff :
    (∀ s : Spec, decodeText Spec.decoder (Text.bytes s.toJson.compact) =
      if s.nesting ≤ 127 then .ok s else .error .malformed) ∧
    ∀ t : Tree, t.WithinLimit →
      (t.depth ≤ 63 →
        decodeText Spec.decoder (Text.bytes t.toSpec.toJson.compact) = .ok t.toSpec) ∧
      (t.depth = 64 →
        (decodeText Spec.decoder (Text.bytes t.toSpec.toJson.compact) = .ok t.toSpec ↔
          ¬∃ op, t.root.StandsAt 64 (.group op []))) := by
  refine ⟨Spec.decodeText_toJson, fun t ht => ⟨fun hdepth => ?_, fun hdepth => ?_⟩⟩
  · have hnesting := (t.root.nesting_toSpec (ht.depth_eq ▸ hdepth)).1
    rw [Spec.decodeText_toJson, if_pos]
    exact Nat.le_trans hnesting (by decide)
  · obtain ⟨hnesting, hlowest⟩ := t.root.nesting_toSpec (Nat.le_of_eq (ht.depth_eq ▸ hdepth))
    rw [Spec.decodeText_toJson, ← hlowest]
    -- At 64 the nesting is 127 or 128, and it is 128 if a group without items is lowest.
    by_cases hfits : t.toSpec.nesting ≤ maxNesting
    · rw [if_pos hfits]
      exact iff_of_true rfl fun heq => absurd (heq ▸ hfits) (by decide)
    · rw [if_neg hfits]
      have hdeep : ¬t.root.toSpec.nesting ≤ 127 := hfits
      exact iff_of_false (fun h => nomatch h) (not_not.mpr (by omega))

/-- A group without items inside groups of one is read back from level 63, and not from level
64. -/
theorem written_spec_decodes_iff_of_nested_groups :
    ∃ t u : Tree, t.WithinLimit ∧ t.depth = 63 ∧ t.root.StandsAt 63 (.group .or []) ∧
      u.WithinLimit ∧ u.depth = 64 ∧ u.root.StandsAt 64 (.group .or []) ∧
      decodeText Spec.decoder (Text.bytes t.toSpec.toJson.compact) = .ok t.toSpec ∧
      decodeText Spec.decoder (Text.bytes u.toSpec.toJson.compact) ≠ .ok u.toSpec := by
  let t : Tree := ⟨Nat.repeat (fun r => .group .and [r]) 62 (.group .or []), 63⟩
  let u : Tree := ⟨Nat.repeat (fun r => .group .and [r]) 63 (.group .or []), 64⟩
  have ht : t.WithinLimit := ⟨by decide, by decide +kernel⟩
  have hu : u.WithinLimit := ⟨by decide, by decide +kernel⟩
  have hlowest : u.root.StandsAt 64 (.group .or []) := Rule.standsAt_repeat .and _ 63
  refine ⟨t, u, ht, rfl, Rule.standsAt_repeat .and _ 62, hu, rfl, hlowest, ?_, fun h => ?_⟩
  · exact (written_spec_decodes_iff.2 t ht).1 (by decide)
  · exact ((written_spec_decodes_iff.2 u hu).2 rfl).mp h ⟨.or, hlowest⟩

end Registrar.Prerequisite
