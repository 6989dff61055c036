import Registrar.Proofs.Prerequisite.Admission
import Registrar.Proofs.Prerequisite.Missing
import Registrar.Proofs.Text.Decimal

/-!
# What the expression of a rule tells

Different rules may have the same expression: a group of one item shows as the item, in
parentheses or not.  Groups of one mean what their item means, so nothing is lost that matters.
`Rule.collapse` puts the item in the place of the group.

* `satisfiedBy_collapse` and `missing_collapse`: a collapsed rule is fulfilled by the same courses
  and misses the same.
* `collapse_eq_of_text_eq`: rules with the same expression collapse to the same rule.

Expressions can be read back because they mark their own ends: what follows an item is a blank or
a closing parenthesis, never a digit.  `textWithin_append_inj` is that statement for an item with
more text behind it, and goes by induction on the item.
-/

namespace Registrar.Prerequisite

open Text (EndsNumber isDigit_of_mem_toDigits takeWhile_isDigit_append)

namespace Rule

/-! ### Groups of one -/

/-- The group of some items, or the item where it is the only one. -/
def regroup (op : Operator) : List Rule → Rule
  | [r] => r
  | items => .group op items

mutual

/-- The rule with the only item in the place of every group of one, from the courses up. -/
def collapse : Rule → Rule
  | .course id => .course id
  | .group op items => regroup op (collapseAll items)

/-- The rules with the only item in the place of every group of one. -/
def collapseAll : List Rule → List Rule
  | [] => []
  | r :: rs => collapse r :: collapseAll rs

end

mutual

/-- Is there a group of one item in the rule? -/
def hasSingle : Rule → Bool
  | .course _ => false
  | .group _ items => items.length == 1 || anyHasSingle items

/-- Is there a group of one item in one of the rules? -/
def anyHasSingle : List Rule → Bool
  | [] => false
  | r :: rs => hasSingle r || anyHasSingle rs

end

theorem regroup_of_length_ne_one (op : Operator) {items : List Rule} (h : items.length ≠ 1) :
    regroup op items = .group op items := by
  match items with
  | [] => rfl
  | [_] => exact absurd rfl h
  | _ :: _ :: _ => rfl

mutual

/-- A rule without groups of one stays as it is. -/
theorem collapse_eq_self {r : Rule} (h : r.hasSingle = false) : r.collapse = r := by
  match r with
  | .course _ => rfl
  | .group op items =>
    rw [hasSingle, Bool.or_eq_false_iff] at h
    rw [collapse, collapseAll_eq_self h.2, regroup_of_length_ne_one op (by simpa using h.1)]

theorem collapseAll_eq_self {rules : List Rule} (h : anyHasSingle rules = false) :
    collapseAll rules = rules := by
  match rules with
  | [] => rfl
  | r :: rs =>
    rw [anyHasSingle, Bool.or_eq_false_iff] at h
    rw [collapseAll, collapse_eq_self h.1, collapseAll_eq_self h.2]

end

/-! ### What collapsing keeps -/

section

variable (completed : List CourseId)

theorem satisfiedBy_regroup (op : Operator) (items : List Rule) :
    (regroup op items).satisfiedBy completed = (group op items).satisfiedBy completed := by
  match items with
  | [] => rfl
  | [r] => cases op <;> simp [regroup, satisfiedBy, allSatisfiedBy, anySatisfiedBy]
  | _ :: _ :: _ => rfl

/-- A group of one that asks for any asks for what its item asks for: met items ask for nothing. -/
theorem unmet_regroup (op : Operator) (items : List Rule) :
    (regroup op items).unmet completed = (group op items).unmet completed := by
  match items with
  | [] => rfl
  | [r] =>
    cases op with
    | and => simp [regroup, unmet, unmetAll]
    | or =>
      cases hr : r.satisfiedBy completed with
      | true => simp [regroup, unmet, anySatisfiedBy, hr, unmet_eq_nil hr]
      | false => simp [regroup, unmet, unmetAll, anySatisfiedBy, hr]
  | _ :: _ :: _ => rfl

mutual

/-- Collapsing keeps what fulfils a rule. -/
theorem satisfiedBy_collapse (r : Rule) :
    r.collapse.satisfiedBy completed = r.satisfiedBy completed := by
  match r with
  | .course _ => rfl
  | .group .and items =>
    rw [collapse, satisfiedBy_regroup, satisfiedBy, satisfiedBy, allSatisfiedBy_collapseAll items]
  | .group .or items =>
    rw [collapse, satisfiedBy_regroup, satisfiedBy, satisfiedBy, anySatisfiedBy_collapseAll items]

theorem allSatisfiedBy_collapseAll (rules : List Rule) :
    allSatisfiedBy completed (collapseAll rules) = allSatisfiedBy completed rules := by
  match rules with
  | [] => rfl
  | r :: rs =>
    rw [collapseAll, allSatisfiedBy, allSatisfiedBy, satisfiedBy_collapse r,
      allSatisfiedBy_collapseAll rs]

theorem anySatisfiedBy_collapseAll (rules : List Rule) :
    anySatisfiedBy completed (collapseAll rules) = anySatisfiedBy completed rules := by
  match rules with
  | [] => rfl
  | r :: rs =>
    rw [collapseAll, anySatisfiedBy, anySatisfiedBy, satisfiedBy_collapse r,
      anySatisfiedBy_collapseAll rs]

end

mutual

theorem unmet_collapse (r : Rule) : r.collapse.unmet completed = r.unmet completed := by
  match r with
  | .course _ => rfl
  | .group .and items =>
    rw [collapse, unmet_regroup, unmet, unmet, unmetAll_collapseAll items]
  | .group .or items =>
    rw [collapse, unmet_regroup, unmet, unmet, anySatisfiedBy_collapseAll,
      unmetAll_collapseAll items]

theorem unmetAll_collapseAll (rules : List Rule) :
    unmetAll completed (collapseAll rules) = unmetAll completed rules := by
  match rules with
  | [] => rfl
  | r :: rs => rw [collapseAll, unmetAll, unmetAll, unmet_collapse r, unmetAll_collapseAll rs]

end

/-- Collapsing keeps what a rule misses, order included. -/
theorem missing_collapse (r : Rule) : r.collapse.missing completed = r.missing completed := by
  rw [missing_eq_distinct_unmet, missing_eq_distinct_unmet, unmet_collapse]

end

/-! ### The characters of an expression -/

theorem toList_textWithin_course (inner : Bool) (id : CourseId) :
    (textWithin inner (.course id)).toList = Nat.toDigits 10 id.toNat := by
  rw [textWithin, Nat.toString_eq_ofList_toDigits, String.toList_ofList]

theorem toList_textWithin_empty (inner : Bool) (op : Operator) :
    (textWithin inner (.group op [])).toList = op.label.toList ++ ['(', ')'] := by
  rw [textWithin, String.toList_append]
  rfl

theorem toList_textWithin_group (op : Operator) (first : Rule) (rest : List Rule) :
    (textWithin true (.group op (first :: rest))).toList =
      '(' :: ((textWithin true first).toList ++ ((textAfter op rest).toList ++ [')'])) := by
  simp [textWithin]

theorem toList_textAfter_cons (op : Operator) (r : Rule) (rs : List Rule) :
    (textAfter op (r :: rs)).toList =
      ' ' :: (op.label.toList ++
        ' ' :: ((textWithin true r).toList ++ (textAfter op rs).toList)) := by
  simp [textAfter]

/-! ### Where an item ends -/

/-- The characters go on with a closing parenthesis, if at all. -/
def EndsItems (cs : List Char) : Prop :=
  ∀ c ∈ cs.head?, c = ')'

theorem EndsItems.endsNumber_append {cs : List Char} (h : EndsItems cs) (op : Operator)
    (rest : List Rule) : EndsNumber ((textAfter op rest).toList ++ cs) := by
  cases rest with
  | nil =>
    intro c hc
    rw [h c hc]
    rfl
  | cons r rs =>
    intro c hc
    rw [toList_textAfter_cons] at hc
    obtain rfl : ' ' = c := by simpa using hc
    rfl

theorem takeWhile_toDigits_append {n : Nat} {cs : List Char} (h : EndsNumber cs) :
    (Nat.toDigits 10 n ++ cs).takeWhile Char.isDigit = Nat.toDigits 10 n :=
  takeWhile_isDigit_append (fun _ => isDigit_of_mem_toDigits) h

/-- A number that ends where the digits do can be read back. -/
theorem toDigits_append_inj {m n : Nat} {cs cs' : List Char} (hcs : EndsNumber cs)
    (hcs' : EndsNumber cs') (h : Nat.toDigits 10 m ++ cs = Nat.toDigits 10 n ++ cs') :
    m = n ∧ cs = cs' := by
  have hdigits : Nat.toDigits 10 m = Nat.toDigits 10 n := by
    rw [← takeWhile_toDigits_append hcs, h, takeWhile_toDigits_append hcs']
  refine ⟨?_, ?_⟩
  · calc
      m = Nat.ofDigitChars 10 (Nat.toDigits 10 m) 0 := Nat.ofDigitChars_ten_toDigits.symm
      _ = Nat.ofDigitChars 10 (Nat.toDigits 10 n) 0 := by rw [hdigits]
      _ = n := Nat.ofDigitChars_ten_toDigits
  · rw [hdigits] at h
    exact List.append_cancel_left h

/-- An expression begins with a digit exactly if it is that of a course. -/
theorem toDigits_append_ne_group {n : Nat} {op : Operator} {items : List Rule}
    {cs cs' : List Char} :
    Nat.toDigits 10 n ++ cs ≠ (textWithin true (.group op items)).toList ++ cs' := by
  intro h
  obtain ⟨d, ds, hds⟩ := List.exists_cons_of_ne_nil (Nat.toDigits_ne_nil (n := n) (b := 10))
  have hdigit : d.isDigit = true :=
    Nat.isDigit_of_mem_toDigits (b := 10) (n := n) (by decide) (by decide) (by simp [hds])
  rw [hds] at h
  -- A group begins with its operator if it is empty, and else with a parenthesis.
  cases items with
  | nil =>
    rw [toList_textWithin_empty] at h
    cases op <;> (injection h with hd; subst hd; revert hdigit; decide)
  | cons first rest =>
    rw [toList_textWithin_group] at h
    injection h with hd
    subst hd
    revert hdigit
    decide

theorem label_append_inj {op op' : Operator} {cs cs' : List Char}
    (h : op.label.toList ++ cs = op'.label.toList ++ cs') : op = op' ∧ cs = cs' := by
  cases op <;> cases op' <;> simp_all [Operator.label]

/-! ### Reading an expression back -/

/-- An item that can be read back with anything behind it. -/
def ReadsBack (r : Rule) : Prop :=
  ∀ {r' : Rule} {cs cs' : List Char}, EndsNumber cs → EndsNumber cs' →
    (textWithin true r).toList ++ cs = (textWithin true r').toList ++ cs' →
    r.collapse = r'.collapse ∧ cs = cs'

/-- Items after the first tell what they are, and unless there are none also the operator. -/
theorem textAfter_append_inj {op op' : Operator} {rest rest' : List Rule} {cs cs' : List Char}
    (hrest : ∀ r ∈ rest, ReadsBack r) (hcs : EndsItems cs) (hcs' : EndsItems cs')
    (h : (textAfter op rest).toList ++ cs = (textAfter op' rest').toList ++ cs') :
    collapseAll rest = collapseAll rest' ∧ (rest ≠ [] → op = op') ∧ cs = cs' := by
  induction rest generalizing rest' with
  | nil =>
    cases rest' with
    | nil => exact ⟨rfl, fun hne => absurd rfl hne, h⟩
    | cons r' rs' =>
      -- A closing parenthesis is no blank.
      rw [toList_textAfter_cons] at h
      have := hcs ' ' (by rw [show cs = _ from h]; rfl)
      exact absurd this (by decide)
  | cons r rs ih =>
    obtain ⟨hr, hrs⟩ := List.forall_mem_cons.mp hrest
    rw [toList_textAfter_cons] at h
    cases rest' with
    | nil =>
      have := hcs' ' ' (by rw [show cs' = _ from h.symm]; rfl)
      exact absurd this (by decide)
    | cons r' rs' =>
      rw [toList_textAfter_cons] at h
      simp only [List.cons_append, List.append_assoc, List.cons.injEq, true_and] at h
      -- Both go on with an item: first the operators agree, then the items, then what is behind
      -- them.
      obtain ⟨rfl, h⟩ := label_append_inj h
      simp only [List.cons.injEq, true_and] at h
      obtain ⟨hr', h⟩ := hr (hcs.endsNumber_append op rs) (hcs'.endsNumber_append op rs') h
      obtain ⟨hrs', -, h⟩ := ih hrs h
      exact ⟨by rw [collapseAll, collapseAll, hr', hrs'], fun _ => rfl, h⟩

/-- Items tell what group they make up, but for the operator of a group of one. -/
theorem items_append_inj {op op' : Operator} {first first' : Rule} {rest rest' : List Rule}
    {cs cs' : List Char} (hfirst : ReadsBack first) (hrest : ∀ r ∈ rest, ReadsBack r)
    (hcs : EndsItems cs) (hcs' : EndsItems cs')
    (h : (textWithin true first).toList ++ ((textAfter op rest).toList ++ cs) =
      (textWithin true first').toList ++ ((textAfter op' rest').toList ++ cs')) :
    regroup op (collapseAll (first :: rest)) = regroup op' (collapseAll (first' :: rest')) ∧
      cs = cs' := by
  obtain ⟨hfirst', h⟩ :=
    hfirst (hcs.endsNumber_append op rest) (hcs'.endsNumber_append op' rest') h
  obtain ⟨hrest', hop, h⟩ := textAfter_append_inj hrest hcs hcs' h
  refine ⟨?_, h⟩
  rw [collapseAll, collapseAll, hfirst', ← hrest']
  -- Only a group of one does not show its operator, and there it is dropped.
  cases rest with
  | nil => rfl
  | cons r rs => rw [hop (List.cons_ne_nil r rs)]

/-- The expression of an item tells what the item is and where it ends. -/
theorem textWithin_append_inj (r : Rule) : ReadsBack r := by
  -- By induction on the item, against every item that the other text may be of. Kinds of items
  -- differ in the first character, and only items of one kind can agree.
  induction r with
  | course id =>
    intro r' cs cs' hcs hcs' h
    rw [toList_textWithin_course] at h
    cases r' with
    | course id' =>
      rw [toList_textWithin_course] at h
      -- Both are numbers, and they end where the digits do.
      obtain ⟨hid, h⟩ := toDigits_append_inj hcs hcs' h
      exact ⟨by rw [UInt64.toNat_inj.mp hid], h⟩
    | group op' items' => exact absurd h toDigits_append_ne_group
  | group op items ih =>
    intro r' cs cs' hcs hcs' h
    cases r' with
    | course id' =>
      rw [toList_textWithin_course] at h
      exact absurd h.symm toDigits_append_ne_group
    | group op' items' =>
      cases items with
      | nil =>
        rw [toList_textWithin_empty, List.append_assoc] at h
        cases items' with
        | nil =>
          rw [toList_textWithin_empty, List.append_assoc] at h
          obtain ⟨rfl, h⟩ := label_append_inj h
          exact ⟨rfl, by simpa using h⟩
        | cons first' rest' =>
          rw [toList_textWithin_group] at h
          -- An empty group begins with a letter, and any other with a parenthesis.
          cases op <;> simp [Operator.label] at h
      | cons first rest =>
        rw [toList_textWithin_group] at h
        cases items' with
        | nil =>
          rw [toList_textWithin_empty] at h
          cases op' <;> simp [Operator.label] at h
        | cons first' rest' =>
          rw [toList_textWithin_group] at h
          simp only [List.cons_append, List.append_assoc, List.cons.injEq, true_and,
            List.nil_append] at h
          -- The items go up to the closing parenthesis, which is all that ends them here.
          obtain ⟨hfirst, hrest⟩ := List.forall_mem_cons.mp ih
          obtain ⟨hgroup, h⟩ := items_append_inj hfirst hrest
            (fun c hc => by simpa using hc.symm) (fun c hc => by simpa using hc.symm) h
          exact ⟨hgroup, List.cons.inj h |>.2⟩

/-- An expression is that of items without parentheses around them. -/
theorem exists_items (r : Rule) : ∃ op first rest,
    r.text.toList = (textWithin true first).toList ++ ((textAfter op rest).toList ++ []) ∧
      r.collapse = regroup op (collapseAll (first :: rest)) := by
  cases r with
  | course id =>
    refine ⟨.and, .course id, [], ?_, rfl⟩
    simp [text, toList_textWithin_course, textAfter]
  | group op items =>
    cases items with
    | nil =>
      refine ⟨op, .group op [], [], ?_, rfl⟩
      simp [text, toList_textWithin_empty, textAfter]
    | cons first rest =>
      refine ⟨op, first, rest, ?_, rfl⟩
      simp [text, textWithin]

/-- Rules with the same expression differ in groups of one only. -/
theorem collapse_eq_of_text_eq {r r' : Rule} (h : r.text = r'.text) : r.collapse = r'.collapse := by
  obtain ⟨op, first, rest, htext, hcollapse⟩ := exists_items r
  obtain ⟨op', first', rest', htext', hcollapse'⟩ := exists_items r'
  rw [← String.toList_inj, htext, htext'] at h
  rw [hcollapse, hcollapse']
  exact (items_append_inj (textWithin_append_inj first) (fun r _ => textWithin_append_inj r)
    (fun c hc => by simp at hc) (fun c hc => by simp at hc) h).1

end Rule

/-- **The expression tells what a tree means.**  Trees with the same expression are the same up
to groups of one item; so the same courses fulfil them, and they miss the same courses in the same
order.  Without groups of one they are equal. -/
theorem expression_determines_meaning {t t' : Tree} (h : t.text = t'.text) :
    t.root.collapse = t'.root.collapse ∧
    (∀ completed, satisfied completed (some t) = satisfied completed (some t') ∧
      missing completed (some t) = missing completed (some t')) ∧
    (t.WithinLimit → t'.WithinLimit → t.root.hasSingle = false → t'.root.hasSingle = false →
      t = t') := by
  have hcollapse : t.root.collapse = t'.root.collapse := Rule.collapse_eq_of_text_eq h
  refine ⟨hcollapse, fun completed => ⟨?_, ?_⟩, fun ht ht' hsingle hsingle' => ?_⟩
  · rw [satisfied, satisfied, ← Rule.satisfiedBy_collapse, hcollapse, Rule.satisfiedBy_collapse]
  · rw [missing, missing, ← Rule.missing_collapse, hcollapse, Rule.missing_collapse]
  · rw [Rule.collapse_eq_self hsingle, Rule.collapse_eq_self hsingle'] at hcollapse
    have hdepth : t.depth = t'.depth := by rw [ht.depth_eq, ht'.depth_eq, hcollapse]
    obtain ⟨root, depth⟩ := t
    obtain ⟨root', depth'⟩ := t'
    rw [Tree.mk.injEq]
    exact ⟨hcollapse, hdepth⟩

/-- A group of one around a group shows in parentheses only, whatever it asks of its item. -/
theorem expression_determines_meaning_of_group_of_one :
    (∃ t t' : Tree, t.text = t'.text ∧ t ≠ t' ∧ t.root.collapse = t'.root.collapse) ∧
    ∃ t : Tree, t.WithinLimit ∧ t.root.hasSingle = false ∧ t.text = "(1 OR 2) AND 3" ∧
      ∀ t' : Tree, t'.WithinLimit → t'.root.hasSingle = false → t'.text = t.text → t' = t := by
  let pair : Rule := .group .or [.course 1, .course 2]
  refine ⟨⟨⟨.group .and [pair], 3⟩, ⟨.group .or [pair], 3⟩, ?_, by decide, ?_⟩, ?_⟩
  · decide +kernel
  · exact (expression_determines_meaning (by decide +kernel)).1
  · have ht : Tree.WithinLimit ⟨.group .and [pair, .course 3], 3⟩ := ⟨by decide, by decide⟩
    refine ⟨_, ht, by decide, by decide +kernel, fun t' ht' hsingle htext => ?_⟩
    exact (expression_determines_meaning htext).2.2 ht' ht hsingle (by decide)

end Registrar.Prerequisite
