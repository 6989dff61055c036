import Mathlib.Data.List.Forall2
import Mathlib.Data.List.Induction

/-!
# Outcomes of steps that may fail

A run of steps in `Except` succeeds exactly if every step does.  `foldlM_eq_ok_iff` is the form
in which loops are used: when it is known, for the entries taken so far, which state they have
built and whether one more entry is accepted, then the loop accepts exactly the valid lists of
entries and ends in the state that they build.

`Agree` compares two outcomes, and `Agree.foldlM` two loops over the same entries.  `orKept` and
`leftBy` are the states that steps leave behind whether they succeed or not.
-/

namespace Registrar

variable {α β γ ε ε' σ : Type}

@[simp] theorem bind_eq_ok_iff {x : Except ε α} {f : α → Except ε β} {b : β} :
    (x >>= f) = .ok b ↔ ∃ a, x = .ok a ∧ f a = .ok b := by
  cases x <;> simp [Bind.bind, Except.bind]

@[simp] theorem pure_eq_ok_iff {a b : α} : (pure a : Except ε α) = .ok b ↔ a = b := by
  simp [pure, Except.pure]

@[simp] theorem mapError_eq_ok_iff {f : ε → ε'} {x : Except ε α} {a : α} :
    x.mapError f = .ok a ↔ x = .ok a := by
  cases x <;> simp [Except.mapError]

theorem map_eq_ok_iff {f : α → β} {x : Except ε α} {b : β} :
    x.map f = .ok b ↔ ∃ a, x = .ok a ∧ f a = b := by
  cases x <;> simp [Except.map]

theorem map_eq_error_iff {f : α → β} {x : Except ε α} {e : ε} :
    x.map f = .error e ↔ x = .error e := by
  cases x <;> simp [Except.map]

/-- A run of two steps ends well exactly if both do. -/
theorem run_bind_eq_ok_iff {x : ExceptT ε Id α} {f : α → ExceptT ε Id β} {b : β} :
    (x >>= f).run = .ok b ↔ ∃ a, x.run = .ok a ∧ (f a).run = .ok b := by
  have hrun : (x >>= f).run = Except.bind x.run fun a => (f a).run := by
    change ExceptT.bindCont f x.run = _
    cases x.run <;> rfl
  rw [hrun]
  exact bind_eq_ok_iff

/-- A loop takes exactly the valid lists of entries, if each entry is taken exactly where the
list stays valid with it; it ends in the state that the entries build. -/
theorem foldlM_eq_ok_iff {step : σ → α → Except ε σ} (Valid : List α → Prop)
    (build : List α → σ) (hnil : Valid []) (hfront : ∀ front a, Valid (front ++ [a]) → Valid front)
    (hstep : ∀ front a s, Valid front →
      (step (build front) a = .ok s ↔ Valid (front ++ [a]) ∧ s = build (front ++ [a])))
    (entries : List α) (s : σ) :
    entries.foldlM step (build []) = .ok s ↔ Valid entries ∧ s = build entries := by
  -- The last entry is taken in the state that the others have built.
  induction entries using List.reverseRecOn generalizing s with
  | nil =>
    simp only [List.foldlM_nil, pure_eq_ok_iff, hnil, true_and]
    exact eq_comm
  | append_singleton front a ih =>
    rw [List.foldlM_append, bind_eq_ok_iff]
    simp only [ih, List.foldlM_cons, List.foldlM_nil, bind_pure]
    constructor
    · rintro ⟨_, ⟨hvalid, rfl⟩, h⟩
      exact (hstep front a s hvalid).mp h
    · intro h
      have hvalid := hfront front a h.1
      exact ⟨build front, ⟨hvalid, rfl⟩, (hstep front a s hvalid).mpr h⟩

/-- A list is mapped exactly if each entry is. -/
theorem mapM_eq_ok_iff {f : α → Except ε β} {entries : List α} {images : List β} :
    entries.mapM f = .ok images ↔ List.Forall₂ (fun a b => f a = .ok b) entries images := by
  induction entries generalizing images with
  | nil =>
    simp only [List.mapM_nil, pure_eq_ok_iff, List.forall₂_nil_left_iff]
    exact eq_comm
  | cons a rest ih =>
    simp only [List.mapM_cons, bind_eq_ok_iff, pure_eq_ok_iff, ih, List.forall₂_cons_left_iff]
    constructor
    · rintro ⟨b, hb, images, h, rfl⟩
      exact ⟨b, images, hb, h, rfl⟩
    · rintro ⟨b, images, hb, h, rfl⟩
      exact ⟨b, hb, images, h, rfl⟩

/-- A list with an entry that is not mapped gives the error of the first such entry. -/
theorem mapM_eq_error {f : α → Except ε β} {before after : List α} {a : α} {e : ε}
    (hbefore : ∀ b ∈ before, ∃ c, f b = .ok c) (ha : f a = .error e) :
    (before ++ a :: after).mapM f = .error e := by
  induction before with
  | nil =>
    rw [List.nil_append, List.mapM_cons, ha]
    rfl
  | cons b rest ih =>
    obtain ⟨⟨c, hc⟩, hrest⟩ := List.forall_mem_cons.mp hbefore
    rw [List.cons_append, List.mapM_cons, hc, ih hrest]
    rfl

/-- Entries are looked up one by one exactly if every one of them is found. -/
theorem forall₂_eq_some_iff {f : α → Option β} {entries : List α} {images : List β} :
    List.Forall₂ (fun a b => f a = some b) entries images ↔
      (∀ a ∈ entries, (f a).isSome = true) ∧ images = entries.filterMap f := by
  induction entries generalizing images with
  | nil => simp
  | cons a rest ih =>
    rw [List.forall₂_cons_left_iff, List.forall_mem_cons]
    constructor
    · rintro ⟨b, images, hb, h, rfl⟩
      obtain ⟨hrest, rfl⟩ := ih.mp h
      exact ⟨⟨Option.isSome_of_eq_some hb, hrest⟩, (List.filterMap_cons_some hb).symm⟩
    · rintro ⟨⟨ha, hrest⟩, rfl⟩
      obtain ⟨b, hb⟩ := Option.isSome_iff_exists.mp ha
      exact ⟨b, _, hb, ih.mpr ⟨hrest, rfl⟩, List.filterMap_cons_some hb⟩

/-! ### Two ways of doing the same -/

/-- Two outcomes are both good or both bad, with related results or related errors. -/
inductive Agree (R : α → β → Prop) (E : ε → ε' → Prop) : Except ε α → Except ε' β → Prop
  | ok {a : α} {b : β} (h : R a b) : Agree R E (.ok a) (.ok b)
  | error {e : ε} {e' : ε'} (h : E e e') : Agree R E (.error e) (.error e')

/-- Two loops over the same entries agree if their steps do, from related states on. -/
theorem Agree.foldlM {R : α → β → Prop} {E : ε → ε' → Prop} {step : α → γ → Except ε α}
    {step' : β → γ → Except ε' β} {entries : List γ}
    (hstep : ∀ c ∈ entries, ∀ a b, R a b → Agree R E (step a c) (step' b c)) {a : α} {b : β}
    (h : R a b) : Agree R E (entries.foldlM step a) (entries.foldlM step' b) := by
  induction entries generalizing a b with
  | nil => exact .ok h
  | cons c rest ih =>
    obtain ⟨hc, hrest⟩ := List.forall_mem_cons.mp hstep
    rw [List.foldlM_cons, List.foldlM_cons]
    have hfirst := hc a b h
    generalize step a c = x, step' b c = y at hfirst ⊢
    -- Where the first step fails in both loops, both end there.
    cases hfirst with
    | ok h' => exact ih hrest h'
    | error he => exact .error he

/-! ### What is left behind -/

/-- The state after a step that leaves the old one where it fails. -/
def orKept (s : σ) : Except ε σ → σ
  | .ok s' => s'
  | .error _ => s

/-- What holds before a step and after it, if it succeeds, holds of the state it leaves behind. -/
theorem orKept_induction {P : σ → Prop} {s : σ} {outcome : Except ε σ} (hkept : P s)
    (hstep : ∀ s', outcome = .ok s' → P s') : P (orKept s outcome) := by
  cases outcome with
  | ok s' => exact hstep s' rfl
  | error _ => exact hkept

/-- The state that a change made in place leaves behind, also where it fails. -/
def leftBy : EStateM.Result ε σ α → σ
  | .ok _ s => s
  | .error _ s => s

end Registrar
