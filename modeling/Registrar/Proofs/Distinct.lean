import Registrar.Distinct
import Mathlib.Data.List.Induction
import Mathlib.Data.List.Nodup

/-!
# Laws of first occurrences

`distinctBy key` keeps of every key the first entry (`mem_distinctBy_iff`) and invents nothing
(`map_distinctBy`, `distinctBy_sublist`); entries may be left out by their keys before or after
that (`distinctBy_filter`).  The keys themselves are cleared of repetitions by `distinct`, which
keeps every key (`mem_distinct`) and keeps it once (`nodup_distinct`), as `List.eraseDups` does
(`distinct_eq_eraseDups`).  The order is that of the first occurrences (`pairwise_distinct`).

With one more entry at its end a list is cleared to the same as before, or to that and the entry
(`distinctAfter_append_singleton`): so proofs about lists that grow at their ends go by that end.

The traversals of prerequisite rules clear repetitions while they run: they `note` a course in
a list that has the last course first.  `reverse_foldl_note` says that noting courses one after
another amounts to clearing the repetitions afterwards.
-/

namespace Registrar

/-! ### Entries with keys -/

section

variable {α κ : Type} [BEq κ]

theorem distinctAfter_sublist (key : α → κ) (seen : List κ) (entries : List α) :
    (distinctAfter key seen entries).Sublist entries := by
  induction entries generalizing seen with
  | nil => exact List.Sublist.refl _
  | cons a rest ih =>
    unfold distinctAfter
    split_ifs
    · exact (ih seen).trans (List.sublist_cons_self a rest)
    · exact (ih _).cons_cons a

theorem distinctBy_sublist (key : α → κ) (entries : List α) :
    (distinctBy key entries).Sublist entries :=
  distinctAfter_sublist key [] entries

/-- Of what has been seen only the keys of the entries count. -/
theorem distinctAfter_congr {key : α → κ} {seen seen' : List κ} {entries : List α}
    (h : ∀ a ∈ entries, seen.contains (key a) = seen'.contains (key a)) :
    distinctAfter key seen entries = distinctAfter key seen' entries := by
  induction entries generalizing seen seen' with
  | nil => rfl
  | cons a rest ih =>
    have hrest : ∀ b ∈ rest, seen.contains (key b) = seen'.contains (key b) :=
      fun b hb => h b (List.mem_cons_of_mem _ hb)
    have hcons : ∀ b ∈ rest,
        (key a :: seen).contains (key b) = (key a :: seen').contains (key b) := by
      intro b hb
      rw [List.contains_cons, List.contains_cons, hrest b hb]
    unfold distinctAfter
    rw [h a List.mem_cons_self, ih hrest, ih hcons]

/-- Clearing repetitions of keys and taking the keys may change places. -/
theorem map_distinctAfter (key : α → κ) (seen : List κ) (entries : List α) :
    (distinctAfter key seen entries).map key = distinctAfter id seen (entries.map key) := by
  induction entries generalizing seen with
  | nil => rfl
  | cons a rest ih =>
    simp only [distinctAfter, List.map_cons, id_eq]
    split_ifs
    · exact ih seen
    · rw [List.map_cons, ih]

variable [LawfulBEq κ]

theorem mem_distinctAfter {seen entries : List κ} {k : κ} :
    k ∈ distinctAfter id seen entries ↔ k ∈ entries ∧ k ∉ seen := by
  induction entries generalizing seen with
  | nil => simp [distinctAfter]
  | cons a rest ih =>
    simp only [distinctAfter, id_eq, List.contains_iff_mem]
    split_ifs with h
    · -- The first key has been seen, so it is dropped and none of the results is it.
      rw [ih, List.mem_cons]
      constructor
      · rintro ⟨hk, hs⟩
        exact ⟨Or.inr hk, hs⟩
      · rintro ⟨rfl | hk, hs⟩
        · exact absurd h hs
        · exact ⟨hk, hs⟩
    · by_cases hk : k = a
      · subst hk
        simp [h]
      · simp [ih, hk]

/-- Entries are left out by their keys before or after the repetitions are cleared. -/
theorem distinctAfter_filter (key : α → κ) (p : κ → Bool) (seen : List κ) (entries : List α) :
    distinctAfter key seen (entries.filter fun a => p (key a)) =
      (distinctAfter key seen entries).filter fun a => p (key a) := by
  induction entries generalizing seen with
  | nil => rfl
  | cons a rest ih =>
    cases ha : p (key a) with
    | true =>
      rw [List.filter_cons_of_pos (by simpa using ha)]
      unfold distinctAfter
      split_ifs
      · exact ih seen
      · rw [List.filter_cons_of_pos (by simpa using ha), ih]
    | false =>
      rw [List.filter_cons_of_neg (by simp [ha]), ih]
      rw [distinctAfter]
      split_ifs
      · rfl
      · -- The key of `a` has now been seen, but it is not one of those that stay.
        have hseen : ∀ b ∈ rest.filter fun b => p (key b),
            seen.contains (key b) = (key a :: seen).contains (key b) := by
          intro b hb
          have hne : key b ≠ key a := by
            intro heq
            have hb' := (List.mem_filter.mp hb).2
            rw [heq, ha] at hb'
            exact Bool.false_ne_true hb'
          rw [List.contains_cons, beq_false_of_ne hne, Bool.false_or]
        rw [List.filter_cons_of_neg (by simp [ha]), ← ih, ← ih, distinctAfter_congr hseen]

theorem distinctBy_filter (key : α → κ) (p : κ → Bool) (entries : List α) :
    distinctBy key (entries.filter fun a => p (key a)) =
      (distinctBy key entries).filter fun a => p (key a) :=
  distinctAfter_filter key p [] entries

/-- Just the entries stay that are the first ones of a key that has not been seen. -/
theorem mem_distinctAfter_iff {key : α → κ} {seen : List κ} {entries : List α} {a : α} :
    a ∈ distinctAfter key seen entries ↔
      key a ∉ seen ∧ (entries.find? fun b => key b == key a) = some a := by
  induction entries generalizing seen with
  | nil => simp [distinctAfter]
  | cons b rest ih =>
    unfold distinctAfter
    -- Either the search stops at the first entry, or it passes over it.
    by_cases hb : key b = key a
    · rw [List.find?_cons_of_pos (by simpa using hb), Option.some_inj, ← hb]
      split_ifs with hseen
      · rw [List.contains_iff_mem] at hseen
        rw [ih, ← hb]
        exact iff_of_false (fun h => h.1 hseen) fun h => h.1 hseen
      · rw [List.contains_iff_mem] at hseen
        rw [List.mem_cons, ih, ← hb]
        constructor
        · rintro (rfl | ⟨hnew, -⟩)
          · exact ⟨hseen, rfl⟩
          · exact absurd List.mem_cons_self hnew
        · rintro ⟨-, rfl⟩
          exact Or.inl rfl
    · have hab : a ≠ b := fun heq => hb (heq ▸ rfl)
      rw [List.find?_cons_of_neg (by simpa using hb)]
      split_ifs with hseen
      · exact ih
      · rw [List.mem_cons, or_iff_right hab, ih, List.mem_cons, not_or]
        exact and_congr_left fun _ => and_iff_right (Ne.symm hb)

/-- The entries that stay are the first ones of their keys. -/
theorem mem_distinctBy_iff {key : α → κ} {entries : List α} {a : α} :
    a ∈ distinctBy key entries ↔ (entries.find? fun b => key b == key a) = some a := by
  rw [distinctBy, mem_distinctAfter_iff]
  exact and_iff_right List.not_mem_nil

/-- No key stays twice. -/
theorem nodup_distinctAfter (seen entries : List κ) :
    (distinctAfter id seen entries).Nodup := by
  induction entries generalizing seen with
  | nil => exact List.nodup_nil
  | cons a rest ih =>
    unfold distinctAfter
    split_ifs
    · exact ih seen
    · refine List.nodup_cons.mpr ⟨?_, ih _⟩
      simp [mem_distinctAfter]

/-- A further entry stays if its key is new. -/
theorem distinctAfter_append_singleton (key : α → κ) (seen : List κ) (front : List α) (a : α) :
    distinctAfter key seen (front ++ [a]) =
      if key a ∈ seen ∨ key a ∈ front.map key then distinctAfter key seen front
      else distinctAfter key seen front ++ [a] := by
  induction front generalizing seen with
  | nil => simp [distinctAfter]
  | cons b rest ih =>
    -- The keys that count are the same, whether that of `b` has been seen or comes now.
    have hkeys : key a ∈ key b :: seen ∨ key a ∈ rest.map key ↔
        key a ∈ seen ∨ key a ∈ (b :: rest).map key := by
      rw [List.mem_cons, List.map_cons, List.mem_cons, or_assoc, or_left_comm]
    rw [List.cons_append]
    unfold distinctAfter
    by_cases hb : seen.contains (key b) = true
    · have hold : key a = key b → key a ∈ seen := fun h => h ▸ List.contains_iff_mem.mp hb
      have hseen : key a ∈ seen ∨ key a ∈ rest.map key ↔
          key a ∈ seen ∨ key a ∈ (b :: rest).map key := by
        rw [← hkeys, List.mem_cons, or_assoc]
        exact ⟨Or.inr, fun h => h.elim (fun e => Or.inl (hold e)) id⟩
      rw [if_pos hb, if_pos hb, ih, if_congr hseen rfl rfl]
    · rw [if_neg hb, if_neg hb, ih, if_congr hkeys rfl rfl]
      split_ifs <;> rfl

/-- Where no key comes twice, the entries with keys that have not been seen stay. -/
theorem distinctAfter_eq_filter {key : α → κ} (seen : List κ) {entries : List α}
    (h : (entries.map key).Nodup) :
    distinctAfter key seen entries = entries.filter fun a => !seen.contains (key a) := by
  induction entries generalizing seen with
  | nil => rfl
  | cons a rest ih =>
    rw [List.map_cons, List.nodup_cons] at h
    unfold distinctAfter
    by_cases ha : seen.contains (key a) = true
    · rw [if_pos ha, List.filter_cons_of_neg (by simpa using ha), ih seen h.2]
    · have hrest : ∀ b ∈ rest, (!(key a :: seen).contains (key b)) = !seen.contains (key b) := by
        intro b hb
        have hne : key b ≠ key a := fun heq => h.1 (heq ▸ List.mem_map_of_mem hb)
        rw [List.contains_cons, beq_false_of_ne hne, Bool.false_or]
      rw [if_neg ha, List.filter_cons_of_pos (by simpa using ha), ih _ h.2,
        List.filter_congr hrest]

end

/-! ### The keys that stay -/

section

variable {α κ : Type} [DecidableEq κ]

/-- The keys without those that came before. -/
def distinct (keys : List κ) : List κ :=
  distinctBy id keys

theorem map_distinctBy (key : α → κ) (entries : List α) :
    (distinctBy key entries).map key = distinct (entries.map key) :=
  map_distinctAfter key [] entries

theorem distinctAfter_filterMap {f : κ → Option α} {key : α → κ} (seen : List κ) {keys : List κ}
    (h : ∀ k ∈ keys, ∃ a, f k = some a ∧ key a = k) :
    distinctAfter key seen (keys.filterMap f) = (distinctAfter id seen keys).filterMap f := by
  induction keys generalizing seen with
  | nil => rfl
  | cons k rest ih =>
    obtain ⟨a, ha, rfl⟩ := h k List.mem_cons_self
    have hrest := fun k hk => h k (List.mem_cons_of_mem _ hk)
    rw [List.filterMap_cons_some ha]
    simp only [distinctAfter, id_eq]
    split_ifs
    · exact ih seen hrest
    · rw [ih _ hrest, List.filterMap_cons_some ha]

/-- Keys are cleared of repetitions before or after their entries are looked up. -/
theorem distinctBy_filterMap {f : κ → Option α} {key : α → κ} {keys : List κ}
    (h : ∀ k ∈ keys, ∃ a, f k = some a ∧ key a = k) :
    distinctBy key (keys.filterMap f) = (distinct keys).filterMap f :=
  distinctAfter_filterMap [] h

/-- Every key stays, and no other comes. -/
@[simp] theorem mem_distinct {keys : List κ} {k : κ} : k ∈ distinct keys ↔ k ∈ keys := by
  simp [distinct, distinctBy, mem_distinctAfter]

/-- No key stays twice. -/
theorem nodup_distinct (keys : List κ) : (distinct keys).Nodup :=
  nodup_distinctAfter [] keys

@[simp] theorem distinct_eq_nil_iff {keys : List κ} : distinct keys = [] ↔ keys = [] := by
  simp only [List.eq_nil_iff_forall_not_mem, mem_distinct]

theorem distinct_append_singleton (front : List κ) (k : κ) :
    distinct (front ++ [k]) = if k ∈ front then distinct front else distinct front ++ [k] := by
  have hkeys : k ∈ ([] : List κ) ∨ k ∈ front.map id ↔ k ∈ front := by
    rw [List.map_id, or_iff_right List.not_mem_nil]
  have hstep := distinctAfter_append_singleton id [] front k
  rw [id_eq, if_congr hkeys rfl rfl] at hstep
  exact hstep

theorem distinct_eq_eraseDups (keys : List κ) : distinct keys = keys.eraseDups := by
  induction keys using List.reverseRecOn with
  | nil => rfl
  | append_singleton front k ih =>
    rw [distinct_append_singleton, List.eraseDups_append, ih, List.removeAll]
    split_ifs with hk
    · simp [hk]
    · simp [hk, List.eraseDups_cons]

/-- What is looked for among the keys is found first where it comes first. -/
theorem find?_distinct (p : κ → Bool) (keys : List κ) : (distinct keys).find? p = keys.find? p := by
  induction keys using List.reverseRecOn with
  | nil => rfl
  | append_singleton front k ih =>
    rw [distinct_append_singleton, List.find?_append, ← ih]
    split_ifs with hk
    · cases hfound : (distinct front).find? p with
      | some _ => rfl
      | none =>
        -- A key that comes again has been looked at.
        have hno : ¬ p k = true := List.find?_eq_none.mp hfound k (mem_distinct.mpr hk)
        rw [Option.none_or, List.find?_cons_of_neg hno, List.find?_nil]
    · rw [List.find?_append]

/-! ### The order of first occurrences -/

/-- Of two keys that stay, the first one has an entry in front of all entries of the other, where
the entries are listed in some order. -/
theorem pairwise_distinct {before : α → α → Prop} {key : α → κ} {entries : List α}
    (h : entries.Pairwise before) :
    (distinct (entries.map key)).Pairwise fun k k' =>
      ∃ a ∈ entries, key a = k ∧ ∀ b ∈ entries, key b = k' → before a b := by
  induction entries using List.reverseRecOn with
  | nil => exact List.Pairwise.nil
  | append_singleton front last ih =>
    rw [List.pairwise_append] at h
    obtain ⟨hfront, -, hlast⟩ := h
    have hbefore : ∀ a ∈ front, before a last := fun a ha => hlast a ha last List.mem_cons_self
    -- What was in front of the entries of a key so far is in front of the last one as well.
    have hold : (distinct (front.map key)).Pairwise fun k k' =>
        ∃ a ∈ front ++ [last], key a = k ∧ ∀ b ∈ front ++ [last], key b = k' → before a b := by
      refine (ih hfront).imp fun {k k'} hpair => ?_
      obtain ⟨a, ha, hkey, hall⟩ := hpair
      refine ⟨a, List.mem_append_left _ ha, hkey, fun b hb hb' => ?_⟩
      rcases List.mem_append.mp hb with hb | hb
      · exact hall b hb hb'
      · exact List.mem_singleton.mp hb ▸ hbefore a ha
    rw [List.map_append, List.map_singleton, distinct_append_singleton]
    split_ifs with hnew
    · exact hold
    · -- The key of the last entry is new, so no entry in front has it.
      refine List.pairwise_append.mpr ⟨hold, List.pairwise_singleton _ _, ?_⟩
      intro k hk k' hk'
      obtain ⟨a, ha, hkey⟩ := List.mem_map.mp (mem_distinct.mp hk)
      refine ⟨a, List.mem_append_left _ ha, hkey, fun b hb hb' => ?_⟩
      rcases List.mem_append.mp hb with hb | hb
      · have hmem : key last ∈ front.map key :=
          List.mem_map.mpr ⟨b, hb, hb'.trans (List.mem_singleton.mp hk')⟩
        exact absurd hmem hnew
      · exact List.mem_singleton.mp hb ▸ hbefore a ha

/-! ### Noting one after another -/

/-- The keys found so far, the last first, and one more unless it is among them. -/
def note (found : List κ) (k : κ) : List κ :=
  if found.contains k then found else k :: found

theorem reverse_foldl_note (found entries : List κ) :
    (entries.foldl note found).reverse = found.reverse ++ distinctAfter id found entries := by
  induction entries generalizing found with
  | nil => simp [distinctAfter]
  | cons a rest ih =>
    simp only [List.foldl_cons, ih, note, distinctAfter, id_eq]
    split_ifs
    · rfl
    · simp

end

end Registrar
