import Registrar.Ascending
import Mathlib.Data.List.Induction
import Mathlib.Data.List.Nodup
import Mathlib.Data.List.Perm.Basic

/-!
# Lists of records with keys

A record is found in a list by its key; `isSome_find?_key` says which keys are found.

`insertAll` puts records in their places by ascending number one after another.  That loses and
adds nothing (`insertAll_perm`) and keeps the numbers ascending as long as they are new
(`pairwise_insertAll`).
-/

namespace Registrar

/-! ### Looking up -/

section

variable {α κ : Type} [DecidableEq κ] (key : α → κ) {entries : List α} {k : κ}

theorem isSome_find?_key :
    (entries.find? fun a => key a == k).isSome = true ↔ k ∈ entries.map key := by
  simp [List.find?_isSome]

theorem find?_key_eq_none_iff :
    (entries.find? fun a => key a == k) = none ↔ k ∉ entries.map key := by
  rw [← isSome_find?_key key, Option.not_isSome_iff_eq_none]

theorem key_of_find?_key {a : α} (h : (entries.find? fun a => key a == k) = some a) :
    key a = k := by
  simpa using List.find?_some h

end

/-! ### Keys that differ -/

section

variable {α κ : Type}

/-- Keys that follow others are new and different. -/
theorem nodup_append_iff {keys more : List κ} :
    (keys ++ more).Nodup ↔ keys.Nodup ∧ more.Nodup ∧ ∀ k ∈ more, k ∉ keys := by
  rw [List.nodup_append]
  exact and_congr_right fun _ => and_congr_right fun _ =>
    ⟨fun h k hk hk' => h k hk' k hk rfl, fun h k hk k' hk' e => h k' hk' (e ▸ hk)⟩

/-- The key of a further record is new. -/
theorem nodup_map_append_singleton_iff {key : α → κ} {front : List α} {a : α} :
    ((front ++ [a]).map key).Nodup ↔ (front.map key).Nodup ∧ key a ∉ front.map key := by
  rw [List.map_append, List.map_singleton, nodup_append_iff]
  simp

end

/-! ### Ascending numbers -/

section

variable {α : Type} {key : α → UInt64}

theorem insertAscending_perm (key : α → UInt64) (a : α) (entries : List α) :
    (insertAscending key a entries).Perm (a :: entries) := by
  induction entries with
  | nil => exact List.Perm.refl _
  | cons b rest ih =>
    unfold insertAscending
    split_ifs
    · exact List.Perm.refl _
    · exact (ih.cons b).trans (List.Perm.swap a b rest)

theorem pairwise_insertAscending {a : α} {entries : List α}
    (h : entries.Pairwise fun b c => key b < key c) (ha : key a ∉ entries.map key) :
    (insertAscending key a entries).Pairwise fun b c => key b < key c := by
  induction entries with
  | nil => exact List.pairwise_singleton _ a
  | cons b rest ih =>
    rw [List.pairwise_cons] at h
    simp only [List.map_cons, List.mem_cons, not_or] at ha
    unfold insertAscending
    split_ifs with hlt
    · refine List.pairwise_cons.mpr ⟨fun c hc => ?_, List.pairwise_cons.mpr h⟩
      rcases List.mem_cons.mp hc with rfl | hc
      · exact hlt
      · exact UInt64.lt_trans hlt (h.1 c hc)
    · -- The entry goes further back; what comes behind the first is the rest and the entry.
      refine List.pairwise_cons.mpr ⟨fun c hc => ?_, ih h.2 ha.2⟩
      rcases List.mem_cons.mp ((insertAscending_perm key a rest).mem_iff.mp hc) with rfl | hc
      · exact UInt64.lt_of_le_of_ne (UInt64.not_lt.mp hlt) (Ne.symm ha.1)
      · exact h.1 c hc

/-- The records with new ones, each put in its place by ascending number. -/
def insertAll (key : α → UInt64) (new entries : List α) : List α :=
  new.foldl (fun entries a => insertAscending key a entries) entries

theorem insertAll_append_singleton (key : α → UInt64) (front : List α) (a : α)
    (entries : List α) :
    insertAll key (front ++ [a]) entries = insertAscending key a (insertAll key front entries) := by
  simp [insertAll]

theorem insertAll_append (key : α → UInt64) (front back entries : List α) :
    insertAll key (front ++ back) entries = insertAll key back (insertAll key front entries) := by
  simp [insertAll]

theorem insertAll_perm (key : α → UInt64) (new entries : List α) :
    (insertAll key new entries).Perm (new ++ entries) := by
  induction new generalizing entries with
  | nil => exact List.Perm.refl _
  | cons a rest ih =>
    have hinsert := (insertAscending_perm key a entries).append_left rest
    exact (ih (insertAscending key a entries)).trans (hinsert.trans List.perm_middle)

theorem mem_map_insertAll {β : Type} {f : α → β} {new entries : List α} {b : β} :
    b ∈ (insertAll key new entries).map f ↔ b ∈ new.map f ∨ b ∈ entries.map f := by
  rw [((insertAll_perm key new entries).map f).mem_iff, List.map_append, List.mem_append]

theorem pairwise_insertAll {new : List α} (h : (new.map key).Nodup) :
    (insertAll key new []).Pairwise fun b c => key b < key c := by
  induction new using List.reverseRecOn with
  | nil => exact List.Pairwise.nil
  | append_singleton front a ih =>
    rw [List.map_append, List.map_singleton, List.nodup_append] at h
    rw [insertAll_append_singleton]
    refine pairwise_insertAscending (ih h.1) fun ha => ?_
    rw [mem_map_insertAll] at ha
    rcases ha with ha | ha
    · exact h.2.2 _ ha _ (List.mem_singleton_self _) rfl
    · exact List.not_mem_nil ha

end

end Registrar
