import Registrar.Proofs.Distinct
import Registrar.Proofs.Records.References

/-!
# What a batch of enrollments comes to

A batch is settled enrollment by enrollment in a list that grows meanwhile, so that later
enrollments of the batch find those that earlier ones have added.  `settled_eq` says what this
comes to where no two enrollments on record share a key: every enrollment that was there has the
status of the last one of the batch with its key, and behind them stands one enrollment for each
key that is new (`newKeyed`), which has that status as well.

No run of writes makes two enrollments share a key (`nodup_enrollmentKeys_run`), because settling
touches one enrollment a key only.  So `applied_batch_is_settled_by_last_rows` holds of whatever
records there may be.
-/

namespace Registrar

/-! ### The last enrollment of a key -/

namespace Enrollment

/-- The last enrollment of a batch that has the key of a given one. -/
def last? (batch : List Enrollment) (e : Enrollment) : Option Enrollment :=
  batch.reverse.find? fun other => other.sameKey e

/-- The enrollment with the status that the last one of a batch with its key has, if there is
one. -/
def settledBy (batch : List Enrollment) (e : Enrollment) : Enrollment :=
  match last? batch e with
  | some last => { e with status := last.status }
  | none => e

/-- An enrollment with the status of a later one, if that has the same key. -/
def update (later e : Enrollment) : Enrollment :=
  if later.key = e.key then { e with status := later.status } else e

@[simp] theorem key_settledBy (batch : List Enrollment) (e : Enrollment) :
    (e.settledBy batch).key = e.key := by
  unfold settledBy
  split <;> rfl

theorem map_key_settledBy (batch known : List Enrollment) :
    (known.map (settledBy batch)).map key = known.map key := by
  rw [List.map_map]
  exact List.map_congr_left fun e _ => key_settledBy batch e

theorem last?_append_singleton (front : List Enrollment) (last e : Enrollment) :
    last? (front ++ [last]) e = if last.key = e.key then some last else last? front e := by
  rw [last?, List.reverse_append, List.reverse_singleton, List.singleton_append, List.find?_cons]
  by_cases h : last.key = e.key
  · rw [if_pos h, sameKey_iff.mpr h]
  · rw [if_neg h, Bool.eq_false_iff.mpr (mt sameKey_iff.mp h)]
    rfl

theorem last?_eq_none_iff {batch : List Enrollment} {e : Enrollment} :
    last? batch e = none ↔ e.key ∉ batch.map key := by
  rw [last?, List.find?_eq_none, List.mem_map]
  constructor
  · rintro h ⟨other, hother, hkey⟩
    exact h other (List.mem_reverse.mpr hother) (sameKey_iff.mpr hkey)
  · intro h other hother hkey
    exact h ⟨other, List.mem_reverse.mp hother, sameKey_iff.mp hkey⟩

theorem last?_congr {batch : List Enrollment} {e e' : Enrollment} (h : e.key = e'.key) :
    last? batch e = last? batch e' := by
  have hsame : ∀ other : Enrollment, other.sameKey e = other.sameKey e' := by
    intro other
    rw [Bool.eq_iff_iff, sameKey_iff, sameKey_iff, h]
  rw [last?, last?, funext hsame]

theorem of_last? {batch : List Enrollment} {e last : Enrollment}
    (h : last? batch e = some last) : last ∈ batch ∧ last.key = e.key := by
  have hkey := List.find?_some h
  exact ⟨List.mem_reverse.mp (List.mem_of_find?_eq_some h), sameKey_iff.mp hkey⟩

/-- Where no key comes twice in a batch, the last enrollment of a key is the one that has it. -/
theorem last?_eq_some_iff {batch : List Enrollment} (hnodup : (batch.map key).Nodup)
    {e last : Enrollment} : last? batch e = some last ↔ last ∈ batch ∧ last.key = e.key := by
  refine ⟨of_last?, fun ⟨hmem, hkey⟩ => ?_⟩
  cases hlast : last? batch e with
  | none => exact absurd (hkey ▸ List.mem_map_of_mem hmem) (last?_eq_none_iff.mp hlast)
  | some found =>
    obtain ⟨hfound, hfoundKey⟩ := of_last? hlast
    rw [List.inj_on_of_nodup_map hnodup hfound hmem (hfoundKey.trans hkey.symm)]

theorem settledBy_of_not_mem {batch : List Enrollment} {e : Enrollment}
    (h : e.key ∉ batch.map key) : e.settledBy batch = e := by
  rw [settledBy, last?_eq_none_iff.mpr h]

/-- With one more enrollment at its end, a batch settles what that one updates afterwards. -/
theorem settledBy_append_singleton (front : List Enrollment) (last e : Enrollment) :
    e.settledBy (front ++ [last]) = last.update (e.settledBy front) := by
  rw [settledBy, last?_append_singleton, update, key_settledBy]
  by_cases h : last.key = e.key
  · rw [if_pos h, if_pos h, settledBy]
    cases last? front e <;> rfl
  · rw [if_neg h, if_neg h]
    rfl

theorem map_settledBy_append_singleton (front : List Enrollment) (last : Enrollment)
    (known : List Enrollment) :
    known.map (settledBy (front ++ [last])) = (known.map (settledBy front)).map last.update := by
  rw [List.map_map]
  exact List.map_congr_left fun e _ => settledBy_append_singleton front last e

/-- What a batch has settled it leaves as it is when it comes again. -/
theorem settledBy_settledBy (batch : List Enrollment) (e : Enrollment) :
    (e.settledBy batch).settledBy batch = e.settledBy batch := by
  rw [settledBy, last?_congr (key_settledBy batch e), settledBy]
  cases last? batch e <;> rfl

/-- Nothing with another key is updated. -/
theorem map_update_of_not_mem {later : Enrollment} {known : List Enrollment}
    (h : later.key ∉ known.map key) : known.map later.update = known := by
  have hsame : ∀ e ∈ known, later.update e = e := by
    intro e he
    have hne : later.key ≠ e.key := fun heq => h (heq ▸ List.mem_map_of_mem he)
    exact if_neg hne
  rw [List.map_congr_left hsame, List.map_id']

end Enrollment

namespace Records

open Enrollment (settledBy)

variable {r r' : Records} {w : Write} {batch known : List Enrollment}

/-! ### No key twice -/

theorem nodup_keys_settle {e : Enrollment} (h : (known.map Enrollment.key).Nodup) :
    ((settle e known).map Enrollment.key).Nodup := by
  rw [keys_settle]
  split_ifs with he
  · exact h
  · exact nodup_append_iff.mpr ⟨h, List.nodup_singleton _, fun key hkey =>
      List.mem_singleton.mp hkey ▸ he⟩

theorem nodup_keys_settled (batch : List Enrollment) (h : (known.map Enrollment.key).Nodup) :
    ((settled batch known).map Enrollment.key).Nodup := by
  induction batch generalizing known with
  | nil => exact h
  | cons e rest ih => exact ih (nodup_keys_settle h)

theorem Step.nodup_enrollmentKeys (hstep : Step r w r') (h : r.enrollmentKeys.Nodup) :
    r'.enrollmentKeys.Nodup := by
  cases hstep with
  | recordEnrollment _ _ hkey => exact nodup_map_append_singleton_iff.mpr ⟨h, hkey⟩
  | @applyEnrollments batch => exact nodup_keys_settled batch h
  | insertCourse | insertMajor | insertRequirement | insertStudent | declareMajor => exact h

/-- In all reachable records no two enrollments share a key. -/
theorem nodup_enrollmentKeys_run (ws : List Write) : (empty.run ws).enrollmentKeys.Nodup :=
  run_induction (r := empty) (P := fun r => r.enrollmentKeys.Nodup) List.nodup_nil
    (fun _ _ _ h hstep => hstep.nodup_enrollmentKeys h) ws

/-! ### New keys -/

/-- The enrollments of a batch whose keys are not among those on record, of each key the first. -/
def newKeyed (batch known : List Enrollment) : List Enrollment :=
  distinctAfter Enrollment.key (known.map Enrollment.key) batch

theorem mem_keys_newKeyed {key : StudentId × CourseId × String} :
    key ∈ (newKeyed batch known).map Enrollment.key ↔
      key ∈ batch.map Enrollment.key ∧ key ∉ known.map Enrollment.key := by
  rw [newKeyed, map_distinctAfter, mem_distinctAfter]

/-- A further enrollment counts if its key is neither on record nor among those before it. -/
theorem newKeyed_append_singleton (front known : List Enrollment) (e : Enrollment) :
    newKeyed (front ++ [e]) known =
      if e.key ∈ known.map Enrollment.key ∨ e.key ∈ front.map Enrollment.key
      then newKeyed front known else newKeyed front known ++ [e] :=
  distinctAfter_append_singleton Enrollment.key _ front e

/-! ### The outcome of a batch -/

/-- Settling an enrollment updates the one on record that has its key, or adds it. -/
theorem settle_eq {e : Enrollment} (h : (known.map Enrollment.key).Nodup) :
    settle e known =
      if e.key ∈ known.map Enrollment.key then known.map e.update else known ++ [e] := by
  induction known with
  | nil => rfl
  | cons first rest ih =>
    rw [List.map_cons, List.nodup_cons] at h
    by_cases hfirst : first.sameKey e = true
    · have hkey : first.key = e.key := Enrollment.sameKey_iff.mp hfirst
      -- No other enrollment has the key, so that updating the first one is all there is to do.
      have hrest : rest.map e.update = rest := Enrollment.map_update_of_not_mem (hkey ▸ h.1)
      have hupdated : e.update first = { first with status := e.status } := if_pos hkey.symm
      have hmem : e.key ∈ (first :: rest).map Enrollment.key :=
        List.mem_map.mpr ⟨first, List.mem_cons_self, hkey⟩
      rw [settle, if_pos hfirst, if_pos hmem, List.map_cons, hrest, hupdated]
    · have hkey : e.key ≠ first.key := fun heq => hfirst (Enrollment.sameKey_iff.mpr heq.symm)
      have hsame : e.update first = first := if_neg hkey
      have hmem : e.key ∈ (first :: rest).map Enrollment.key ↔
          e.key ∈ rest.map Enrollment.key := by
        rw [List.map_cons, List.mem_cons, or_iff_right hkey]
      rw [settle, if_neg hfirst, ih h.2, if_congr hmem rfl rfl, List.map_cons, hsame]
      split_ifs <;> rfl

/-- The enrollments on record are settled by the batch, and so is one for each new key, which
stand behind them in the order in which their keys come first. -/
theorem settled_eq (batch : List Enrollment) (h : (known.map Enrollment.key).Nodup) :
    settled batch known =
      known.map (settledBy batch) ++ (newKeyed batch known).map (settledBy batch) := by
  -- By induction from the end: the last row settles what the others have left.
  induction batch using List.reverseRecOn with
  | nil =>
    have hsame : ∀ e ∈ known, e.settledBy [] = e := fun e _ => rfl
    rw [List.map_congr_left hsame, List.map_id']
    exact (List.append_nil known).symm
  | append_singleton front e ih =>
    have hstep : settled (front ++ [e]) known = settle e (settled front known) := by
      simp only [settled, List.foldl_append, List.foldl_cons, List.foldl_nil]
    have hmem : e.key ∈ (settled front known).map Enrollment.key ↔
        e.key ∈ known.map Enrollment.key ∨ e.key ∈ front.map Enrollment.key :=
      mem_keys_settled
    rw [hstep, settle_eq (nodup_keys_settled front h), if_congr hmem rfl rfl,
      newKeyed_append_singleton, ih, Enrollment.map_settledBy_append_singleton]
    by_cases hold : e.key ∈ known.map Enrollment.key ∨ e.key ∈ front.map Enrollment.key
    · rw [if_pos hold, if_pos hold, Enrollment.map_settledBy_append_singleton, List.map_append]
    · -- The key is that of no enrollment so far, so that no status changes.
      obtain ⟨hknown, hfront⟩ := not_or.mp hold
      have hnew : e.key ∉ (newKeyed front known).map Enrollment.key :=
        fun hkey => hfront (mem_keys_newKeyed.mp hkey).1
      have hlast : e.settledBy (front ++ [e]) = e := by
        rw [Enrollment.settledBy_append_singleton, Enrollment.settledBy_of_not_mem hfront]
        exact if_pos rfl
      rw [if_neg hold, if_neg hold, List.map_append, List.map_singleton, hlast,
        Enrollment.map_settledBy_append_singleton,
        Enrollment.map_update_of_not_mem (by rwa [Enrollment.map_key_settledBy]),
        Enrollment.map_update_of_not_mem (by rwa [Enrollment.map_key_settledBy]),
        List.append_assoc]

theorem length_settled (batch : List Enrollment) (h : (known.map Enrollment.key).Nodup) :
    (settled batch known).length = known.length + (newKeyed batch known).length := by
  rw [settled_eq batch h, List.length_append, List.length_map, List.length_map]

/-! ### Applying a batch -/

/-- The student and the course of every enrollment of the batch are on record. -/
def KnowsAll (r : Records) (batch : List Enrollment) : Prop :=
  ∀ e ∈ batch, e.student ∈ r.studentIds ∧ e.course ∈ r.courseIds

theorem all_knows_eq_true_iff : batch.all r.knows = true ↔ r.KnowsAll batch := by
  simp only [List.all_eq_true, knows_iff, KnowsAll]

/-- A batch of which all is known is applied, and the answer counts the new keys. -/
theorem settleBatch_of_knowsAll (hknown : r.KnowsAll batch) (hnodup : r.enrollmentKeys.Nodup) :
    settleBatch batch r = .ok (newKeyed batch r.enrollments).length
      { r with enrollments := settled batch r.enrollments } := by
  rcases settleBatch_eq batch r with ⟨-, added, hsettle, hlength⟩ | ⟨hnone, -⟩
  · have hadded : added = (newKeyed batch r.enrollments).length := by
      rw [length_settled batch hnodup] at hlength
      omega
    rw [hsettle, hadded]
  · exact absurd (all_knows_eq_true_iff.mpr hknown) (Bool.eq_false_iff.mp hnone)

/-- A batch with something unknown is refused, and nothing is changed. -/
theorem settleBatch_of_unknown
    (h : ∃ e ∈ batch, e.student ∉ r.studentIds ∨ e.course ∉ r.courseIds) :
    settleBatch batch r = .error .notFound r := by
  rcases settleBatch_eq batch r with ⟨hall, -⟩ | ⟨-, hsettle⟩
  · obtain ⟨e, he, hunknown⟩ := h
    obtain ⟨hstudent, hcourse⟩ := all_knows_eq_true_iff.mp hall e he
    exact absurd hunknown (not_or.mpr ⟨not_not_intro hstudent, not_not_intro hcourse⟩)
  · exact hsettle

theorem applyEnrollments_eq_ok_iff (hnodup : r.enrollmentKeys.Nodup) {added : Nat} :
    r.applyEnrollments batch = .ok (added, r') ↔ r.KnowsAll batch ∧
      added = (newKeyed batch r.enrollments).length ∧
      r' = { r with enrollments := settled batch r.enrollments } := by
  by_cases hknown : r.KnowsAll batch
  · rw [applyEnrollments, settleBatch_of_knowsAll hknown hnodup]
    simp only [Except.ok.injEq, Prod.mk.injEq, hknown, true_and]
    exact and_congr eq_comm eq_comm
  · have hunknown : ∃ e ∈ batch, e.student ∉ r.studentIds ∨ e.course ∉ r.courseIds := by
      rw [KnowsAll] at hknown
      push Not at hknown
      obtain ⟨e, he, hmissing⟩ := hknown
      exact ⟨e, he, or_iff_not_imp_left.mpr fun hstudent => hmissing (not_not.mp hstudent)⟩
    rw [applyEnrollments, settleBatch_of_unknown hunknown]
    simp [hknown]

/-- **The last row of a key settles it.**  After every run of writes, accepted or not, no two
enrollments share a key.  A batch with an unknown student or course is refused and changes
nothing.  Any other batch leaves the enrollments in their order, each with the status that the
last row of its key has, and adds one for every new key, in the order in which the new keys come
first, with the status of the last row as well; it counts the new keys and changes nothing
else. -/
theorem applied_batch_is_settled_by_last_rows (ws : List Write) :
    let r := empty.run ws
    r.enrollmentKeys.Nodup ∧
    ∀ batch : List Enrollment,
      ((∃ e ∈ batch, e.student ∉ r.studentIds ∨ e.course ∉ r.courseIds) →
        r.applyEnrollments batch = .error .notFound ∧ r.after (.applyEnrollments batch) = r) ∧
      ((∀ e ∈ batch, e.student ∈ r.studentIds ∧ e.course ∈ r.courseIds) →
        let new := newKeyed batch r.enrollments
        let r' := { r with
          enrollments := r.enrollments.map (settledBy batch) ++ new.map (settledBy batch) }
        r.applyEnrollments batch = .ok (new.length, r') ∧
          r.after (.applyEnrollments batch) = r') := by
  intro r
  have hnodup : r.enrollmentKeys.Nodup := nodup_enrollmentKeys_run ws
  refine ⟨hnodup, fun batch => ⟨fun hunknown => ?_, fun hknown => ?_⟩⟩
  · -- One unknown row is enough for the batch to be refused.
    have hrefused := settleBatch_of_unknown hunknown
    rw [applyEnrollments, after, hrefused]
    exact ⟨rfl, rfl⟩
  · have hsettled := settled_eq batch hnodup
    intro new r'
    have hdone : settleBatch batch r = .ok new.length r' := by
      rw [settleBatch_of_knowsAll hknown hnodup, hsettled]
    rw [applyEnrollments, after, hdone]
    exact ⟨rfl, rfl⟩

/-- A key that comes twice in a batch and once on record is settled by its last row. -/
example :
    let e : EnrollmentStatus → Enrollment := fun status => ⟨7, 1, "Fall 2024", status⟩
    let other : EnrollmentStatus → Enrollment := fun status => ⟨7, 1, "Spring 2025", status⟩
    settled [other .inProgress, e .dropped, other .completed, e .completed] [e .inProgress] =
      [e .completed, other .completed] := by
  decide

end Records

end Registrar
