import Registrar.Proofs.Advising.Desk
import Registrar.Proofs.Catalog.Transcript
import Registrar.Proofs.Records.Run

/-!
# Runs of writes to the holdings

Holdings are written to from three sides: the records by themselves, transcripts, and desks that
maintain prerequisites.  A `Holdings.Write` is one such write with what it is given;
`Holdings.after` are the holdings that it leaves behind, refused or not, and `Holdings.run` those
that writes leave behind one after another.

`Step` says once what writes can do to the holdings, and `after_induction` and `run_induction`
reduce whatever is kept by all runs to its cases.
-/

namespace Registrar.Holdings

open Prerequisite (Tree Spec FlatSpec)

/-- A write to the holdings.  Prerequisites are set at a desk with a limit on their depth. -/
inductive Write where
  | records (w : Records.Write)
  | importTranscript (bs : Text.Bytes)
  | setPrerequisites (limit : Nat) (course : CourseId) (spec : Spec)
  | setFlatPrerequisites (limit : Nat) (course : CourseId) (spec : FlatSpec)
  | removePrerequisites (limit : Nat) (course : CourseId)

/-- The holdings that a write leaves behind. -/
def after (h : Holdings) : Write → Holdings
  | .records w => { h with records := h.records.after w }
  | .importTranscript bs => leftBy (importTranscript bs h)
  | .setPrerequisites limit course spec =>
    orKept h (((Desk.ofHoldings h limit).setPrerequisites course spec).map fun answer =>
      answer.2.holdings)
  | .setFlatPrerequisites limit course spec =>
    orKept h (((Desk.ofHoldings h limit).setFlatPrerequisites course spec).map fun answer =>
      answer.2.holdings)
  | .removePrerequisites limit course =>
    orKept h (((Desk.ofHoldings h limit).removePrerequisites course).map fun answer =>
      answer.2.holdings)

/-- The holdings that writes leave behind one after another. -/
def run (h : Holdings) (ws : List Write) : Holdings :=
  ws.foldl after h

variable {h h' : Holdings} {w : Write}

/-! ### Steps -/

/-- The holdings become others by a write that is accepted. -/
inductive Step (h : Holdings) : Write → Holdings → Prop
  | records {w : Records.Write} {records : Records} (hstep : Records.Step h.records w records) :
    Step h (.records w) { h with records }
  | importTranscript {bs : Text.Bytes} {entries : List TranscriptEntry} {batch : List Enrollment}
    {records : Records} (hread : Transcript.read bs = .ok entries)
    (hbatch : List.Forall₂ Enrolls entries batch)
    (hstep : Records.Step h.records (.applyEnrollments batch) records) :
    Step h (.importTranscript bs) { h with records }
  | setPrerequisites {limit : Nat} {course : CourseId} {spec : Spec} {t : Tree}
    (ht : Tree.ofSpec spec limit = .ok t) (hcourse : course ∈ h.records.courseIds)
    (hleaves : ∀ leaf ∈ t.root.leaves, leaf ∈ h.records.courseIds) :
    Step h (.setPrerequisites limit course spec)
      { h with prerequisites := (h.prerequisites.replace course t).2 }
  | setFlatPrerequisites {limit : Nat} {course : CourseId} {spec : FlatSpec} {t : Tree}
    (ht : Tree.ofFlatSpec spec limit = .ok t) (hcourse : course ∈ h.records.courseIds)
    (hleaves : ∀ leaf ∈ t.root.leaves, leaf ∈ h.records.courseIds) :
    Step h (.setFlatPrerequisites limit course spec)
      { h with prerequisites := (h.prerequisites.replace course t).2 }
  | removePrerequisites {limit : Nat} {course : CourseId}
    (hcourse : course ∈ h.records.courseIds) :
    Step h (.removePrerequisites limit course)
      { h with prerequisites := (h.prerequisites.remove course).2 }

/-- A write leaves holdings behind that have what they had before, if they have it also after
every step. -/
theorem after_induction {P : Holdings → Prop} (hkept : P h) (hstep : ∀ h', Step h w h' → P h') :
    P (h.after w) := by
  -- As for records, but a transcript is one write whatever number of rows it has.
  cases w with
  | records w =>
    exact Records.after_induction (P := fun records => P { h with records }) hkept
      fun _ hrecords => hstep _ (.records hrecords)
  | importTranscript bs =>
    rcases importTranscript_cases bs h with
      ⟨entries, batch, hread, hbatch, hall, hdone⟩ | ⟨e, herror⟩
    · rw [after, hdone]
      refine hstep _ (.importTranscript hread ?_ (.applyEnrollments fun e he => ?_))
      · exact (mapM_eq_ok_iff.mp hbatch).imp fun _ _ => enrollmentOf_eq_ok_iff.mp
      · exact Records.knows_iff.mp (List.all_eq_true.mp hall e he)
    · rw [after, herror]
      exact hkept
  | setPrerequisites limit course spec =>
    rw [after]
    refine orKept_induction hkept fun h' hok => hstep h' ?_
    obtain ⟨answer, hset, rfl⟩ := map_eq_ok_iff.mp hok
    obtain ⟨t, ht, hinstall⟩ := Desk.setPrerequisites_eq_ok_iff.mp hset
    obtain ⟨hcourse, hleaves, rfl⟩ := Desk.install_eq_ok_iff.mp hinstall
    exact .setPrerequisites ht hcourse hleaves
  | setFlatPrerequisites limit course spec =>
    rw [after]
    refine orKept_induction hkept fun h' hok => hstep h' ?_
    obtain ⟨answer, hset, rfl⟩ := map_eq_ok_iff.mp hok
    obtain ⟨t, ht, hinstall⟩ := Desk.setFlatPrerequisites_eq_ok_iff.mp hset
    obtain ⟨hcourse, hleaves, rfl⟩ := Desk.install_eq_ok_iff.mp hinstall
    exact .setFlatPrerequisites ht hcourse hleaves
  | removePrerequisites limit course =>
    rw [after]
    refine orKept_induction hkept fun h' hok => hstep h' ?_
    obtain ⟨answer, hremove, rfl⟩ := map_eq_ok_iff.mp hok
    obtain ⟨hcourse, rfl⟩ := Desk.removePrerequisites_eq_ok_iff.mp hremove
    exact .removePrerequisites hcourse

/-- What holdings have before a run and keep in every write of it they have after it. -/
theorem run_induction {P : Holdings → Prop} {ws : List Write} (hstart : P h)
    (hwrite : ∀ h, P h → ∀ w ∈ ws, P (h.after w)) : P (h.run ws) := by
  induction ws generalizing h with
  | nil => exact hstart
  | cons w rest ih =>
    exact ih (hwrite h hstart w List.mem_cons_self)
      fun h hP w hw => hwrite h hP w (List.mem_cons_of_mem _ hw)

end Registrar.Holdings
