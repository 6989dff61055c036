import Registrar.Proofs.Holdings.Ascending
import Registrar.Proofs.Records.Settled

/-!
# Batches one after another

Two batches applied one after the other come to the same as one batch of both (`settled_append`),
and a batch that is applied again finds everything as it would make it (`settled_settled`).  The
order of a batch in which no key comes twice shows in the order of the enrollments it adds and in
nothing else (`settled_perm`), and lists of courses by status do not depend on that.

A transcript is a batch, so that importing it again does nothing.
`batches_compose_and_repeat` says all this of whatever records there may be.
-/

namespace Registrar

namespace Records

open Enrollment (settledBy)

variable {r r' : Records} {batch other known : List Enrollment}

/-! ### Two batches, and one batch twice -/

theorem settled_append (front back known : List Enrollment) :
    settled (front ++ back) known = settled back (settled front known) :=
  List.foldl_append

/-- Once a batch is settled, none of its keys is new. -/
theorem newKeyed_settled (batch known : List Enrollment) :
    newKeyed batch (settled batch known) = [] := by
  have hkeys : (newKeyed batch (settled batch known)).map Enrollment.key = [] := by
    refine List.eq_nil_iff_forall_not_mem.mpr fun key hkey => ?_
    obtain ⟨hbatch, hnew⟩ := mem_keys_newKeyed.mp hkey
    exact hnew (mem_keys_settled.mpr (Or.inr hbatch))
  exact List.map_eq_nil_iff.mp hkeys

/-- A batch that is settled again changes nothing, whatever statuses a key goes through
meanwhile. -/
theorem settled_settled (batch : List Enrollment) (h : (known.map Enrollment.key).Nodup) :
    settled batch (settled batch known) = settled batch known := by
  have hagain : ∀ es : List Enrollment,
      (es.map (settledBy batch)).map (settledBy batch) = es.map (settledBy batch) := by
    intro es
    rw [List.map_map]
    exact List.map_congr_left fun e _ => Enrollment.settledBy_settledBy batch e
  rw [settled_eq batch (nodup_keys_settled batch h), newKeyed_settled, List.map_nil,
    List.append_nil, settled_eq batch h, List.map_append, hagain, hagain]

/-! ### The order of a batch -/

theorem settledBy_of_perm (hperm : other.Perm batch) (hnodup : (batch.map Enrollment.key).Nodup)
    (e : Enrollment) : e.settledBy other = e.settledBy batch := by
  have hother : (other.map Enrollment.key).Nodup := (hperm.map _).nodup_iff.mpr hnodup
  have hlast : Enrollment.last? other e = Enrollment.last? batch e := by
    refine Option.ext fun last => ?_
    rw [Enrollment.last?_eq_some_iff hother, Enrollment.last?_eq_some_iff hnodup, hperm.mem_iff]
  rw [settledBy, settledBy, hlast]

theorem newKeyed_perm (hperm : other.Perm batch) (hnodup : (batch.map Enrollment.key).Nodup)
    (known : List Enrollment) : (newKeyed other known).Perm (newKeyed batch known) := by
  have hother : (other.map Enrollment.key).Nodup := (hperm.map _).nodup_iff.mpr hnodup
  rw [newKeyed, newKeyed, distinctAfter_eq_filter _ hother, distinctAfter_eq_filter _ hnodup]
  exact hperm.filter _

/-- Batches with the same enrollments in another order, no key twice, leave the same
enrollments. -/
theorem settled_perm (hperm : other.Perm batch) (hnodup : (batch.map Enrollment.key).Nodup)
    (hknown : (known.map Enrollment.key).Nodup) :
    (settled other known).Perm (settled batch known) := by
  have hsame : settledBy other = settledBy batch := funext (settledBy_of_perm hperm hnodup)
  rw [settled_eq other hknown, settled_eq batch hknown, hsame]
  exact ((newKeyed_perm hperm hnodup known).map _).append_left _

/-- The courses of a student by status do not depend on the order of the enrollments. -/
theorem coursesWithStatus_of_perm (h : r.enrollments.Perm r'.enrollments) (student : StudentId)
    (status : EnrollmentStatus) :
    r.coursesWithStatus student status = r'.coursesWithStatus student status := by
  refine ascending_congr fun id => ?_
  exact ((h.filter _).map Enrollment.course).mem_iff

/-! ### Applied batches -/

theorem KnowsAll.exists_applyEnrollments_eq_ok (hknown : r.KnowsAll batch)
    (hnodup : r.enrollmentKeys.Nodup) : ∃ added r', r.applyEnrollments batch = .ok (added, r') :=
  ⟨_, _, (applyEnrollments_eq_ok_iff hnodup).mpr ⟨hknown, rfl, rfl⟩⟩

theorem nodup_enrollmentKeys_of_applyEnrollments {added : Nat} (hnodup : r.enrollmentKeys.Nodup)
    (h : r.applyEnrollments batch = .ok (added, r')) : r'.enrollmentKeys.Nodup := by
  obtain ⟨-, -, rfl⟩ := (applyEnrollments_eq_ok_iff hnodup).mp h
  exact nodup_keys_settled batch hnodup

/-- A batch makes no student and no course known or unknown. -/
theorem KnowsAll.of_applyEnrollments {added : Nat} (hnodup : r.enrollmentKeys.Nodup)
    (h : r.applyEnrollments batch = .ok (added, r')) (hother : r.KnowsAll other) :
    r'.KnowsAll other := by
  obtain ⟨-, -, rfl⟩ := (applyEnrollments_eq_ok_iff hnodup).mp h
  exact hother

/-- A batch after another one leaves what both leave in one, and the counts add up. -/
theorem applyEnrollments_append {front back : List Enrollment} {added more : Nat}
    {r₁ r₂ : Records} (hnodup : r.enrollmentKeys.Nodup)
    (hfirst : r.applyEnrollments front = .ok (added, r₁))
    (hsecond : r₁.applyEnrollments back = .ok (more, r₂)) :
    r.applyEnrollments (front ++ back) = .ok (added + more, r₂) := by
  have hnodup₁ := nodup_enrollmentKeys_of_applyEnrollments hnodup hfirst
  obtain ⟨hfront, hadded, rfl⟩ := (applyEnrollments_eq_ok_iff hnodup).mp hfirst
  obtain ⟨hback, hmore, rfl⟩ := (applyEnrollments_eq_ok_iff hnodup₁).mp hsecond
  refine (applyEnrollments_eq_ok_iff hnodup).mpr
    ⟨List.forall_mem_append.mpr ⟨hfront, hback⟩, ?_, by rw [settled_append]⟩
  -- Each count says how many enrollments there are more than before.
  have hlength := length_settled (front ++ back) hnodup
  have hlength₁ := length_settled front hnodup
  have hlength₂ := length_settled back hnodup₁
  rw [settled_append] at hlength
  simp only at hmore hlength₂
  omega

theorem applyEnrollments_again {added : Nat} (hnodup : r.enrollmentKeys.Nodup)
    (h : r.applyEnrollments batch = .ok (added, r')) :
    r'.applyEnrollments batch = .ok (0, r') := by
  have hnodup' := nodup_enrollmentKeys_of_applyEnrollments hnodup h
  obtain ⟨hknown, -, rfl⟩ := (applyEnrollments_eq_ok_iff hnodup).mp h
  refine (applyEnrollments_eq_ok_iff hnodup').mpr ⟨hknown, ?_, ?_⟩
  · rw [newKeyed_settled, List.length_nil]
  · rw [settled_settled batch hnodup]

theorem applyEnrollments_of_perm {added : Nat} (hnodup : r.enrollmentKeys.Nodup)
    (honce : (batch.map Enrollment.key).Nodup) (hperm : other.Perm batch)
    (h : r.applyEnrollments batch = .ok (added, r')) :
    ∃ r₂, r.applyEnrollments other = .ok (added, r₂) ∧ r₂.enrollments.Perm r'.enrollments := by
  obtain ⟨hknown, rfl, rfl⟩ := (applyEnrollments_eq_ok_iff hnodup).mp h
  have hother : r.KnowsAll other := fun e he => hknown e (hperm.mem_iff.mp he)
  have hcount := (newKeyed_perm hperm honce r.enrollments).length_eq
  refine ⟨{ r with enrollments := settled other r.enrollments }, ?_, ?_⟩
  · exact (applyEnrollments_eq_ok_iff hnodup).mpr ⟨hother, hcount.symm, rfl⟩
  · exact settled_perm hperm honce hnodup

end Records

namespace Holdings

variable {h h' : Holdings} {bs : Text.Bytes} {n : Nat}

/-- A transcript that has been imported leaves everything as it is when it is imported again. -/
theorem importTranscript_again (hnodup : h.records.enrollmentKeys.Nodup)
    (himport : importTranscript bs h = .ok n h') : importTranscript bs h' = .ok n h' := by
  rcases importTranscript_cases bs h with ⟨entries, batch, hread, hbatch, hall, hdone⟩ | ⟨e, herror⟩
  · rw [hdone] at himport
    obtain ⟨rfl, rfl⟩ := EStateM.Result.ok.inj himport
    -- The rows mean the same batch again, and the store that knew it still does.
    set again : Holdings := { h with records :=
      { h.records with enrollments := Records.settled batch h.records.enrollments } } with hagain
    have hknown : batch.all again.records.knows = true := hall
    rcases importTranscript_of_batch hread hbatch again with ⟨-, hsecond⟩ | ⟨hnone, -⟩
    · have hsame : Records.settled batch again.records.enrollments =
          again.records.enrollments := Records.settled_settled batch hnodup
      rw [hsecond, hsame]
    · exact absurd hknown (Bool.eq_false_iff.mp hnone)
  · rw [herror] at himport
    exact absurd himport (by simp)

/-! ### All of it -/

/-- **Batches compose, and what has been applied is applied for good.**  On whatever records a run
of writes leaves behind, let all students and courses of two batches be known.  Then the batches
one after the other leave what both leave in one, and the counts of new keys add up.  A batch that
is applied again finds no new key and changes nothing, and neither does a transcript that is
imported again.  And a batch in which no key comes twice may come in any order: it counts as many
new keys, and every student has completed the same courses and is enrolled in the same ones. -/
theorem batches_compose_and_repeat (ws : List Records.Write) (front back : List Enrollment)
    (hfront : (Records.empty.run ws).KnowsAll front)
    (hback : (Records.empty.run ws).KnowsAll back) :
    let r := Records.empty.run ws
    ∃ added r₁, r.applyEnrollments front = .ok (added, r₁) ∧
      (∃ more r₂, r₁.applyEnrollments back = .ok (more, r₂) ∧
        r.applyEnrollments (front ++ back) = .ok (added + more, r₂)) ∧
      r₁.applyEnrollments front = .ok (0, r₁) ∧
      (∀ store bs n h', importTranscript bs ⟨r, store⟩ = .ok n h' →
        importTranscript bs h' = .ok n h') ∧
      ((front.map Enrollment.key).Nodup → ∀ other : List Enrollment, other.Perm front →
        ∃ r₂, r.applyEnrollments other = .ok (added, r₂) ∧ ∀ student,
          r₂.completedCourses student = r₁.completedCourses student ∧
          r₂.coursesInProgress student = r₁.coursesInProgress student) := by
  intro r
  have hnodup : r.enrollmentKeys.Nodup := Records.nodup_enrollmentKeys_run ws
  obtain ⟨added, r₁, hfirst⟩ := hfront.exists_applyEnrollments_eq_ok hnodup
  refine ⟨added, r₁, hfirst, ?_, Records.applyEnrollments_again hnodup hfirst, ?_, ?_⟩
  · -- The first batch changes nothing of what the second one refers to.
    have hnodup₁ := Records.nodup_enrollmentKeys_of_applyEnrollments hnodup hfirst
    have hback₁ : r₁.KnowsAll back := hback.of_applyEnrollments hnodup hfirst
    obtain ⟨more, r₂, hsecond⟩ := hback₁.exists_applyEnrollments_eq_ok hnodup₁
    exact ⟨more, r₂, hsecond, Records.applyEnrollments_append hnodup hfirst hsecond⟩
  · intro store bs n h' himport
    exact importTranscript_again hnodup himport
  · intro honce other hperm
    obtain ⟨r₂, hother, hsame⟩ := Records.applyEnrollments_of_perm hnodup honce hperm hfirst
    refine ⟨r₂, hother, fun student => ⟨?_, ?_⟩⟩
    · exact Records.coursesWithStatus_of_perm hsame student .completed
    · exact Records.coursesWithStatus_of_perm hsame student .inProgress

/-- The first batch adds one key and settles another, and of the second batch two rows settle the
key that the first one has added. -/
theorem batches_compose_and_repeat_of_retake :
    let ws : List Records.Write :=
      [.insertCourse ⟨1, "CS", "101", "", 3⟩, .insertStudent ⟨7, "Grace Hopper", []⟩,
        .recordEnrollment ⟨7, 1, "Fall 2024", .inProgress⟩]
    let front : List Enrollment :=
      [⟨7, 1, "Fall 2024", .dropped⟩, ⟨7, 1, "Spring 2025", .inProgress⟩]
    let back : List Enrollment :=
      [⟨7, 1, "Spring 2025", .dropped⟩, ⟨7, 1, "Fall 2025", .inProgress⟩,
        ⟨7, 1, "Spring 2025", .completed⟩]
    let r := Records.empty.run ws
    r.KnowsAll front ∧ r.KnowsAll back ∧ (front.map Enrollment.key).Nodup ∧
      ∃ added r₁ more r₂, r.applyEnrollments front = .ok (added, r₁) ∧
        r₁.applyEnrollments back = .ok (more, r₂) ∧
        r.applyEnrollments (front ++ back) = .ok (added + more, r₂) ∧
        r₁.applyEnrollments front = .ok (0, r₁) ∧
        (∃ r₃, r.applyEnrollments front.reverse = .ok (added, r₃) ∧
          r₃.coursesInProgress 7 = r₁.coursesInProgress 7) := by
  intro ws front back r
  have hfront : r.KnowsAll front := by
    unfold Records.KnowsAll
    decide +kernel
  have hback : r.KnowsAll back := by
    unfold Records.KnowsAll
    decide +kernel
  have honce : (front.map Enrollment.key).Nodup := by decide +kernel
  obtain ⟨added, r₁, hfirst, ⟨more, r₂, hsecond, hboth⟩, hagain, -, horder⟩ :=
    batches_compose_and_repeat ws front back hfront hback
  obtain ⟨r₃, hthird, hcourses⟩ := horder honce front.reverse (List.reverse_perm front)
  exact ⟨hfront, hback, honce, added, r₁, more, r₂, hfirst, hsecond, hboth, hagain, r₃, hthird,
    (hcourses 7).2⟩

end Holdings

end Registrar
