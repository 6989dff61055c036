import Registrar.Catalog.Import
import Registrar.Proofs.Outcome
import Registrar.Proofs.Records.Writes

/-!
# What becomes of a transcript

A transcript is applied in place, in stages.  `Transcript.Lists` says which entries the rows of a
text are (`read_eq_ok_iff`), `Enrolls` which enrollment an entry asks for, and
`importTranscript_eq` what is left behind by a text whose rows are read.

`importTranscript_outcome` puts the stages in order: a row that cannot be read is reported first,
wherever it stands, then the first status without a meaning, then a student or course that is
unknown, and only a transcript without any of these changes anything.
-/

namespace Registrar

/-! ### Rows -/

namespace Csv

/-- A row has an entry under a header. -/
def Row.Has {α : Type} (read : NamedRow → Option α) (header : List String) (row : Row) (a : α) :
    Prop :=
  ∃ named, nameFields header row = .ok named ∧ read named = some a

/-- Rows are read exactly if each of them is. -/
theorem readRows_eq_ok_iff {α : Type} {read : NamedRow → Option α} {header : List String}
    {rows : List Row} {entries : List α} :
    readRows read header rows = .ok entries ↔ List.Forall₂ (Row.Has read header) rows entries := by
  induction rows generalizing entries with
  | nil =>
    rw [readRows, Except.ok.injEq, List.forall₂_nil_left_iff]
    exact eq_comm
  | cons row rest ih =>
    rw [readRows, bind_eq_ok_iff, List.forall₂_cons_left_iff]
    constructor
    · rintro ⟨named, hnamed, h⟩
      cases ha : read named with
      | none => simp [ha] at h
      | some a =>
        simp only [ha, bind_eq_ok_iff, pure_eq_ok_iff] at h
        obtain ⟨others, hothers, rfl⟩ := h
        exact ⟨a, others, ⟨named, hnamed, ha⟩, ih.mp hothers, rfl⟩
    · rintro ⟨a, others, ⟨named, hnamed, ha⟩, hothers, rfl⟩
      refine ⟨named, hnamed, ?_⟩
      simp only [ha, bind_eq_ok_iff, pure_eq_ok_iff]
      exact ⟨others, ih.mpr hothers, rfl⟩

end Csv

/-- The entries are those of the rows below the header, one a row and in order. -/
def Transcript.Lists (bs : Text.Bytes) (entries : List TranscriptEntry) : Prop :=
  match Csv.rows bs with
  | [] => entries = []
  | header :: data => ∃ names, header.texts = .ok names ∧
      List.Forall₂ (Csv.Row.Has Transcript.entry? names) data entries

theorem Transcript.read_eq_ok_iff {bs : Text.Bytes} {entries : List TranscriptEntry} :
    Transcript.read bs = .ok entries ↔ Transcript.Lists bs entries := by
  rw [Transcript.read, Csv.readTable, Transcript.Lists]
  cases Csv.rows bs with
  | nil => simp [eq_comm]
  | cons header data => simp only [bind_eq_ok_iff, Csv.readRows_eq_ok_iff]

theorem Transcript.Lists.length_eq {bs : Text.Bytes} {entries : List TranscriptEntry}
    (h : Transcript.Lists bs entries) : entries.length = (Csv.rows bs).tail.length := by
  unfold Transcript.Lists at h
  cases hrows : Csv.rows bs with
  | nil => simp_all
  | cons header data =>
    rw [hrows] at h
    obtain ⟨names, -, hentries⟩ := h
    exact hentries.length_eq.symm

/-! ### Stages -/

namespace Holdings

/-- An enrollment is the one that an entry asks for. -/
def Enrolls (entry : TranscriptEntry) (e : Enrollment) : Prop :=
  ∃ status, EnrollmentStatus.read? entry.status = some status ∧
    e = ⟨entry.student, entry.course, entry.semester, status⟩

theorem enrollmentOf_eq_ok_iff {entry : TranscriptEntry} {e : Enrollment} :
    enrollmentOf entry = .ok e ↔ Enrolls entry e := by
  unfold enrollmentOf Enrolls
  cases EnrollmentStatus.read? entry.status <;> simp [eq_comm]

/-- An entry whose status has a meaning asks for an enrollment. -/
theorem exists_enrollmentOf {entry : TranscriptEntry}
    (h : (EnrollmentStatus.read? entry.status).isSome = true) :
    ∃ e, enrollmentOf entry = .ok e := by
  obtain ⟨status, hstatus⟩ := Option.isSome_iff_exists.mp h
  exact ⟨_, enrollmentOf_eq_ok_iff.mpr ⟨status, hstatus, rfl⟩⟩

/-- Entries whose statuses have a meaning ask for a batch of enrollments. -/
theorem exists_mapM_enrollmentOf {entries : List TranscriptEntry}
    (h : ∀ e ∈ entries, (EnrollmentStatus.read? e.status).isSome = true) :
    ∃ batch, entries.mapM enrollmentOf = .ok batch ∧ List.Forall₂ Enrolls entries batch := by
  induction entries with
  | nil => exact ⟨[], rfl, .nil⟩
  | cons e rest ih =>
    obtain ⟨he, hrest⟩ := List.forall_mem_cons.mp h
    obtain ⟨first, hfirst⟩ := exists_enrollmentOf he
    obtain ⟨others, hothers, henrolls⟩ := ih hrest
    refine ⟨first :: others, ?_, .cons (enrollmentOf_eq_ok_iff.mp hfirst) henrolls⟩
    rw [List.mapM_cons, hfirst, hothers]
    rfl

/-- A batch is known to the records if the students and courses of its entries are. -/
theorem all_knows_iff {r : Records} {entries : List TranscriptEntry} {batch : List Enrollment}
    (h : List.Forall₂ Enrolls entries batch) :
    batch.all r.knows = true ↔
      ∀ e ∈ entries, e.student ∈ r.studentIds ∧ e.course ∈ r.courseIds := by
  induction h with
  | nil => simp
  | cons he _ ih =>
    obtain ⟨status, -, rfl⟩ := he
    rw [List.all_cons, Bool.and_eq_true, ih, Records.knows_iff, List.forall_mem_cons]

/-- What is left behind by a transcript whose rows are read. -/
theorem importTranscript_eq {bs : Text.Bytes} {entries : List TranscriptEntry}
    (h : Transcript.read bs = .ok entries) (holdings : Holdings) :
    importTranscript bs holdings =
      match entries.mapM enrollmentOf with
      | .error e => .error e holdings
      | .ok batch =>
        match Records.settleBatch batch holdings.records with
        | .ok _ records => .ok batch.length { holdings with records }
        | .error refusal records => .error (.refused refusal) { holdings with records } := by
  simp only [importTranscript, h, Except.mapError, ofExcept, bind, EStateM.bind, pure,
    EStateM.pure]
  cases entries.mapM enrollmentOf with
  | error e => rfl
  | ok batch =>
    simp only [onRecords, EStateM.pure]
    cases Records.settleBatch batch holdings.records <;> rfl

/-- A row that cannot be read ends the import before any entry is looked at. -/
theorem importTranscript_of_fault {bs : Text.Bytes} {fault : Csv.Fault}
    (h : Transcript.read bs = .error fault) (holdings : Holdings) :
    importTranscript bs holdings = .error (.csv fault) holdings := by
  simp only [importTranscript, h, Except.mapError, ofExcept, bind, EStateM.bind]
  rfl

/-- The first status without a meaning ends the import. -/
theorem importTranscript_of_unknownStatus {bs : Text.Bytes} {before after : List TranscriptEntry}
    {e : TranscriptEntry} (h : Transcript.read bs = .ok (before ++ e :: after))
    (hbefore : ∀ b ∈ before, (EnrollmentStatus.read? b.status).isSome = true)
    (hstatus : EnrollmentStatus.read? e.status = none) (holdings : Holdings) :
    importTranscript bs holdings = .error (.unknownStatus e.line e.status) holdings := by
  have herror : enrollmentOf e = .error (.unknownStatus e.line e.status) := by
    unfold enrollmentOf
    rw [hstatus]
  have hfirst : (before ++ e :: after).mapM enrollmentOf = .error _ :=
    mapM_eq_error (fun b hb => exists_enrollmentOf (hbefore b hb)) herror
  rw [importTranscript_eq h, hfirst]

/-- Where every status has a meaning, the batch is settled if it is known to the records, and
refused otherwise. -/
theorem importTranscript_of_batch {bs : Text.Bytes} {entries : List TranscriptEntry}
    {batch : List Enrollment} (h : Transcript.read bs = .ok entries)
    (hbatch : entries.mapM enrollmentOf = .ok batch) (holdings : Holdings) :
    (batch.all holdings.records.knows = true ∧
      importTranscript bs holdings = .ok batch.length { holdings with
        records := { holdings.records with
          enrollments := Records.settled batch holdings.records.enrollments } }) ∨
    (batch.all holdings.records.knows = false ∧
      importTranscript bs holdings = .error (.refused .notFound) holdings) := by
  rw [importTranscript_eq h, hbatch]
  rcases Records.settleBatch_eq batch holdings.records with
    ⟨hall, added, hsettle, -⟩ | ⟨hall, hsettle⟩
  · exact Or.inl ⟨hall, by simp only [hsettle]⟩
  · exact Or.inr ⟨hall, by simp only [hsettle]⟩

/-- A transcript is applied as a whole or leaves the holdings as they were. -/
theorem importTranscript_cases (bs : Text.Bytes) (h : Holdings) :
    (∃ entries batch, Transcript.read bs = .ok entries ∧ entries.mapM enrollmentOf = .ok batch ∧
      batch.all h.records.knows = true ∧
      importTranscript bs h = .ok batch.length { h with
        records := { h.records with
          enrollments := Records.settled batch h.records.enrollments } }) ∨
    ∃ e, importTranscript bs h = .error e h := by
  cases hread : Transcript.read bs with
  | error fault => exact Or.inr ⟨_, importTranscript_of_fault hread h⟩
  | ok entries =>
    cases hbatch : entries.mapM enrollmentOf with
    | error cause =>
      refine Or.inr ⟨cause, ?_⟩
      rw [importTranscript_eq hread, hbatch]
    | ok batch =>
      rcases importTranscript_of_batch hread hbatch h with ⟨hall, hdone⟩ | ⟨-, herror⟩
      · exact Or.inl ⟨entries, batch, rfl, hbatch, hall, hdone⟩
      · exact Or.inr ⟨_, herror⟩

/-- The outcome of a transcript.  A row that cannot be read comes first, wherever it stands; then
the first status without a meaning; then a student or a course that is unknown.  A transcript
without any of these is applied in order, and any other changes nothing. -/
theorem importTranscript_outcome (h : Holdings) (bs : Text.Bytes) :
    ((¬ ∃ entries, Transcript.Lists bs entries) →
      ∃ fault, importTranscript bs h = .error (.csv fault) h) ∧
    (∀ before e after, Transcript.Lists bs (before ++ e :: after) →
      (∀ b ∈ before, (EnrollmentStatus.read? b.status).isSome = true) →
      EnrollmentStatus.read? e.status = none →
      importTranscript bs h = .error (.unknownStatus e.line e.status) h) ∧
    (∀ entries, Transcript.Lists bs entries →
      (∀ e ∈ entries, (EnrollmentStatus.read? e.status).isSome = true) →
      (∃ e ∈ entries, e.student ∉ h.records.studentIds ∨ e.course ∉ h.records.courseIds) →
      importTranscript bs h = .error (.refused .notFound) h) ∧
    (∀ entries, Transcript.Lists bs entries →
      (∀ e ∈ entries, (EnrollmentStatus.read? e.status).isSome = true) →
      (∀ e ∈ entries, e.student ∈ h.records.studentIds ∧ e.course ∈ h.records.courseIds) →
      ∃ batch added records, List.Forall₂ Enrolls entries batch ∧
        h.records.applyEnrollments batch = .ok (added, records) ∧
        importTranscript bs h = .ok (Csv.rows bs).tail.length { h with records }) ∧
    ∀ e h', importTranscript bs h = .error e h' → h' = h := by
  -- In the order of the stages: reading, statuses, references, and then success.
  refine ⟨?_, ?_, ?_, ?_, ?_⟩
  · intro hnone
    cases hread : Transcript.read bs with
    | error fault => exact ⟨fault, importTranscript_of_fault hread h⟩
    | ok entries => exact absurd ⟨entries, Transcript.read_eq_ok_iff.mp hread⟩ hnone
  · intro before e after hlists hbefore hstatus
    exact importTranscript_of_unknownStatus (Transcript.read_eq_ok_iff.mpr hlists) hbefore hstatus h
  · rintro entries hlists hstatuses ⟨e, he, hunknown⟩
    obtain ⟨batch, hbatch, henrolls⟩ := exists_mapM_enrollmentOf hstatuses
    rcases importTranscript_of_batch (Transcript.read_eq_ok_iff.mpr hlists) hbatch h with
      ⟨hall, -⟩ | ⟨-, herror⟩
    · obtain ⟨hstudent, hcourse⟩ := (all_knows_iff henrolls).mp hall e he
      exact absurd hunknown (not_or.mpr ⟨not_not_intro hstudent, not_not_intro hcourse⟩)
    · exact herror
  · intro entries hlists hstatuses hknown
    obtain ⟨batch, hbatch, henrolls⟩ := exists_mapM_enrollmentOf hstatuses
    obtain ⟨added, happlied⟩ := Records.exists_applyEnrollments_eq_ok
      ((all_knows_iff henrolls).mpr hknown)
    rcases importTranscript_of_batch (Transcript.read_eq_ok_iff.mpr hlists) hbatch h with
      ⟨-, hdone⟩ | ⟨hall, -⟩
    · rw [← hlists.length_eq, henrolls.length_eq]
      exact ⟨batch, added, _, henrolls, happlied, hdone⟩
    · exact absurd ((all_knows_iff henrolls).mpr hknown) (Bool.eq_false_iff.mp hall)
  · intro e h' herror
    rcases importTranscript_cases bs h with ⟨_, _, -, -, -, hdone⟩ | ⟨_, hsame⟩
    · rw [hdone] at herror
      exact absurd herror (by simp)
    · rw [hsame] at herror
      exact (EStateM.Result.error.inj herror).2.symm

end Holdings

end Registrar
