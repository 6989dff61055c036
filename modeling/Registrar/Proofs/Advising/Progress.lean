import Registrar.Proofs.Holdings.Ascending
import Registrar.Report

/-!
# Views of progress

A desk answers seven questions about the progress of a student, and each gathers what it needs by
itself.  For a student and a major on record all of them come down to the one audit of the major:

* `majorAudit_eq_ok_iff` and the three lemmas before it say when a major is audited and which of
  the things that are not there is named;
* `creditsCompleted_eq`, `completedRequirements_eq` and `remainingRequirements_eq` are the parts
  of that audit;
* `overallAudit_eq_ok_iff` collects the audits of the declared majors.

`progress_views_agree` puts them together for reachable holdings, in which every declared major is
on record and a requirement is the only one of its id.
-/

namespace Registrar.Desk

variable {h : Holdings} {limit : Nat} {student : StudentId} {key : MajorKey}

/-! ### The audit of a major -/

/-- The audit of a major on record for a student. -/
def auditOf (h : Holdings) (student : StudentId) (m : Major) : MajorAudit :=
  m.audit (h.records.requirementsOf m.key) (h.records.completedCourses student)

/-- For a student and a major on record the inputs of an audit are what is on record. -/
theorem majorInputs_eq (hstudent : student ∈ h.records.studentIds) {m : Major}
    (hm : h.records.major? key = some m) :
    (ofHoldings h limit).majorInputs student key =
      .ok (m, h.records.requirementsOf m.key, h.records.completedCourses student) := by
  have hkey : m.key = key := key_of_find?_key Major.key hm
  rw [majorInputs, requireStudent_eq_ok_iff.mpr hstudent, requireMajor_eq_ok_iff.mpr hm, hkey]
  rfl

theorem majorInputs_of_not_mem (hstudent : student ∉ h.records.studentIds) :
    (ofHoldings h limit).majorInputs student key = .error (.unknown (.student student)) := by
  rw [majorInputs, requireStudent_of_not_mem hstudent]
  rfl

theorem majorInputs_of_unknown_major (hstudent : student ∈ h.records.studentIds)
    (hkey : key ∉ h.records.majorKeys) :
    (ofHoldings h limit).majorInputs student key = .error (.unknown (.major key)) := by
  rw [majorInputs, requireStudent_eq_ok_iff.mpr hstudent, requireMajor_of_not_mem hkey]
  rfl

theorem majorAudit_of_not_mem (hstudent : student ∉ h.records.studentIds) :
    (ofHoldings h limit).majorAudit student key = .error (.unknown (.student student)) := by
  rw [majorAudit, majorInputs_of_not_mem hstudent]
  rfl

theorem majorAudit_of_unknown_major (hstudent : student ∈ h.records.studentIds)
    (hkey : key ∉ h.records.majorKeys) :
    (ofHoldings h limit).majorAudit student key = .error (.unknown (.major key)) := by
  rw [majorAudit, majorInputs_of_unknown_major hstudent hkey]
  rfl

/-- A major on record is audited if it has been declared. -/
theorem majorAudit_eq (hstudent : student ∈ h.records.studentIds) {m : Major}
    (hm : h.records.major? key = some m) :
    (ofHoldings h limit).majorAudit student key =
      if key ∈ (h.records.declaredMajors student).map DeclaredMajor.major
      then .ok (auditOf h student m)
      else .error (.unknown (.declaration student key)) := by
  have hdeclared : ((h.records.declaredMajors student).any fun known => known.major == key) =
      true ↔ key ∈ (h.records.declaredMajors student).map DeclaredMajor.major := by
    simp
  rw [majorAudit, majorInputs_eq hstudent hm]
  show (if (h.records.declaredMajors student).any fun known => known.major == key then _
    else _) = _
  simp only [hdeclared]
  rfl

theorem majorAudit_eq_ok_iff {a : MajorAudit} :
    (ofHoldings h limit).majorAudit student key = .ok a ↔
      student ∈ h.records.studentIds ∧
      key ∈ (h.records.declaredMajors student).map DeclaredMajor.major ∧
      ∃ m, h.records.major? key = some m ∧ a = auditOf h student m := by
  -- The student is looked up first, then the major, and then whether it is declared.
  by_cases hstudent : student ∈ h.records.studentIds
  · cases hm : h.records.major? key with
    | none =>
      have hkey : key ∉ h.records.majorKeys := (find?_key_eq_none_iff Major.key).mp hm
      simp [majorAudit_of_unknown_major hstudent hkey]
    | some m =>
      rw [majorAudit_eq hstudent hm]
      split_ifs with hdeclared
      · simp [hstudent, hdeclared, eq_comm]
      · simp [hdeclared]
  · simp [majorAudit_of_not_mem hstudent, hstudent]

/-! ### Parts of the audit -/

theorem creditsCompleted_eq (hstudent : student ∈ h.records.studentIds) {m : Major}
    (hm : h.records.major? key = some m) :
    (ofHoldings h limit).creditsCompleted student key =
      .ok (auditOf h student m).creditsCompleted := by
  rw [creditsCompleted, majorInputs_eq hstudent hm]
  rfl

theorem completedRequirements_eq (hstudent : student ∈ h.records.studentIds) {m : Major}
    (hm : h.records.major? key = some m) :
    (ofHoldings h limit).completedRequirements student key =
      .ok (auditOf h student m).completeRequirements := by
  rw [completedRequirements, majorInputs_eq hstudent hm]
  rfl

theorem remainingRequirements_eq (hstudent : student ∈ h.records.studentIds) {m : Major}
    (hm : h.records.major? key = some m) :
    (ofHoldings h limit).remainingRequirements student key =
      .ok (auditOf h student m).openRequirements := by
  rw [remainingRequirements, majorInputs_eq hstudent hm]
  rfl

/-- The audits of the requirements in the audit of a major, one after another. -/
theorem requirements_auditOf {m : Major} (hkey : m.key = key) :
    (auditOf h student m).requirements =
      (h.records.requirementsOf key).map fun q => q.audit (h.records.completedCourses student) := by
  rw [auditOf, hkey]
  rfl

theorem requirementAudit_eq (hstudent : student ∈ h.records.studentIds) {id : RequirementId}
    {q : Requirement} (hq : h.records.requirement? id = some q) :
    (ofHoldings h limit).requirementAudit student id =
      .ok (q.audit (h.records.completedCourses student)) := by
  rw [requirementAudit, requireStudent_eq_ok_iff.mpr hstudent]
  show (orUnknown _ (h.records.requirement? id) >>= _) = _
  rw [hq]
  rfl

/-! ### All declared majors -/

/-- Majors are audited one by one, as they are on record. -/
theorem auditAll_eq_ok_iff {declared : List DeclaredMajor} {audits : List MajorAudit} :
    (ofHoldings h limit).auditAll (h.records.completedCourses student) declared = .ok audits ↔
      List.Forall₂ (fun d a => ∃ m, h.records.major? d.major = some m ∧ a = auditOf h student m)
        declared audits := by
  induction declared generalizing audits with
  | nil => simp [auditAll, eq_comm]
  | cons d rest ih =>
    -- The major that is found has the key under which it was looked up.
    have hfirst : ∀ m, h.records.major? d.major = some m →
        m.audit (h.records.requirementsOf d.major) (h.records.completedCourses student) =
          auditOf h student m := by
      intro m hm
      rw [auditOf, key_of_find?_key Major.key hm]
    simp only [auditAll, requirementsOf, access_ofHoldings, holdings_ofHoldings, bind_eq_ok_iff,
      requireMajor_eq_ok_iff, Except.ok.injEq, exists_eq_left', pure_eq_ok_iff, ih,
      List.forall₂_cons_left_iff]
    constructor
    · rintro ⟨m, hm, others, hothers, rfl⟩
      exact ⟨_, others, ⟨m, hm, hfirst m hm⟩, hothers, rfl⟩
    · rintro ⟨_, others, ⟨m, hm, rfl⟩, hothers, rfl⟩
      exact ⟨m, hm, others, hothers, by rw [hfirst m hm]⟩

theorem overallAudit_eq_ok_iff (hstudent : student ∈ h.records.studentIds)
    {audits : List MajorAudit} :
    (ofHoldings h limit).overallAudit student = .ok audits ↔
      List.Forall₂ (fun d a => ∃ m, h.records.major? d.major = some m ∧ a = auditOf h student m)
        (h.records.declaredMajors student) audits := by
  have hall := @auditAll_eq_ok_iff h limit student (h.records.declaredMajors student) audits
  rw [← hall, overallAudit, requireStudent_eq_ok_iff.mpr hstudent]
  rfl

/-! ### Reachable holdings -/

/-- The entries in the audit of a major are the requirements of the major, each of which a student
is told of in the same way when it is asked for by itself. -/
theorem mem_requirements_auditOf (hrecords : h.records.Ascending)
    (hstudent : student ∈ h.records.studentIds) {m : Major} (hkey : m.key = key)
    {q : RequirementAudit} (hq : q ∈ (auditOf h student m).requirements) :
    (ofHoldings h limit).requirementAudit student q.requirementId = .ok q := by
  rw [requirements_auditOf hkey] at hq
  obtain ⟨r, hr, rfl⟩ := List.mem_map.mp hq
  exact requirementAudit_eq hstudent (hrecords.mem_requirementsOf.mp hr).1

theorem pairwise_requirements_auditOf (hrecords : h.records.Ascending) (student : StudentId)
    (m : Major) :
    (auditOf h student m).requirements.Pairwise fun a b => a.requirementId < b.requirementId := by
  rw [requirements_auditOf rfl, List.pairwise_map]
  exact hrecords.requirementsOf m.key

theorem mem_requirementIds_auditOf (hrecords : h.records.Ascending) {m : Major}
    (hkey : m.key = key) {id : RequirementId} :
    id ∈ (auditOf h student m).requirements.map RequirementAudit.requirementId ↔
      ∃ q, h.records.requirement? id = some q ∧ q.major = key := by
  have hids : (auditOf h student m).requirements.map RequirementAudit.requirementId =
      (h.records.requirementsOf key).map Requirement.id := by
    rw [requirements_auditOf hkey, List.map_map]
    rfl
  rw [hids, List.mem_map]
  constructor
  · rintro ⟨q, hq, rfl⟩
    exact ⟨q, hrecords.mem_requirementsOf.mp hq⟩
  · rintro ⟨q, hq, hmajor⟩
    have hid : q.id = id := key_of_find?_key Requirement.id hq
    exact ⟨q, hrecords.mem_requirementsOf.mpr ⟨hid ▸ hq, hmajor⟩, hid⟩

/-- The audit of a major is what the other questions about it are answered from, and it lists every
requirement of the major once, by ascending id. -/
structure Covers (h : Holdings) (desk : Desk) (student : StudentId) (key : MajorKey)
    (a : MajorAudit) : Prop where
  credits : desk.creditsCompleted student key = .ok a.creditsCompleted
  complete : desk.completedRequirements student key =
    .ok (a.requirements.filter fun q => q.status = .complete)
  remaining : desk.remainingRequirements student key =
    .ok (a.requirements.filter fun q => q.status ≠ .complete)
  requirement : ∀ q ∈ a.requirements, desk.requirementAudit student q.requirementId = .ok q
  collected : Report.collect desk student (some key) = .ok [a]
  ascending : a.requirements.Pairwise fun p q => p.requirementId < q.requirementId
  mem_iff : ∀ id, id ∈ a.requirements.map RequirementAudit.requirementId ↔
    ∃ q, h.records.requirement? id = some q ∧ q.major = key

theorem covers_of_majorAudit (hrecords : h.records.Ascending) {a : MajorAudit}
    (ha : (ofHoldings h limit).majorAudit student key = .ok a) :
    Covers h (ofHoldings h limit) student key a := by
  obtain ⟨hstudent, -, m, hm, rfl⟩ := majorAudit_eq_ok_iff.mp ha
  have hkey : m.key = key := key_of_find?_key Major.key hm
  constructor
  case credits => exact creditsCompleted_eq hstudent hm
  case complete => exact completedRequirements_eq hstudent hm
  case remaining =>
    rw [remainingRequirements_eq hstudent hm]
    simp [MajorAudit.openRequirements, RequirementAudit.isComplete]
  case requirement => exact fun q hq => mem_requirements_auditOf hrecords hstudent hkey hq
  case collected =>
    rw [Report.collect, ha]
    rfl
  case ascending => exact pairwise_requirements_auditOf hrecords student m
  case mem_iff => exact fun id => mem_requirementIds_auditOf hrecords hkey

/-- Where all declared majors are on record, the overall audit is that of each of them. -/
theorem exists_overallAudit_forall₂ (hstudent : student ∈ h.records.studentIds)
    (hdeclared : ∀ d ∈ h.records.declaredMajors student, d.major ∈ h.records.majorKeys) :
    ∃ audits, (ofHoldings h limit).overallAudit student = .ok audits ∧
      List.Forall₂ (fun d a => (ofHoldings h limit).majorAudit student d.major = .ok a)
        (h.records.declaredMajors student) audits := by
  obtain ⟨audits, haudits, -⟩ :
      ∃ audits, (ofHoldings h limit).overallAudit student = .ok audits ∧ _ :=
    exists_overallAudit hstudent hdeclared
  refine ⟨audits, haudits, ?_⟩
  have hall := (overallAudit_eq_ok_iff hstudent).mp haudits
  have hmem : ∀ d ∈ h.records.declaredMajors student,
      d.major ∈ (h.records.declaredMajors student).map DeclaredMajor.major :=
    fun d hd => List.mem_map_of_mem hd
  -- Each major audited is one of those declared, so its audit can be asked for alone.
  refine ((List.forall₂_and_left _ _).mpr ⟨hmem, hall⟩).imp ?_
  rintro d a ⟨hd, m, hm, rfl⟩
  exact majorAudit_eq_ok_iff.mpr ⟨hstudent, hd, m, hm, rfl⟩

/-- **All views of progress agree.**  In reachable holdings a major is audited exactly for a student
on record who has declared it, and otherwise the first thing that is not there is named.  All other
questions about the major are answered from its audit.  And the overall audit of a student is the
audit of each declared major, in order of declaration. -/
theorem progress_views_agree (hreach : h.Reachable) (limit : Nat) (student : StudentId) :
    let desk := ofHoldings h limit
    let declared := (h.records.declaredMajors student).map DeclaredMajor.major
    (∀ key,
      ((∃ a, desk.majorAudit student key = .ok a) ↔
        student ∈ h.records.studentIds ∧ key ∈ h.records.majorKeys ∧ key ∈ declared) ∧
      (student ∉ h.records.studentIds →
        desk.majorAudit student key = .error (.unknown (.student student))) ∧
      (student ∈ h.records.studentIds → key ∉ h.records.majorKeys →
        desk.majorAudit student key = .error (.unknown (.major key))) ∧
      (student ∈ h.records.studentIds → key ∈ h.records.majorKeys → key ∉ declared →
        desk.majorAudit student key = .error (.unknown (.declaration student key)))) ∧
    (∀ key a, desk.majorAudit student key = .ok a → Covers h desk student key a) ∧
    (student ∈ h.records.studentIds → ∃ audits, desk.overallAudit student = .ok audits ∧
      List.Forall₂ (fun d a => desk.majorAudit student d.major = .ok a)
        (h.records.declaredMajors student) audits) := by
  intro desk declared
  have hfind : ∀ {key}, key ∈ h.records.majorKeys ↔ ∃ m, h.records.major? key = some m :=
    fun {key} => Records.isSome_major?_iff.symm.trans Option.isSome_iff_exists
  refine ⟨fun key => ⟨?_, majorAudit_of_not_mem, majorAudit_of_unknown_major, ?_⟩, ?_, ?_⟩
  · constructor
    · rintro ⟨a, ha⟩
      obtain ⟨hstudent, hdeclared, m, hm, -⟩ := majorAudit_eq_ok_iff.mp ha
      exact ⟨hstudent, hfind.mpr ⟨m, hm⟩, hdeclared⟩
    · rintro ⟨hstudent, hkey, hdeclared⟩
      obtain ⟨m, hm⟩ := hfind.mp hkey
      exact ⟨_, majorAudit_eq_ok_iff.mpr ⟨hstudent, hdeclared, m, hm, rfl⟩⟩
  · intro hstudent hkey hdeclared
    obtain ⟨m, hm⟩ := hfind.mp hkey
    exact (majorAudit_eq hstudent hm).trans (if_neg hdeclared)
  · exact fun key a => covers_of_majorAudit hreach.ascending
  · exact fun hstudent =>
      exists_overallAudit_forall₂ hstudent (hreach.closed.declared_on_record student)

/-- A catalog has a student who has completed one of two courses of a major.  After the transcript
adds the other, the audit of the major counts the credits of both. -/
theorem progress_views_agree_of_transcript :
    let key : MajorKey := ⟨"CS", "BS"⟩
    ∃ h : Holdings, h.Reachable ∧ ∃ a, (ofHoldings h 8).majorAudit 9 key = .ok a ∧
      Covers h (ofHoldings h 8) 9 key a ∧ a.creditsCompleted = 7 := by
  intro key
  let catalog := Text.bytes
    ("\x7b\"courses\":[\x7b\"id\":1,\"subject\":\"CS\",\"number\":\"1\",\"credits\":3\x7d,"
      ++ "\x7b\"id\":2,\"subject\":\"CS\",\"number\":\"2\",\"credits\":4\x7d],"
      ++ "\"majors\":[\x7b\"code\":\"CS\",\"designation\":\"BS\",\"name\":\"Computing\","
      ++ "\"totalCreditsRequired\":7,\"requirements\":["
      ++ "\x7b\"id\":6,\"name\":\"Core\",\"courses\":[1,2]\x7d]\x7d],"
      ++ "\"students\":[\x7b\"id\":9,\"name\":\"Ada\","
      ++ "\"declaredMajors\":[\x7b\"code\":\"CS\",\"designation\":\"BS\"\x7d],\"enrollments\":["
      ++ "\x7b\"courseId\":1,\"semester\":\"F1\",\"status\":\"completed\"\x7d]\x7d]\x7d")
  let transcript := Text.bytes "student_id,course_id,semester,status\n9,2,F2,passed\n"
  let courses : List Course := [⟨1, "CS", "1", "", 3⟩, ⟨2, "CS", "2", "", 4⟩]
  let start : Holdings :=
    ⟨⟨courses, [⟨key, "Computing", 7⟩], [⟨6, key, "Core", none, none, courses⟩],
      [⟨9, "Ada", [⟨key, none, false⟩]⟩], [⟨9, 1, "F1", .completed⟩]⟩, .empty⟩
  have himport : Holdings.ofBytes catalog 8 = .ok start := by decide +kernel
  let h := start.run [.importTranscript transcript]
  have hreach : h.Reachable :=
    ⟨start, _, .imported himport, by simp [Holdings.Write.DeclaresNothing], rfl⟩
  -- One course comes with the catalog and the other one with the transcript.
  obtain ⟨haudited, hcovers, -⟩ := progress_views_agree hreach 8 9
  obtain ⟨a, ha⟩ := (haudited key).1.mpr
    ⟨by decide +kernel, by decide +kernel, by decide +kernel⟩
  have hcredits : (ofHoldings h 8).creditsCompleted 9 key = .ok 7 := by decide +kernel
  have hcovered := hcovers key a ha
  refine ⟨h, hreach, a, ha, hcovered, ?_⟩
  exact Except.ok.inj (hcovered.credits.symm.trans hcredits)

end Registrar.Desk
