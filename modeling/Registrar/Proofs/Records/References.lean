import Registrar.Proofs.Records.Run
import Mathlib.Data.List.Infix

/-!
# References between records

A requirement refers to its major and to its courses, a student to the majors declared so far, an
enrollment to its student and its course.  `Sound` records refer to nothing that is not on record,
and no student has declared a major twice.

The writes look at what a record refers to by itself (`CheckedReferences`), but not at the courses
inside a requirement or the majors inside a student that is inserted.  `sound_iff_inserted_within`
says that nothing else leaves a reference without its record.
-/

namespace Registrar

/-- One student is the other with further declared majors. -/
structure Student.Extends (old new : Student) : Prop where
  id : new.id = old.id
  declared : old.declaredMajors <+: new.declaredMajors

theorem Student.Extends.refl (s : Student) : s.Extends s :=
  ⟨rfl, List.prefix_rfl⟩

theorem Student.Extends.trans {a b c : Student} (hab : a.Extends b) (hbc : b.Extends c) :
    a.Extends c :=
  ⟨hbc.id.trans hab.id, hab.declared.trans hbc.declared⟩

theorem Student.extends_declaring (id : StudentId) (d : DeclaredMajor) (s : Student) :
    s.Extends (s.declaring id d) := by
  unfold Student.declaring
  split_ifs
  · exact ⟨rfl, List.prefix_append _ _⟩
  · exact .refl s

namespace Records

/-- The records that writes leave behind one after another. -/
def run (r : Records) (ws : List Write) : Records :=
  ws.foldl after r

variable {r r' : Records} {w : Write} {ws : List Write}

theorem run_append (r : Records) (front back : List Write) :
    r.run (front ++ back) = (r.run front).run back :=
  List.foldl_append

theorem run_concat (r : Records) (front : List Write) (w : Write) :
    r.run (front ++ [w]) = (r.run front).after w := by
  rw [run_append]
  rfl

/-- A write that is accepted leaves behind what its step leads to. -/
theorem Step.after_eq (h : Step r w r') : r.after w = r' := by
  cases h with
  | insertCourse hid =>
    rw [after, insertCourse_eq_ok_iff.mpr ⟨hid, rfl⟩]
    rfl
  | insertMajor hkey =>
    rw [after, insertMajor_eq_ok_iff.mpr ⟨hkey, rfl⟩]
    rfl
  | insertRequirement hid hmajor =>
    rw [after, insertRequirement_eq_ok_iff.mpr ⟨hid, hmajor, rfl⟩]
    rfl
  | insertStudent hid =>
    rw [after, insertStudent_eq_ok_iff.mpr ⟨hid, rfl⟩]
    rfl
  | declareMajor hmajor hs hnew =>
    rw [after, declareMajor_eq_ok_iff.mpr ⟨hmajor, ⟨_, hs, hnew⟩, rfl⟩]
    rfl
  | recordEnrollment hstudent hcourse hkey =>
    rw [after, recordEnrollment_eq_ok_iff.mpr ⟨hstudent, hcourse, hkey, rfl⟩]
    rfl
  | @applyEnrollments batch hknown =>
    -- The store knows the whole batch, so the case in which it is refused is out.
    have hall : batch.all r.knows = true :=
      List.all_eq_true.mpr fun e he => knows_iff.mpr (hknown e he)
    rcases settleBatch_eq batch r with ⟨-, added, hsettle, -⟩ | ⟨hnone, -⟩
    · rw [after, hsettle]
      rfl
    · exact absurd hall (Bool.eq_false_iff.mp hnone)

/-- In a run from no records at all, a write is accepted when its turn comes. -/
def AcceptedIn (ws : List Write) (w : Write) : Prop :=
  ∃ front back r', ws = front ++ w :: back ∧ Step (empty.run front) w r'

theorem AcceptedIn.concat (h : AcceptedIn ws w) (last : Write) : AcceptedIn (ws ++ [last]) w := by
  obtain ⟨front, back, r', rfl, hstep⟩ := h
  exact ⟨front, back ++ [last], r', by simp, hstep⟩

theorem acceptedIn_concat (h : Step (empty.run ws) w r') : AcceptedIn (ws ++ [w]) w :=
  ⟨ws, [], r', rfl, h⟩

/-- What records have before a run and keep in every accepted write they have after it. -/
theorem run_induction {P : Records → Prop} (hstart : P r)
    (hstep : ∀ r w r', P r → Step r w r' → P r') (ws : List Write) : P (r.run ws) := by
  induction ws generalizing r with
  | nil => exact hstart
  | cons w rest ih =>
    have hafter : P (r.after w) := after_induction hstart fun r' => hstep r w r' hstart
    exact ih hafter

/-! ### What is checked -/

/-- Requirements have their majors on record, and enrollments their students and courses. -/
structure CheckedReferences (r : Records) : Prop where
  requirement_majors : ∀ q ∈ r.requirements, q.major ∈ r.majorKeys
  enrollment_students : ∀ e ∈ r.enrollments, e.student ∈ r.studentIds
  enrollment_courses : ∀ e ∈ r.enrollments, e.course ∈ r.courseIds

/-- Settling an enrollment adds its key if it is new. -/
theorem keys_settle (e : Enrollment) (known : List Enrollment) :
    (settle e known).map Enrollment.key = if e.key ∈ known.map Enrollment.key
      then known.map Enrollment.key else known.map Enrollment.key ++ [e.key] := by
  induction known with
  | nil => rfl
  | cons first rest ih =>
    by_cases hfirst : first.sameKey e = true
    · have hkey : first.key = e.key := Enrollment.sameKey_iff.mp hfirst
      rw [settle, if_pos hfirst, List.map_cons, List.map_cons, if_pos (by simp [hkey])]
      rfl
    · have hkey : e.key ≠ first.key := fun h => hfirst (Enrollment.sameKey_iff.mpr h.symm)
      rw [settle, if_neg hfirst, List.map_cons, List.map_cons, ih]
      simp only [List.mem_cons, hkey, false_or]
      split_ifs <;> rfl

/-- The keys of settled enrollments are those that were there and those of the batch. -/
theorem mem_keys_settled {batch known : List Enrollment} {key : StudentId × CourseId × String} :
    key ∈ (settled batch known).map Enrollment.key ↔
      key ∈ known.map Enrollment.key ∨ key ∈ batch.map Enrollment.key := by
  induction batch generalizing known with
  | nil => simp [settled]
  | cons e rest ih =>
    have hstep : settled (e :: rest) known = settled rest (settle e known) := rfl
    rw [hstep, ih, keys_settle, List.map_cons, List.mem_cons]
    split_ifs with he
    · constructor
      · rintro (h | h)
        · exact Or.inl h
        · exact Or.inr (Or.inr h)
      · rintro (h | rfl | h)
        · exact Or.inl h
        · exact Or.inl he
        · exact Or.inr h
    · rw [List.mem_append, List.mem_singleton, or_assoc]

/-- Settled enrollments are of students and courses of which there were enrollments, or of the
students and courses of the batch. -/
theorem of_mem_settled {batch known : List Enrollment} {e : Enrollment}
    (he : e ∈ settled batch known) :
    ∃ old, (old ∈ known ∨ old ∈ batch) ∧ old.student = e.student ∧ old.course = e.course := by
  have hkey : e.key ∈ (settled batch known).map Enrollment.key := List.mem_map_of_mem he
  rcases mem_keys_settled.mp hkey with hold | hold
  · obtain ⟨old, hmem, hsame⟩ := List.mem_map.mp hold
    simp only [Enrollment.key, Prod.mk.injEq] at hsame
    exact ⟨old, Or.inl hmem, hsame.1, hsame.2.1⟩
  · obtain ⟨old, hmem, hsame⟩ := List.mem_map.mp hold
    simp only [Enrollment.key, Prod.mk.injEq] at hsame
    exact ⟨old, Or.inr hmem, hsame.1, hsame.2.1⟩

/-- Declaring a major leaves the ids of the students as they are. -/
theorem map_id_declaring (id : StudentId) (d : DeclaredMajor) (students : List Student) :
    (students.map (Student.declaring id d)).map Student.id = students.map Student.id := by
  rw [List.map_map]
  exact List.map_congr_left fun s _ => (Student.extends_declaring id d s).id

theorem checkedReferences_empty : empty.CheckedReferences where
  requirement_majors := fun _ hq => absurd hq List.not_mem_nil
  enrollment_students := fun _ he => absurd he List.not_mem_nil
  enrollment_courses := fun _ he => absurd he List.not_mem_nil

theorem CheckedReferences.step (h : r.CheckedReferences) (hstep : Step r w r') :
    r'.CheckedReferences := by
  have hgrows : r.Grows r' := hstep.grows
  -- Records only grow, so that old references still hold; each case adds the new ones.
  cases hstep with
  | insertCourse | insertMajor =>
    exact ⟨fun q hq => hgrows.majors (h.requirement_majors q hq), h.enrollment_students,
      fun e he => hgrows.courses (h.enrollment_courses e he)⟩
  | @insertRequirement q _ hmajor =>
    refine ⟨fun other hother => ?_, h.enrollment_students, h.enrollment_courses⟩
    rcases List.mem_cons.mp ((insertAscending_perm _ _ _).mem_iff.mp hother) with rfl | hold
    · exact hmajor
    · exact h.requirement_majors other hold
  | insertStudent =>
    refine ⟨h.requirement_majors, fun e he => ?_, h.enrollment_courses⟩
    rw [studentIds, List.map_append]
    exact List.mem_append_left _ (h.enrollment_students e he)
  | @declareMajor student d =>
    refine ⟨h.requirement_majors, fun e he => ?_, h.enrollment_courses⟩
    rw [studentIds, map_id_declaring]
    exact h.enrollment_students e he
  | @recordEnrollment e hstudent hcourse =>
    refine ⟨h.requirement_majors, ?_, ?_⟩
    · exact List.forall_mem_append.mpr
        ⟨h.enrollment_students, List.forall_mem_singleton.mpr hstudent⟩
    · exact List.forall_mem_append.mpr
        ⟨h.enrollment_courses, List.forall_mem_singleton.mpr hcourse⟩
  | @applyEnrollments batch hknown =>
    refine ⟨h.requirement_majors, fun e he => ?_, fun e he => ?_⟩
    · obtain ⟨old, hold | hold, hstudent, -⟩ := of_mem_settled he
      · exact hstudent ▸ h.enrollment_students old hold
      · exact hstudent ▸ (hknown old hold).1
    · obtain ⟨old, hold | hold, -, hcourse⟩ := of_mem_settled he
      · exact hcourse ▸ h.enrollment_courses old hold
      · exact hcourse ▸ (hknown old hold).2

theorem checkedReferences_run (ws : List Write) : (empty.run ws).CheckedReferences :=
  run_induction checkedReferences_empty (fun _ _ _ h hstep => h.step hstep) ws

/-! ### What is kept -/

/-- Requirements stay as they are, and students only declare further majors. -/
structure Keeps (r r' : Records) : Prop where
  requirements : r.requirements ⊆ r'.requirements
  students : ∀ s ∈ r.students, ∃ s' ∈ r'.students, s.Extends s'

theorem Keeps.refl (r : Records) : r.Keeps r :=
  ⟨List.Subset.refl _, fun s hs => ⟨s, hs, .refl s⟩⟩

theorem Keeps.trans {a b c : Records} (hab : a.Keeps b) (hbc : b.Keeps c) : a.Keeps c where
  requirements := List.Subset.trans hab.requirements hbc.requirements
  students := by
    intro s hs
    obtain ⟨s', hs', hextends⟩ := hab.students s hs
    obtain ⟨s'', hs'', hextends'⟩ := hbc.students s' hs'
    exact ⟨s'', hs'', hextends.trans hextends'⟩

theorem Step.keeps (h : Step r w r') : r.Keeps r' := by
  cases h with
  | insertRequirement =>
    refine ⟨fun q hq => ?_, (Keeps.refl r).students⟩
    exact (insertAscending_perm _ _ _).mem_iff.mpr (List.mem_cons_of_mem _ hq)
  | insertStudent =>
    exact ⟨List.Subset.refl _, fun s hs => ⟨s, List.mem_append_left _ hs, .refl s⟩⟩
  | @declareMajor student d =>
    refine ⟨List.Subset.refl _, fun s hs => ?_⟩
    exact ⟨_, List.mem_map_of_mem hs, Student.extends_declaring student d s⟩
  | insertCourse | insertMajor | recordEnrollment | applyEnrollments =>
    exact ⟨(Keeps.refl r).requirements, (Keeps.refl r).students⟩

theorem keeps_run (r : Records) (ws : List Write) : r.Keeps (r.run ws) :=
  run_induction (P := r.Keeps) (Keeps.refl r) (fun _ _ _ h hstep => h.trans hstep.keeps) ws

/-- Student ids stay different. -/
theorem Step.nodup_studentIds (h : Step r w r') (hnodup : r.studentIds.Nodup) :
    r'.studentIds.Nodup := by
  cases h with
  | insertStudent hid => exact nodup_map_append_singleton_iff.mpr ⟨hnodup, hid⟩
  | declareMajor =>
    rw [studentIds, map_id_declaring]
    exact hnodup
  | insertCourse | insertMajor | insertRequirement | recordEnrollment | applyEnrollments =>
    exact hnodup

/-! ### Where records come from -/

theorem Step.requirement_cases (h : Step r w r') {q : Requirement} (hq : q ∈ r'.requirements) :
    w = .insertRequirement q ∨ q ∈ r.requirements := by
  cases h with
  | insertRequirement =>
    rcases List.mem_cons.mp ((insertAscending_perm _ _ _).mem_iff.mp hq) with rfl | hold
    · exact Or.inl rfl
    · exact Or.inr hold
  | insertCourse | insertMajor | insertStudent | declareMajor | recordEnrollment
  | applyEnrollments => exact Or.inr hq

/-- Every requirement on record has been inserted as it is. -/
theorem acceptedIn_of_mem_requirements {q : Requirement}
    (hq : q ∈ (empty.run ws).requirements) : AcceptedIn ws (.insertRequirement q) := by
  induction ws using List.reverseRecOn with
  | nil => exact absurd hq List.not_mem_nil
  | append_singleton front w ih =>
    rw [run_concat] at hq
    revert hq
    refine after_induction (P := fun r => q ∈ r.requirements → _) ?_ ?_
    · exact fun hq => (ih hq).concat w
    · intro r' hstep hq
      rcases hstep.requirement_cases hq with rfl | hold
      · exact acceptedIn_concat hstep
      · exact (ih hold).concat w

/-- All that a student on record has declared beyond what was inserted has been checked. -/
structure DeclaresBeyond (r : Records) (inserted s : Student) : Prop where
  checked : ∀ d ∈ s.declaredMajors, d ∈ inserted.declaredMajors ∨ d.major ∈ r.majorKeys
  once : (inserted.declaredMajors.map DeclaredMajor.major).Nodup →
    (s.declaredMajors.map DeclaredMajor.major).Nodup

theorem DeclaresBeyond.refl (r : Records) (s : Student) : r.DeclaresBeyond s s :=
  ⟨fun _ hd => Or.inl hd, id⟩

theorem DeclaresBeyond.of_grows {inserted s : Student} (h : r.DeclaresBeyond inserted s)
    (hgrows : r.Grows r') : r'.DeclaresBeyond inserted s :=
  ⟨fun d hd => (h.checked d hd).imp_right fun hmajor => hgrows.majors hmajor, h.once⟩

/-- A further major is declared where it is on record and new. -/
theorem DeclaresBeyond.declaring {inserted s : Student} {d : DeclaredMajor}
    (h : r.DeclaresBeyond inserted s) (hmajor : d.major ∈ r.majorKeys)
    (hnew : d.major ∉ s.declaredMajors.map DeclaredMajor.major) :
    r.DeclaresBeyond inserted { s with declaredMajors := s.declaredMajors ++ [d] } where
  checked := by
    intro known hknown
    rcases List.mem_append.mp hknown with hknown | hknown
    · exact h.checked known hknown
    · exact Or.inr (List.mem_singleton.mp hknown ▸ hmajor)
  once := fun honce => nodup_map_append_singleton_iff.mpr ⟨h.once honce, hnew⟩

/-- A student on record after a step is the one inserted, or was there and has declared nothing
that is not checked. -/
theorem Step.student_cases (h : Step r w r') (hnodup : r.studentIds.Nodup) {s : Student}
    (hs : s ∈ r'.students) :
    w = .insertStudent s ∨ ∃ old ∈ r.students, ∀ inserted, r.DeclaresBeyond inserted old →
      r'.DeclaresBeyond inserted s := by
  have hgrows : r.Grows r' := h.grows
  have hkept : s ∈ r.students → ∃ old ∈ r.students, ∀ inserted, r.DeclaresBeyond inserted old →
      r'.DeclaresBeyond inserted s :=
    fun hold => ⟨s, hold, fun _ hbeyond => hbeyond.of_grows hgrows⟩
  cases h with
  | insertStudent =>
    rcases List.mem_append.mp hs with hold | hnew
    · exact Or.inr (hkept hold)
    · exact Or.inl (List.mem_singleton.mp hnew ▸ rfl)
  | @declareMajor student d found hmajor hfound hnew =>
    obtain ⟨old, hold, rfl⟩ := List.mem_map.mp hs
    refine Or.inr ⟨old, hold, fun inserted hbeyond => ?_⟩
    by_cases hid : old.id = student
    · -- The student found under the id is the only one who has it.
      have hfoundId : found.id = student := key_of_find?_key Student.id hfound
      have hsame : old = found := List.inj_on_of_nodup_map hnodup hold
        (List.mem_of_find?_eq_some hfound) (hid.trans hfoundId.symm)
      rw [Student.declaring, if_pos (beq_iff_eq.mpr hid)]
      exact (hbeyond.declaring hmajor (hsame ▸ hnew)).of_grows hgrows
    · rw [Student.declaring, if_neg (by simpa using hid)]
      exact hbeyond.of_grows hgrows
  | insertCourse | insertMajor | insertRequirement | recordEnrollment | applyEnrollments =>
    exact Or.inr (hkept hs)

/-- Every student on record has been inserted, and has declared more only where it was checked. -/
theorem exists_acceptedIn_of_mem_students {s : Student} (hs : s ∈ (empty.run ws).students) :
    ∃ inserted, AcceptedIn ws (.insertStudent inserted) ∧
      (empty.run ws).DeclaresBeyond inserted s := by
  induction ws using List.reverseRecOn generalizing s with
  | nil => exact absurd hs List.not_mem_nil
  | append_singleton front w ih =>
    -- The last write is looked at in the records of the front, where no id comes twice.
    have hnodup : (empty.run front).studentIds.Nodup :=
      run_induction (r := empty) (P := fun r => r.studentIds.Nodup) List.nodup_nil
        (fun _ _ _ h hstep => hstep.nodup_studentIds h) front
    rw [run_concat] at hs ⊢
    revert hs
    refine after_induction (P := fun r => s ∈ r.students → ∃ inserted,
      AcceptedIn (front ++ [w]) (.insertStudent inserted) ∧ r.DeclaresBeyond inserted s) ?_ ?_
    · intro hs
      obtain ⟨inserted, haccepted, hbeyond⟩ := ih hs
      exact ⟨inserted, haccepted.concat w, hbeyond⟩
    · intro r' hstep hs
      rcases hstep.student_cases hnodup hs with rfl | ⟨old, hold, hbeyond⟩
      · exact ⟨s, acceptedIn_concat hstep, .refl r' s⟩
      · obtain ⟨inserted, haccepted, hold⟩ := ih hold
        exact ⟨inserted, haccepted.concat w, hbeyond inserted hold⟩

/-! ### What is not checked -/

/-- Whatever the records refer to is on record, and no student has declared a major twice. -/
structure Sound (r : Records) : Prop extends CheckedReferences r where
  requirement_courses : ∀ q ∈ r.requirements, ∀ c ∈ q.courses, c.id ∈ r.courseIds
  declared_majors : r.DeclaredOnRecord
  declared_once : ∀ s ∈ r.students, (s.declaredMajors.map DeclaredMajor.major).Nodup

/-- What stands inside an inserted record is on record, and no major twice. -/
def Write.InsertsWithin (r : Records) : Write → Prop
  | .insertRequirement q => ∀ c ∈ q.courses, c.id ∈ r.courseIds
  | .insertStudent s => (∀ d ∈ s.declaredMajors, d.major ∈ r.majorKeys) ∧
      (s.declaredMajors.map DeclaredMajor.major).Nodup
  | _ => True

/-- An inserted requirement is on record after the run, and so is an inserted student, possibly
with further declared majors. -/
theorem AcceptedIn.insertsWithin (haccepted : AcceptedIn ws w) (hsound : (empty.run ws).Sound) :
    w.InsertsWithin (empty.run ws) := by
  obtain ⟨front, back, r', rfl, hstep⟩ := haccepted
  -- What the write has put down is kept to the end of the run, where all is sound.
  have hkeeps : r'.Keeps (empty.run (front ++ w :: back)) := by
    have hrun : empty.run (front ++ w :: back) = r'.run back := by
      rw [run_append, ← hstep.after_eq]
      rfl
    exact hrun ▸ keeps_run r' back
  cases hstep with
  | @insertRequirement q =>
    refine hsound.requirement_courses q (hkeeps.requirements ?_)
    exact (insertAscending_perm _ _ _).mem_iff.mpr List.mem_cons_self
  | @insertStudent s =>
    obtain ⟨s', hs', hextends⟩ :=
      hkeeps.students s (List.mem_append_right _ (List.mem_singleton_self s))
    constructor
    · exact fun d hd => hsound.declared_majors s' hs' d (hextends.declared.subset hd)
    · exact (hsound.declared_once s' hs').sublist (hextends.declared.sublist.map _)
  | insertCourse | insertMajor | declareMajor | recordEnrollment | applyEnrollments => trivial

theorem sound_of_insertsWithin
    (h : ∀ w, AcceptedIn ws w → w.InsertsWithin (empty.run ws)) : (empty.run ws).Sound where
  toCheckedReferences := checkedReferences_run ws
  requirement_courses := fun q hq => h _ (acceptedIn_of_mem_requirements hq)
  declared_majors := by
    intro s hs d hd
    obtain ⟨inserted, haccepted, hbeyond⟩ := exists_acceptedIn_of_mem_students hs
    rcases hbeyond.checked d hd with hd | hmajor
    · exact (h _ haccepted).1 d hd
    · exact hmajor
  declared_once := by
    intro s hs
    obtain ⟨inserted, haccepted, hbeyond⟩ := exists_acceptedIn_of_mem_students hs
    exact hbeyond.once (h _ haccepted).2

/-- **References dangle only inside inserted records.**  After every run of writes, accepted or
not, requirements have their majors on record and enrollments their students and courses.  All
other references are sound exactly if every requirement that was inserted lists courses that are
on record in the end, and every student that was inserted comes with declared majors that are, each
of them once. -/
theorem sound_iff_inserted_within (ws : List Write) :
    (empty.run ws).CheckedReferences ∧
      ((empty.run ws).Sound ↔ ∀ w, AcceptedIn ws w → w.InsertsWithin (empty.run ws)) := by
  refine ⟨checkedReferences_run ws, ?_, sound_of_insertsWithin⟩
  exact fun hsound w haccepted => haccepted.insertsWithin hsound

/-- A student is inserted with a major that nobody knows, or with a major twice, or a requirement
with a course that nobody knows: the writes are accepted, and the records are not sound. -/
theorem inserted_references_dangle :
    let key : MajorKey := ⟨"CS", "BS"⟩
    let insertKey : Write := .insertMajor ⟨key, "Computer Science", 40⟩
    let declared : DeclaredMajor := ⟨key, none, true⟩
    ¬(empty.run [.insertStudent ⟨7, "Grace Hopper", [declared]⟩]).Sound ∧
      ¬(empty.run [insertKey, .insertStudent ⟨7, "Grace Hopper", [declared, declared]⟩]).Sound ∧
      ¬(empty.run [insertKey,
        .insertRequirement ⟨1, key, "Core", none, none, [⟨9, "CS", "170", "", 4⟩]⟩]).Sound := by
  intro key insertKey declared
  refine ⟨fun h => ?_, fun h => ?_, fun h => ?_⟩
  · have hmajor := h.declared_majors ⟨7, "Grace Hopper", [declared]⟩ (by decide) declared
      (by decide)
    exact absurd hmajor (by decide)
  · have honce := h.declared_once ⟨7, "Grace Hopper", [declared, declared]⟩ (by decide)
    exact absurd honce (by decide)
  · have hcourse := h.requirement_courses
      ⟨1, key, "Core", none, none, [⟨9, "CS", "170", "", 4⟩]⟩ (by decide) ⟨9, "CS", "170", "", 4⟩
      (by decide)
    exact absurd hcourse (by decide)

end Records

end Registrar
