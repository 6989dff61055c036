import Registrar.Proofs.Catalog.Transcript
import Registrar.Proofs.Csv.Lines

/-!
# The line that a status is reported on

A status without a meaning is reported with the line of its row.  That line is short of the line
on which the row begins by the line feeds between the first line end behind the row before and the
row (`Holdings.reported_line_of_unknown_status`).  So it is right if rows are ended by a single
line feed or carriage return and no empty line comes before the row, whatever the fields span, and
too small otherwise: by one for each empty line there, and by one if the row before is ended by a
carriage return with a line feed.
-/

namespace Registrar

open Csv

/-- An entry has the line of its row. -/
theorem Transcript.line_of_has {names : List String} {row : Row} {e : TranscriptEntry}
    (h : Row.Has Transcript.entry? names row e) : e.line = row.line := by
  obtain ⟨named, hnamed, hentry⟩ := h
  have hline : named.line = row.line := by
    by_cases hlength : row.fields.length ≠ names.length
    · rw [nameFields, if_pos hlength] at hnamed
      exact absurd hnamed (by simp)
    · rw [nameFields, if_neg hlength] at hnamed
      obtain ⟨fields, -, hfields⟩ := bind_eq_ok_iff.mp hnamed
      rw [← pure_eq_ok_iff.mp hfields]
  simp only [Transcript.entry?, Option.bind_eq_bind, Option.bind_eq_some_iff] at hentry
  obtain ⟨_, -, _, -, _, -, _, -, _, -, _, -, hentry⟩ := hentry
  rw [← Option.some.inj hentry, ← hline]

/-- Entries have the lines of the rows below the header, in order. -/
theorem Transcript.Lists.map_line {bs : Text.Bytes} {entries : List TranscriptEntry}
    (h : Transcript.Lists bs entries) :
    entries.map TranscriptEntry.line = (rows bs).tail.map Row.line := by
  unfold Transcript.Lists at h
  cases hrows : rows bs with
  | nil =>
    rw [hrows] at h
    rw [h]
    rfl
  | cons header data =>
    rw [hrows] at h
    obtain ⟨names, -, hentries⟩ := h
    rw [List.tail_cons]
    clear hrows
    induction hentries with
    | nil => rfl
    | cons hhas _ ih => rw [List.map_cons, List.map_cons, ih, Transcript.line_of_has hhas]

namespace Holdings

/-- **The line of the first status without a meaning.**  Its row begins behind one front of the
transcript.  The line reported is the one on which the row begins, less the line feeds among the
line ends at the end of that front, of which the first one is not counted.  It is the line on which
the row begins exactly if there is no such line feed. -/
theorem reported_line_of_unknown_status {bs : Text.Bytes} {before after : List TranscriptEntry}
    {e : TranscriptEntry} (hlists : Transcript.Lists bs (before ++ e :: after))
    (hbefore : ∀ b ∈ before, (EnrollmentStatus.read? b.status).isSome = true)
    (hstatus : EnrollmentStatus.read? e.status = none) (h : Holdings) :
    ∃ front line, BeginsBehind bs (before.length + 1) front ∧
      (∀ front', BeginsBehind bs (before.length + 1) front' → front' = front) ∧
      importTranscript bs h = .error (.unknownStatus line e.status) h ∧
      line + (lineEnds front).tail.count lineFeed = 1 + front.count lineFeed ∧
      (line = 1 + front.count lineFeed ↔ lineFeed ∉ (lineEnds front).tail) := by
  -- The header is the row with index 0, so that of the entry is one further than the entry.
  have hline : ((rows bs).map Row.line)[before.length + 1]? = some e.line := by
    rw [← List.getElem?_tail, ← List.map_tail, ← hlists.map_line, List.map_append,
      List.getElem?_append_right (by rw [List.length_map]), List.length_map, Nat.sub_self]
    rfl
  obtain ⟨front, hbegins, hcount⟩ := exists_beginsBehind (Nat.succ_pos _) hline
  refine ⟨front, e.line, hbegins, fun front' hbegins' => ?_, ?_, hcount, ?_⟩
  · exact hbegins'.unique (Nat.succ_pos _) hbegins
  · exact importTranscript_of_unknownStatus (Transcript.read_eq_ok_iff.mpr hlists) hbefore hstatus h
  · have hnone : (lineEnds front).tail.count lineFeed = 0 ↔ lineFeed ∉ (lineEnds front).tail :=
      List.count_eq_zero
    rw [← hnone]
    omega

/-- Behind a field that spans two lines and an empty line, a row is reported one line too early. -/
theorem reported_line_of_unknown_status_behind_empty_line :
    let front := Text.bytes
      "student_id,course_id,semester,status\n7,3,\"Fall\nterm\",completed\n\n"
    let bs := front ++ Text.bytes "8,3,Fall,graduated\n"
    importTranscript bs .empty = .error (.unknownStatus 4 "graduated") .empty ∧
      BeginsBehind bs 2 front ∧ 1 + front.count lineFeed = 5 := by
  intro front bs
  have hread : Transcript.read bs =
      .ok ([⟨2, 7, 3, "Fall\nterm", "completed"⟩] ++ ⟨4, 8, 3, "Fall", "graduated"⟩ :: []) := by
    decide +kernel
  obtain ⟨_, line, -, hunique, himport, hcount, -⟩ :=
    reported_line_of_unknown_status (Transcript.read_eq_ok_iff.mp hread) (by decide +kernel)
      (by decide +kernel) .empty
  -- The field has a line end in it, and an empty line stands before the row.
  have hbegins : BeginsBehind bs 2 front :=
    ⟨_, _, rfl, by decide +kernel, by decide +kernel⟩
  obtain rfl := hunique front hbegins
  have hfeeds : front.count lineFeed = 4 := by decide +kernel
  have hmissed : (lineEnds front).tail.count lineFeed = 1 := by decide +kernel
  have hline : line = 4 := by omega
  exact ⟨hline ▸ himport, hbegins, by omega⟩

/-- Behind a carriage return with a line feed, a row that begins on line 2 is reported on line 1. -/
theorem line_behind_carriage_return_is_too_small :
    let front := Text.bytes "student_id,course_id,semester,status\r\n"
    let bs := front ++ Text.bytes "7,3,Fall,graduated\r\n"
    BeginsBehind bs 1 front ∧ 1 + front.count lineFeed = 2 ∧
      importTranscript bs .empty = .error (.unknownStatus 1 "graduated") .empty := by
  intro front bs
  have hbegins : BeginsBehind bs 1 front :=
    ⟨_, _, rfl, by decide +kernel, by decide +kernel⟩
  have hfeeds : front.count lineFeed = 1 := by decide +kernel
  have hread : Transcript.read bs = .ok ([] ++ ⟨1, 7, 3, "Fall", "graduated"⟩ :: []) := by
    decide +kernel
  have hstatus : EnrollmentStatus.read? "graduated" = none := by decide +kernel
  exact ⟨hbegins, by omega,
    importTranscript_of_unknownStatus hread (fun _ h => absurd h List.not_mem_nil) hstatus .empty⟩

end Holdings

end Registrar
