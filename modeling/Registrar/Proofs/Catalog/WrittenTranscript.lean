import Registrar.Proofs.Catalog.Transcript
import Registrar.Proofs.Csv.Written
import Registrar.Proofs.Text.Decimal
import Mathlib.Data.List.Perm.Basic

/-!
# Transcripts that are written and read back

A `Transcript.Layout` is a way to write rows of some kind as a transcript: the four columns that a
transcript needs among any others, in any order, all in quotes, and each row ended one way or the
other.  Columns are found by their names alone (`cell_of_filter`), so that reading what is written
gives an entry a row, which says what the row does (`Layout.written_rows_are_read_back`).
-/

namespace Registrar

open Text

namespace Csv

/-! ### Columns found by name -/

/-- A column of a table: its name, and the field that a row has in it. -/
structure Column (ρ : Type) where
  name : String
  field : ρ → String

variable {ρ : Type}

theorem mapM_text?_bytes (written : List String) :
    (written.map bytes).mapM text? = some written := by
  induction written with
  | nil => rfl
  | cons s rest ih =>
    rw [List.map_cons, List.mapM_cons, text?_bytes, ih]
    rfl

/-- The texts of fields are those that were written, without the blanks around them. -/
theorem texts_of_fields {row : Row} {written : List String} (h : row.fields = written.map bytes) :
    row.texts = .ok (written.map trim) := by
  rw [Row.texts, h, mapM_text?_bytes]

/-- Under a header, the fields of a row get the names of its columns. -/
theorem nameFields_of_fields {columns : List (Column ρ)} {a : ρ} {row : Row}
    (h : row.fields = (columns.map fun c => c.field a).map bytes) :
    nameFields ((columns.map Column.name).map trim) row =
      .ok ⟨row.line, columns.map fun c => (trim c.name, trim (c.field a))⟩ := by
  have hlength : row.fields.length = ((columns.map Column.name).map trim).length := by
    rw [h]
    simp only [List.length_map]
  have hzip : ((columns.map Column.name).map trim).zip ((columns.map fun c => c.field a).map trim) =
      columns.map fun c => (trim c.name, trim (c.field a)) := by
    simp only [List.map_map, List.zip_map', Function.comp_def]
  rw [nameFields, if_neg (not_not_intro hlength), texts_of_fields h]
  exact congrArg (fun named => Except.ok (NamedRow.mk row.line named)) hzip

/-- If there is one column of a name, the cell of that name is the field in it. -/
theorem cell_of_filter {columns : List (Column ρ)} {name : String} {c : Column ρ}
    (h : (columns.filter fun other => trim other.name == name) = [c]) (a : ρ) :
    cell name (columns.map fun c => (trim c.name, trim (c.field a))) =
      .field (trim (c.field a)) := by
  have hfilter : ((columns.map fun c => (trim c.name, trim (c.field a))).filter
      fun column => column.1 == name) = [(trim c.name, trim (c.field a))] := by
    rw [List.filter_map, Function.comp_def, h]
    rfl
  rw [cell, hfilter]

end Csv

namespace Transcript

open Csv

variable {ρ : Type}

/-- Digits are no hexadecimal number. -/
theorem readId?_trim_toString (n : UInt64) : readId? (trim (toString n.toNat)) = some n := by
  rw [trim_toString, readId?]
  split
  · rename_i digits heq
    have hdigit : 'x'.isDigit = true := by
      refine isDigit_of_mem_toDigits (n := n.toNat) ?_
      rw [Nat.toString_eq_ofList_toDigits, String.toList_ofList] at heq
      rw [heq]
      exact List.mem_cons_of_mem _ List.mem_cons_self
    exact absurd hdigit (by decide)
  · exact readUInt64?_toString n

/-- What rows say: a student, a course, a semester and a status. -/
structure Contents (ρ : Type) where
  student : ρ → StudentId
  course : ρ → CourseId
  semester : ρ → String
  status : ρ → String

/-- The names of the columns that a transcript needs. -/
def columnNames : List String :=
  ["student_id", "course_id", "semester", "status"]

theorem trim_of_mem_columnNames : ∀ name ∈ columnNames, trim name = name := by
  decide +kernel

namespace Contents

variable (c : Contents ρ)

/-- The columns that a transcript needs, ids written in decimal. -/
def columns : List (Column ρ) :=
  [⟨"student_id", fun a => toString (c.student a).toNat⟩,
    ⟨"course_id", fun a => toString (c.course a).toNat⟩,
    ⟨"semester", c.semester⟩, ⟨"status", c.status⟩]

/-- An entry says what a row does, blanks around texts left out and a semester of blanks being
unspecified. -/
structure Says (a : ρ) (e : TranscriptEntry) : Prop where
  student : e.student = c.student a
  course : e.course = c.course a
  semester : e.semester =
    if trim (c.semester a) = "" then unspecified else trim (c.semester a)
  status : e.status = trim (c.status a)

/-- The needed columns have different names. -/
theorem filter_columns : ∀ own ∈ c.columns, own.name ∈ columnNames ∧
    (c.columns.filter fun other => trim other.name == own.name) = [own] := by
  have htrim := trim_of_mem_columnNames
  simp only [columnNames, List.forall_mem_cons] at htrim
  obtain ⟨hstudent, hcourse, hsemester, hstatus, -⟩ := htrim
  intro own hown
  simp only [columns, List.mem_cons, List.not_mem_nil, or_false] at hown
  rcases hown with rfl | rfl | rfl | rfl <;>
    simp [columns, columnNames, hstudent, hcourse, hsemester, hstatus]

end Contents

/-- A way to write rows as a transcript: the needed columns and further ones, in some order, and how
each row is ended. -/
structure Layout (c : Contents ρ) where
  further : List (Column ρ)
  further_unused : ∀ other ∈ further, trim other.name ∉ columnNames
  columns : List (Column ρ)
  columns_perm : columns.Perm (c.columns ++ further)
  headerEnd : RowEnd
  rowEnd : ρ → RowEnd

namespace Layout

variable {c : Contents ρ} (l : Layout c)

/-- The table of some rows, header first. -/
def table (rows : List ρ) : List (List String × RowEnd) :=
  (l.columns.map Column.name, l.headerEnd) ::
    rows.map fun a => (l.columns.map fun column => column.field a, l.rowEnd a)

/-- Writes rows as a transcript. -/
def write (rows : List ρ) : Bytes :=
  bytes (quoteTable (l.table rows))

/-- Every needed column is the only one of its name, and is found by it. -/
theorem cell_of_mem_columns (a : ρ) : ∀ own ∈ c.columns,
    cell own.name (l.columns.map fun column => (trim column.name, trim (column.field a))) =
      .field (trim (own.field a)) := by
  intro own hmem
  obtain ⟨hname, hown⟩ := c.filter_columns own hmem
  have hfurther : (l.further.filter fun other => trim other.name == own.name) = [] := by
    rw [List.filter_eq_nil_iff]
    intro other hother heq
    exact l.further_unused other hother (beq_iff_eq.mp heq ▸ hname)
  have hperm := l.columns_perm.filter fun other => trim other.name == own.name
  rw [List.filter_append, hown, hfurther, List.append_nil] at hperm
  exact cell_of_filter (List.perm_singleton.mp hperm) a

theorem columns_ne_nil : l.columns ≠ [] := by
  intro hnil
  have hlength := l.columns_perm.length_eq
  rw [hnil, List.length_append, Contents.columns] at hlength
  simp only [List.length_nil, List.length_cons] at hlength
  omega

/-- The row that is read back says what the row does that was written. -/
theorem exists_entry (a : ρ) (line : Nat) :
    ∃ e, entry? ⟨line, l.columns.map fun column =>
        (trim column.name, trim (column.field a))⟩ = some e ∧ c.Says a e := by
  have hcells := l.cell_of_mem_columns a
  simp only [Contents.columns, List.forall_mem_cons] at hcells
  obtain ⟨hstudent, hcourse, hsemester, hstatus, -⟩ := hcells
  simp only [text?, entry?, hstudent, hcourse, hsemester, hstatus, semester?,
    Option.bind_eq_bind, Option.bind_some, readId?_trim_toString, isBlankText_trim]
  exact ⟨_, rfl, rfl, rfl, rfl, rfl⟩

/-- Rows that have the fields written for some others have entries that say what those do. -/
theorem exists_entries {data : List Row} {rows : List ρ} (h : data.map Row.fields =
      rows.map fun a => (l.columns.map fun column => column.field a).map bytes) :
    ∃ entries, List.Forall₂ (Row.Has entry? ((l.columns.map Column.name).map trim)) data entries ∧
      List.Forall₂ c.Says rows entries := by
  induction rows generalizing data with
  | nil =>
    obtain rfl := List.map_eq_nil_iff.mp h
    exact ⟨[], .nil, .nil⟩
  | cons a rest ih =>
    obtain ⟨row, others, rfl, hrow, hothers⟩ := List.map_eq_cons_iff.mp h
    obtain ⟨e, hentry, hsays⟩ := l.exists_entry a row.line
    obtain ⟨entries, hentries, hrest⟩ := ih hothers
    exact ⟨e :: entries, .cons ⟨_, nameFields_of_fields hrow, hentry⟩ hentries, .cons hsays hrest⟩

/-- **Rows that are written are read back.**  Whatever the order of the columns, whatever stands in
further columns and whichever way rows are ended, there is an entry a row, in order, and it says
what the row does: the same ids, the semester and the status without the blanks around them, and
a semester of blanks as unspecified. -/
theorem written_rows_are_read_back (rows : List ρ) :
    ∃ entries, Transcript.read (l.write rows) = .ok entries ∧
      List.Forall₂ c.Says rows entries := by
  have hfields : ∀ row ∈ l.table rows, row.1 ≠ [] := by
    refine List.forall_mem_cons.mpr ⟨?_, List.forall_mem_map.mpr fun a _ => ?_⟩
    · exact fun h => l.columns_ne_nil (List.map_eq_nil_iff.mp h)
    · exact fun h => l.columns_ne_nil (List.map_eq_nil_iff.mp h)
  obtain ⟨header, data, hsplit, hheader, hdata⟩ :=
    List.map_eq_cons_iff.mp (fields_rows_quoteTable hfields)
  rw [List.map_map] at hdata
  obtain ⟨entries, hentries, hsays⟩ := l.exists_entries hdata
  refine ⟨entries, read_eq_ok_iff.mpr ?_, hsays⟩
  rw [write, Lists, hsplit]
  exact ⟨_, texts_of_fields hheader, hentries⟩

/-- The columns come in reverse behind one that nobody asks for, a semester is blank and a status
has quotes, a comma and a line break inside it. -/
theorem written_rows_are_read_back_of_reversed_columns :
    let c : Contents Bool :=
      ⟨fun _ => 9, fun a => if a then 1 else 2, fun a => if a then " F1" else "\t",
        fun a => if a then "completed" else "\"so,\nto say\" "⟩
    ∃ l : Layout c, l.columns.map Column.name =
        [" note", "status", "semester", "course_id", "student_id"] ∧
      ∃ first second, Transcript.read (l.write [true, false]) = .ok [first, second] ∧
        first.semester = "F1" ∧ second.semester = unspecified ∧
        second.status = "\"so,\nto say\"" := by
  intro c
  let further : List (Column Bool) := [⟨" note", fun _ => "\""⟩]
  let l : Layout c :=
    ⟨further, by decide +kernel, (c.columns ++ further).reverse, List.reverse_perm _, .both,
      fun a => if a then .lineFeed else .both⟩
  obtain ⟨entries, hread, hsays⟩ := l.written_rows_are_read_back [true, false]
  obtain ⟨first, _, hfirst, hrest, rfl⟩ := List.forall₂_cons_left_iff.mp hsays
  obtain ⟨second, _, hsecond, hnone, rfl⟩ := List.forall₂_cons_left_iff.mp hrest
  obtain rfl := List.forall₂_nil_left_iff.mp hnone
  refine ⟨l, by decide, first, second, hread, ?_, ?_, ?_⟩
  · exact hfirst.semester.trans (by decide +kernel)
  · exact hsecond.semester.trans (by decide +kernel)
  · exact hsecond.status.trans (by decide +kernel)

end Layout

end Transcript

end Registrar
