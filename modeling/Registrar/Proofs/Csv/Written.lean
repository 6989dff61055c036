import Registrar.Csv.Rows
import Registrar.Proofs.Text.Utf8

/-!
# Tables written in quotes

`quoteTable` writes rows of fields, every field in quotes.  Whatever stands in a field, the scanner
finds it again: inside quotes commas and line breaks are ordinary bytes, and a quote is written
twice (`rowsAfter_doubled`).  So the rows of a written table have the fields that were written
(`fields_rows_quoteTable`), whichever way each of them is ended.
-/

namespace Registrar.Csv

open Text

/-! ### Writing -/

/-- The ways to end a row. -/
inductive RowEnd where
  | lineFeed
  /-- A carriage return and a line feed. -/
  | both
  deriving DecidableEq, Repr

/-- What ends the row. -/
def RowEnd.text : RowEnd → String
  | .lineFeed => "\n"
  | .both => "\r\n"

/-- A character as it is written inside quotes. -/
def doubledQuote (c : Char) : String :=
  if c = '"' then "\"\"" else c.toString

/-- A field in quotes. -/
def quoteField (s : String) : String :=
  "\"" ++ String.join (s.toList.map doubledQuote) ++ "\""

/-- Fields in quotes, with commas between them. -/
def quoteFields : List String → String
  | [] => ""
  | [s] => quoteField s
  | s :: t :: rest => quoteField s ++ "," ++ quoteFields (t :: rest)

/-- Rows of fields in quotes, each with what ends it. -/
def quoteTable (rows : List (List String × RowEnd)) : String :=
  String.join (rows.map fun row => quoteFields row.1 ++ row.2.text)

/-! ### Bytes -/

/-- Bytes as they are written inside quotes. -/
def doubled (bs : Bytes) : Bytes :=
  bs.flatMap fun b => if b = 0x22 then [0x22, 0x22] else [b]

theorem ne_quote_of_mem_utf8EncodeChar {c : Char} (h : c ≠ '"') {b : UInt8}
    (hb : b ∈ String.utf8EncodeChar c) : b ≠ 0x22 := by
  rintro rfl
  by_cases hascii : c.toNat < 0x80
  · rw [utf8EncodeChar_of_lt hascii, List.mem_singleton] at hb
    have htoNat : c.toNat = ('"' : Char).toNat := by
      rw [← toNat_asciiByte hascii, ← hb]
      rfl
    exact h (Char.toNat_inj.mp htoNat)
  · exact absurd (le_of_mem_utf8EncodeChar (Nat.not_lt.mp hascii) hb) (by decide)

theorem bytes_doubledQuote (c : Char) :
    bytes (doubledQuote c) = doubled (String.utf8EncodeChar c) := by
  unfold doubledQuote
  split_ifs with h
  · subst h
    decide
  · have hsingle : doubled (String.utf8EncodeChar c) =
        (String.utf8EncodeChar c).flatMap fun b => [b] :=
      List.flatMap_congr fun b hb => if_neg (ne_quote_of_mem_utf8EncodeChar h hb)
    rw [bytes_toString_char, hsingle, List.flatMap_singleton']

theorem bytes_quoteField (s : String) :
    bytes (quoteField s) = 0x22 :: (doubled (bytes s) ++ [0x22]) := by
  have hquote : bytes "\"" = [0x22] := rfl
  have hinner : bytes (String.join (s.toList.map doubledQuote)) = doubled (bytes s) := by
    rw [bytes_join, List.flatMap_map, bytes_eq_flatMap s, doubled, List.flatMap_assoc]
    exact List.flatMap_congr fun c _ => bytes_doubledQuote c
  rw [quoteField, bytes_append, bytes_append, hinner, hquote]
  rfl

/-- Written fields begin with a quote. -/
theorem exists_bytes_quoteFields {written : List String} (hwritten : written ≠ []) :
    ∃ more, bytes (quoteFields written) = 0x22 :: more := by
  match written with
  | [] => exact absurd rfl hwritten
  | [s] => exact ⟨_, bytes_quoteField s⟩
  | s :: t :: others =>
    refine ⟨doubled (bytes s) ++ [0x22] ++ (bytes "," ++ bytes (quoteFields (t :: others))), ?_⟩
    simp only [quoteFields, bytes_append, bytes_quoteField, List.cons_append, List.append_assoc]

/-- A written table has no byte order mark. -/
theorem withoutMark_quoteTable {table : List (List String × RowEnd)}
    (hfields : ∀ row ∈ table, row.1 ≠ []) :
    withoutMark (bytes (quoteTable table)) = bytes (quoteTable table) := by
  cases table with
  | nil => rfl
  | cons row rest =>
    obtain ⟨more, hmore⟩ := exists_bytes_quoteFields (hfields row List.mem_cons_self)
    rw [quoteTable, List.map_cons, String.join_cons, bytes_append, bytes_append, hmore]
    rfl

/-! ### Scanning -/

namespace Scan

variable (found : List Row) (field : Bytes) (fields : List Bytes) (line reached : Nat)
  {place : Place}

/-- Inside quotes a byte is added to the field as it was before it was written. -/
theorem rowsAfter_written (b : UInt8) (rest : Bytes) :
    rowsAfter found ⟨.quoted, field, fields, line, reached⟩
        ((if b = 0x22 then [0x22, 0x22] else [b]) ++ rest) =
      rowsAfter found
        ⟨.quoted, b :: field, fields, line, if b = 0x0A then reached + 1 else reached⟩ rest := by
  by_cases hquote : b = 0x22
  · subst hquote
    rfl
  · rw [if_neg hquote, List.singleton_append, rowsAfter]
    by_cases hfeed : b = 0x0A
    · subst hfeed
      rfl
    · simp only [step, beq_iff_eq, hquote, hfeed, if_false]
      rfl

/-- Inside quotes all bytes that were written are added to the field, and line feeds count. -/
theorem rowsAfter_doubled (bs rest : Bytes) :
    rowsAfter found ⟨.quoted, field, fields, line, reached⟩ (doubled bs ++ rest) =
      rowsAfter found ⟨.quoted, bs.reverse ++ field, fields, line, reached + bs.count 0x0A⟩
        rest := by
  induction bs generalizing field reached with
  | nil => rfl
  | cons b bs ih =>
    have hsplit : doubled (b :: bs) ++ rest =
        (if b = 0x22 then [0x22, 0x22] else [b]) ++ (doubled bs ++ rest) := by
      rw [doubled, List.flatMap_cons, List.append_assoc]
      rfl
    rw [hsplit, rowsAfter_written, ih, List.reverse_cons, List.append_assoc, List.count_cons]
    split_ifs <;> simp_all [Nat.add_assoc, Nat.add_comm]

/-- Where a field begins, one in quotes is taken as a whole. -/
theorem rowsAfter_quoteField (hplace : place = .rowStart ∨ place = .fieldStart) (s : String)
    (rest : Bytes) :
    rowsAfter found ⟨place, [], fields, line, reached⟩ (bytes (quoteField s) ++ rest) =
      rowsAfter found
        ⟨.quoteSeen, (bytes s).reverse, fields, line, reached + (bytes s).count 0x0A⟩ rest := by
  have hopen : rowsAfter found ⟨place, [], fields, line, reached⟩ (bytes (quoteField s) ++ rest) =
      rowsAfter found ⟨.quoted, [], fields, line, reached⟩
        (doubled (bytes s) ++ (0x22 :: rest)) := by
    rw [bytes_quoteField, List.cons_append, List.append_assoc]
    rcases hplace with rfl | rfl <;> rfl
  rw [hopen, rowsAfter_doubled, List.append_nil]
  rfl

/-- A comma behind the closing quote ends the field. -/
theorem rowsAfter_comma (rest : Bytes) :
    rowsAfter found ⟨.quoteSeen, field, fields, line, reached⟩ (0x2C :: rest) =
      rowsAfter found ⟨.fieldStart, [], field.reverse :: fields, line, reached⟩ rest :=
  rfl

/-- Where a row ends, it is found, and the next one begins. -/
theorem exists_rowsAfter_rowEnd (rowEnd : RowEnd) (rest : Bytes) : ∃ line' reached',
    rowsAfter found ⟨.quoteSeen, field, fields, line, reached⟩ (bytes rowEnd.text ++ rest) =
      rowsAfter (⟨line, (field.reverse :: fields).reverse⟩ :: found)
        ⟨.rowStart, [], [], line', reached'⟩ rest := by
  cases rowEnd with
  | lineFeed => exact ⟨reached + 1, reached + 1, rfl⟩
  -- The row ends at the carriage return, and the line feed is skipped before the next.
  | both => exact ⟨reached, reached + 1, rfl⟩

/-- Where a row or a further field begins, the fields that are written are the rest of the row. -/
theorem exists_rowsAfter_quoteFields (hplace : place = .rowStart ∨ place = .fieldStart)
    {written : List String} (hwritten : written ≠ []) (rowEnd : RowEnd) (rest : Bytes) :
    ∃ line' reached',
      rowsAfter found ⟨place, [], fields, line, reached⟩
          (bytes (quoteFields written ++ rowEnd.text) ++ rest) =
        rowsAfter (⟨line, fields.reverse ++ written.map bytes⟩ :: found)
          ⟨.rowStart, [], [], line', reached'⟩ rest := by
  induction written generalizing place fields reached with
  | nil => exact absurd rfl hwritten
  | cons s others ih =>
    -- The last field is ended by the line end, and any other by a comma.
    cases others with
    | nil =>
      obtain ⟨line', reached', hend⟩ := exists_rowsAfter_rowEnd found (bytes s).reverse fields
        line (reached + (bytes s).count 0x0A) rowEnd rest
      refine ⟨line', reached', ?_⟩
      rw [quoteFields, bytes_append, List.append_assoc, rowsAfter_quoteField _ _ _ _ hplace, hend]
      simp
    | cons t others =>
      obtain ⟨line', reached', hothers⟩ := ih (bytes s :: fields)
        (reached + (bytes s).count 0x0A) (Or.inr rfl) (List.cons_ne_nil t others)
      have hsplit : bytes (quoteFields (s :: t :: others) ++ rowEnd.text) ++ rest =
          bytes (quoteField s) ++
            (0x2C :: (bytes (quoteFields (t :: others) ++ rowEnd.text) ++ rest)) := by
        have hcomma : bytes "," = [0x2C] := rfl
        simp only [quoteFields, bytes_append, hcomma, List.append_assoc, List.cons_append,
          List.nil_append]
      refine ⟨line', reached', ?_⟩
      rw [hsplit, rowsAfter_quoteField _ _ _ _ hplace, rowsAfter_comma, List.reverse_reverse,
        hothers]
      simp

/-- From the start of a row, the rows of a written table are found one after another. -/
theorem exists_rowsAfter_quoteTable {table : List (List String × RowEnd)}
    (hfields : ∀ row ∈ table, row.1 ≠ []) :
    ∃ scanned, rowsAfter found ⟨.rowStart, [], [], line, reached⟩ (bytes (quoteTable table)) =
        found.reverse ++ scanned ∧
      scanned.map Row.fields = table.map fun row => row.1.map bytes := by
  induction table generalizing found line reached with
  | nil => exact ⟨[], by simp [quoteTable, bytes_eq_flatMap, rowsAfter, finish], rfl⟩
  | cons row rest ih =>
    obtain ⟨hrow, hrest⟩ := List.forall_mem_cons.mp hfields
    -- The first row is read up to its line end, where the scan is between rows again.
    obtain ⟨line', reached', hfirst⟩ := exists_rowsAfter_quoteFields found [] line reached
      (Or.inl rfl) hrow row.2 (bytes (quoteTable rest))
    obtain ⟨scanned, hscanned, hothers⟩ :=
      ih (⟨line, row.1.map bytes⟩ :: found) line' reached' hrest
    have hsplit : bytes (quoteTable (row :: rest)) =
        bytes (quoteFields row.1 ++ row.2.text) ++ bytes (quoteTable rest) := by
      simp only [quoteTable, List.map_cons, String.join_cons, bytes_append]
    refine ⟨⟨line, row.1.map bytes⟩ :: scanned, ?_, ?_⟩
    · rw [hsplit, hfirst, List.reverse_nil, List.nil_append, hscanned]
      simp
    · rw [List.map_cons, List.map_cons, hothers]

end Scan

/-- The rows of a table written in quotes have the fields that were written. -/
theorem fields_rows_quoteTable {table : List (List String × RowEnd)}
    (hfields : ∀ row ∈ table, row.1 ≠ []) :
    (rows (bytes (quoteTable table))).map Row.fields =
      table.map fun row => row.1.map bytes := by
  obtain ⟨scanned, hscanned, hmap⟩ := Scan.exists_rowsAfter_quoteTable [] 1 1 hfields
  rw [rows, withoutMark_quoteTable hfields, Scan.start, hscanned, List.reverse_nil,
    List.nil_append, hmap]

end Registrar.Csv
