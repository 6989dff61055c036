import Registrar.Csv.Rows
import Mathlib.Data.List.DropRight
import Mathlib.Data.List.Induction
import Mathlib.Data.List.Infix
import Mathlib.Tactic.SplitIfs

/-!
# Where rows begin

A row begins with the byte that makes the text have one row more: `BeginsBehind` says so of a row
and of the front of the text that holds the rows before it.  There is one such front for every row
below the first (`exists_beginsBehind`, `BeginsBehind.unique`).

The line of a row is not always the line that it begins on.  The front ends in a run of line ends
(`lineEnds`), of which the first one has ended the row before.  Only that one is counted: the line
feeds behind it, as the second byte of a row end or as that of an empty line, are missing from the
line of the row (`exists_beginsBehind`).

The proofs follow the scanner over the fronts of a text, one byte after another.  `linesSoFar` are
the lines of the rows that a front makes up, the unfinished one included, and a byte adds a line
exactly if a row begins with it (`linesSoFar_append_singleton`).  `Placed` is what is known of the
scanner behind a front.
-/

namespace Registrar.Csv

open Text

/-- The line ends that a text ends in. -/
def lineEnds (bs : Bytes) : Bytes :=
  bs.rtakeWhile Scan.isTerminator

/-- A line feed. -/
def lineFeed : UInt8 := 0x0A

namespace Scan

/-! ### One byte after another -/

/-- The rows that are found, the last first, and the scanner behind one more byte. -/
def advance (state : List Row × Scan) (b : UInt8) : List Row × Scan :=
  ((state.2.step b).2.toList ++ state.1, (state.2.step b).1)

/-- The rows that are found in a text, the last first, and the scanner behind it. -/
def scanned (bs : Bytes) : List Row × Scan :=
  bs.foldl advance ([], start)

theorem scanned_append_singleton (front : Bytes) (b : UInt8) :
    scanned (front ++ [b]) = advance (scanned front) b := by
  simp [scanned]

theorem rowsAfter_eq (found : List Row) (s : Scan) (bs : Bytes) :
    rowsAfter found s bs =
      ((bs.foldl advance (found, s)).2.finish.toList ++
        (bs.foldl advance (found, s)).1).reverse := by
  induction bs generalizing found s with
  | nil => rfl
  | cons b rest ih =>
    rw [rowsAfter, List.foldl_cons]
    exact ih _ _

theorem rowsAfter_start (bs : Bytes) :
    rowsAfter [] start bs = (scanned bs).1.reverse ++ (scanned bs).2.finish.toList := by
  rw [rowsAfter_eq, List.reverse_append, scanned]
  cases (List.foldl advance ([], start) bs).2.finish <;> rfl

/-- Rows that have been found stay. -/
theorem suffix_foldl_advance (state : List Row × Scan) (bs : Bytes) :
    state.1 <:+ (bs.foldl advance state).1 := by
  induction bs generalizing state with
  | nil => exact List.suffix_rfl
  | cons b rest ih =>
    have hstep : state.1 <:+ (advance state b).1 := List.suffix_append _ state.1
    exact hstep.trans (ih (advance state b))

/-- A text that goes on behind a row end has the same first rows. -/
theorem rowsAfter_prefix {front : Bytes} (h : (scanned front).2.place = .rowStart)
    (rest : Bytes) : rowsAfter [] start front <+: rowsAfter [] start (front ++ rest) := by
  have hfinish : (scanned front).2.finish = none := by rw [finish, h]
  have hfound : (scanned front).1 <:+ (scanned (front ++ rest)).1 := by
    rw [scanned, scanned, List.foldl_append]
    exact suffix_foldl_advance _ rest
  rw [rowsAfter_start, rowsAfter_start, hfinish, Option.toList_none, List.append_nil]
  exact (List.reverse_prefix.mpr hfound).trans (List.prefix_append _ _)

/-- The lines of the rows that a text makes up, the last one finished or not. -/
def linesSoFar (bs : Bytes) : List Nat :=
  (rowsAfter [] start bs).map Row.line

theorem linesSoFar_eq (bs : Bytes) :
    linesSoFar bs =
      (scanned bs).1.reverse.map Row.line ++ (scanned bs).2.finish.toList.map Row.line := by
  rw [linesSoFar, rowsAfter_start, List.map_append]

/-! ### What a byte does -/

/-- The scanner with the byte counted, if it is a line feed. -/
def counted (s : Scan) (b : UInt8) : Scan :=
  { s with reached := if b == lineFeed then s.reached + 1 else s.reached }

theorem step_eq (s : Scan) (b : UInt8) :
    s.step b =
      match s.place with
      | .rowStart =>
        if isTerminator b then (s.counted b, none) else (s.counted b).stepFieldStart b
      | .fieldStart => (s.counted b).stepFieldStart b
      | .bare => (s.counted b).stepBare b
      | .quoted =>
        if b == 0x22 then ({ s.counted b with place := .quoteSeen }, none)
        else ((s.counted b).add .quoted b, none)
      | .quoteSeen =>
        if b == 0x22 then ((s.counted b).add .quoted b, none) else (s.counted b).stepBare b := by
  have hcounted : (if b == 0x0A then { s with reached := s.reached + 1 } else s) = s.counted b := by
    unfold counted lineFeed
    split_ifs <;> rfl
  rw [step, hcounted]
  rfl

/-- What a byte does: between rows a line end is skipped; in a row it ends the row, unless it stands
inside quotes; and any other byte begins a row or goes on with it. -/
inductive Taken (s : Scan) (b : UInt8) : Scan × Option Row → Prop
  | skipped (hplace : s.place = .rowStart) (hb : isTerminator b = true) :
    Taken s b (s.counted b, none)
  | ended {row : Row} (hplace : s.place ≠ .rowStart) (hquoted : s.place ≠ .quoted)
    (hb : isTerminator b = true) (hline : row.line = s.line) :
    Taken s b ((s.counted b).endRow, some row)
  | inRow {s' : Scan} (hplace : s'.place ≠ .rowStart) (hline : s'.line = s.line)
    (hreached : s'.reached = (s.counted b).reached)
    (hb : s.place = .rowStart ∨ s'.place ≠ .quoted → isTerminator b = false) :
    Taken s b (s', none)

theorem taken_stepBare {s : Scan} {b : UInt8} (hquoted : s.place ≠ .quoted)
    (hb : s.place = .rowStart → isTerminator b = false) :
    Taken s b ((s.counted b).stepBare b) := by
  unfold stepBare
  split_ifs with hcomma hend
  · have hother : isTerminator b = false := by
      rw [beq_iff_eq.mp hcomma]
      rfl
    exact .inRow (Place.noConfusion ·) rfl rfl fun _ => hother
  · have hplace : s.place ≠ .rowStart := fun hplace => by simp [hb hplace] at hend
    exact .ended hplace hquoted hend rfl
  · exact .inRow (Place.noConfusion ·) rfl rfl fun _ => Bool.eq_false_iff.mpr hend

theorem taken_stepFieldStart {s : Scan} {b : UInt8} (hquoted : s.place ≠ .quoted)
    (hb : s.place = .rowStart → isTerminator b = false) :
    Taken s b ((s.counted b).stepFieldStart b) := by
  unfold stepFieldStart
  split_ifs with hquote
  · have hother : isTerminator b = false := by
      rw [beq_iff_eq.mp hquote]
      rfl
    exact .inRow (Place.noConfusion ·) rfl rfl fun _ => hother
  · exact taken_stepBare hquoted hb

theorem taken_step (s : Scan) (b : UInt8) : Taken s b (s.step b) := by
  rw [step_eq]
  -- One case for each place; only between rows a line end is skipped.
  cases hplace : s.place with
  | rowStart =>
    dsimp only
    split_ifs with hb
    · exact .skipped hplace hb
    · exact taken_stepFieldStart (by simp [hplace]) fun _ => Bool.eq_false_iff.mpr hb
  | fieldStart => exact taken_stepFieldStart (by simp [hplace]) (by simp [hplace])
  | bare => exact taken_stepBare (by simp [hplace]) (by simp [hplace])
  | quoted =>
    dsimp only
    split_ifs with hquote
    · have hother : isTerminator b = false := by
        rw [beq_iff_eq.mp hquote]
        rfl
      exact .inRow (Place.noConfusion ·) rfl rfl fun _ => hother
    · -- Inside quotes a line end is a byte like any other.
      exact .inRow (Place.noConfusion ·) rfl rfl fun h => by simp [hplace, add] at h
  | quoteSeen =>
    dsimp only
    split_ifs with hquote
    · exact .inRow (Place.noConfusion ·) rfl rfl fun h => by simp [hplace, add] at h
    · exact taken_stepBare (by simp [hplace]) (by simp [hplace])

/-! ### The lines that a byte adds -/

/-- A row is unfinished except in front of the first byte of a row. -/
theorem map_line_finish (s : Scan) :
    s.finish.toList.map Row.line = if s.place = .rowStart then [] else [s.line] := by
  unfold finish
  cases s.place <;> rfl

/-- The lines of the row that a byte ends and of the one that it leaves unfinished: that of the row
it stands in. -/
theorem map_line_step (s : Scan) (b : UInt8) :
    (s.step b).2.toList.map Row.line ++ (s.step b).1.finish.toList.map Row.line =
      if s.place = .rowStart ∧ isTerminator b = true then [] else [s.line] := by
  have htaken := taken_step s b
  generalize s.step b = outcome at htaken ⊢
  simp only [map_line_finish]
  cases htaken with
  | skipped hplace hb =>
    have hplace' : (s.counted b).place = .rowStart := hplace
    simp [hplace, hplace', hb]
  | ended hplace hquoted hb hline =>
    have hplace' : (s.counted b).endRow.place = .rowStart := rfl
    simp [hplace, hplace', hline]
  | inRow hplace hline hreached hb =>
    -- In a row no line end is skipped, as the first byte of a row ends no line.
    have hbegins : ¬ (s.place = .rowStart ∧ isTerminator b = true) := by
      rintro ⟨hstart, hend⟩
      simp [hb (Or.inl hstart)] at hend
    simp [hplace, hbegins, hline]

/-- A row begins with the byte behind a front. -/
def Begins (front : Bytes) (b : UInt8) : Prop :=
  (scanned front).2.place = .rowStart ∧ isTerminator b = false

instance (front : Bytes) (b : UInt8) : Decidable (Begins front b) :=
  inferInstanceAs (Decidable (_ ∧ _))

/-- A byte adds the line of the row that begins with it, if one does. -/
theorem linesSoFar_append_singleton (front : Bytes) (b : UInt8) :
    linesSoFar (front ++ [b]) =
      if Begins front b then linesSoFar front ++ [(scanned front).2.line]
      else linesSoFar front := by
  have hstep := map_line_step (scanned front).2 b
  have hafter : linesSoFar (front ++ [b]) = (scanned front).1.reverse.map Row.line ++
      (((scanned front).2.step b).2.toList.map Row.line ++
        ((scanned front).2.step b).1.finish.toList.map Row.line) := by
    rw [linesSoFar_eq, scanned_append_singleton, advance]
    cases ((scanned front).2.step b).2 <;> simp
  rw [hafter, hstep, linesSoFar_eq, map_line_finish]
  by_cases hplace : (scanned front).2.place = .rowStart
  · cases hb : isTerminator b <;> simp [Begins, hplace, hb]
  · simp [Begins, hplace]

theorem length_linesSoFar_append_singleton (front : Bytes) (b : UInt8) :
    (linesSoFar (front ++ [b])).length =
      (linesSoFar front).length + if Begins front b then 1 else 0 := by
  rw [linesSoFar_append_singleton]
  split_ifs
  · rw [List.length_append, List.length_singleton]
  · rfl

/-- More bytes make up no fewer rows. -/
theorem length_linesSoFar_le_append (front rest : Bytes) :
    (linesSoFar front).length ≤ (linesSoFar (front ++ rest)).length := by
  induction rest using List.reverseRecOn with
  | nil => rw [List.append_nil]
  | append_singleton rest b ih =>
    rw [← List.append_assoc, length_linesSoFar_append_singleton]
    omega

/-- Every row begins with some byte, and has the line at which the scanner stands there. -/
theorem exists_begins {bs : Bytes} {i line : Nat} (h : (linesSoFar bs)[i]? = some line) :
    ∃ front b rest, bs = front ++ b :: rest ∧ Begins front b ∧
      (linesSoFar front).length = i ∧ (scanned front).2.line = line := by
  induction bs using List.reverseRecOn with
  | nil => exact absurd h (by simp [linesSoFar, rowsAfter, finish, start])
  | append_singleton front b ih =>
    -- A row that was there before the last byte begins where it did.
    have hearlier (hfound : (linesSoFar front)[i]? = some line) :
        ∃ front' b' rest, front ++ [b] = front' ++ b' :: rest ∧ Begins front' b' ∧
          (linesSoFar front').length = i ∧ (scanned front').2.line = line := by
      obtain ⟨front', b', rest, rfl, hbegins, hlength, hline⟩ := ih hfound
      exact ⟨front', b', rest ++ [b], by simp, hbegins, hlength, hline⟩
    rw [linesSoFar_append_singleton] at h
    split_ifs at h with hbegins
    · rcases Nat.lt_or_ge i (linesSoFar front).length with hi | hi
      · exact hearlier (by rwa [List.getElem?_append_left hi] at h)
      · -- The row is the one that begins with the last byte.
        rw [List.getElem?_append_right hi, List.getElem?_singleton] at h
        split_ifs at h with hzero
        exact ⟨front, b, [], rfl, hbegins, by omega, Option.some.inj h⟩
    · exact hearlier h

/-! ### Line feeds and line ends -/

/-- What is known of the scanner behind a front.  It has counted the line feeds; at the start of a
row it stands behind line ends, of which it has counted the first one for the row; and in a row it
stands behind another byte, unless it is inside quotes. -/
structure Placed (front : Bytes) (found : List Row) (s : Scan) : Prop where
  reached : s.reached = 1 + front.count lineFeed
  rowStart : s.place = .rowStart → found ≠ [] → lineEnds front ≠ [] ∧
    s.line + (lineEnds front).tail.count lineFeed = 1 + front.count lineFeed
  inRow : s.place ≠ .rowStart → s.place ≠ .quoted → lineEnds front = []

theorem lineEnds_append_of_terminator {b : UInt8} (h : isTerminator b = true) (front : Bytes) :
    lineEnds (front ++ [b]) = lineEnds front ++ [b] :=
  List.rtakeWhile_concat_pos _ _ _ h

theorem lineEnds_append_of_other {b : UInt8} (h : isTerminator b = false) (front : Bytes) :
    lineEnds (front ++ [b]) = [] :=
  List.rtakeWhile_concat_neg _ _ _ (by simp [h])

theorem reached_counted (s : Scan) (b : UInt8) :
    (s.counted b).reached = s.reached + [b].count lineFeed := by
  unfold counted
  rw [List.count_singleton]
  split_ifs <;> rfl

/-- One more byte is counted, and the line ends go on with it or start anew. -/
theorem Placed.step {front : Bytes} {found : List Row} {s : Scan} (h : Placed front found s)
    (b : UInt8) :
    Placed (front ++ [b]) ((s.step b).2.toList ++ found) (s.step b).1 := by
  have hreached : (s.counted b).reached = 1 + (front ++ [b]).count lineFeed := by
    rw [reached_counted, h.reached, List.count_append, Nat.add_assoc]
  have htaken := taken_step s b
  generalize s.step b = outcome at htaken ⊢
  cases htaken with
  | skipped hplace hb =>
    refine ⟨hreached, fun _ hfound => ?_, fun hrow => absurd hplace hrow⟩
    -- A line end that is skipped stands behind another one, whose row is over.
    obtain ⟨hends, hline⟩ := h.rowStart hplace hfound
    have hline' : (s.counted b).line = s.line := rfl
    rw [lineEnds_append_of_terminator hb, List.tail_append_of_ne_nil hends, List.count_append,
      List.count_append, hline']
    exact ⟨by simp, by omega⟩
  | ended hplace hquoted hb hline =>
    have hends : lineEnds (front ++ [b]) = [b] := by
      rw [lineEnds_append_of_terminator hb, h.inRow hplace hquoted, List.nil_append]
    refine ⟨hreached, fun _ _ => ?_, fun hrow => absurd rfl hrow⟩
    rw [hends]
    exact ⟨List.cons_ne_nil b [], hreached⟩
  | inRow hplace hline hsame hb =>
    refine ⟨hsame.trans hreached, fun hstart => absurd hstart hplace, fun _ hquoted => ?_⟩
    exact lineEnds_append_of_other (hb (Or.inr hquoted)) front

theorem placed_scanned (front : Bytes) : Placed front (scanned front).1 (scanned front).2 := by
  induction front using List.reverseRecOn with
  | nil => exact ⟨rfl, fun _ hfound => absurd rfl hfound, fun _ _ => rfl⟩
  | append_singleton front b ih =>
    rw [scanned_append_singleton]
    exact ih.step b

/-- The line of a row that is not the first one. -/
theorem line_of_rowStart {front : Bytes} (hplace : (scanned front).2.place = .rowStart)
    (hrows : linesSoFar front ≠ []) :
    (scanned front).2.line + (lineEnds front).tail.count lineFeed = 1 + front.count lineFeed := by
  have hfound : (scanned front).1 ≠ [] := by
    intro hnone
    refine hrows ?_
    rw [linesSoFar_eq, map_line_finish, hnone, if_pos hplace]
    rfl
  exact ((placed_scanned front).rowStart hplace hfound).2

end Scan

/-! ### Rows and the fronts that they begin behind -/

/-- Behind a front of the text begins the row with an index: the front has the rows before it and no
other, and with the next byte there is one row more. -/
def BeginsBehind (bs : Bytes) (i : Nat) (front : Bytes) : Prop :=
  ∃ b rest, bs = front ++ b :: rest ∧ rows front = (rows bs).take i ∧
    (rows (front ++ [b])).length = i + 1

theorem map_line_rows (bs : Bytes) : (rows bs).map Row.line = Scan.linesSoFar (withoutMark bs) :=
  rfl

theorem length_rows (bs : Bytes) :
    (rows bs).length = (Scan.linesSoFar (withoutMark bs)).length := by
  rw [← map_line_rows, List.length_map]

/-- A byte order mark. -/
def byteOrderMark : Bytes := [0xEF, 0xBB, 0xBF]

theorem withoutMark_eq_self {bs : Bytes} (h : ¬ byteOrderMark <+: bs) :
    withoutMark bs = bs :=
  withoutMark.eq_2 bs fun rest hbs => h ⟨rest, hbs.symm⟩

/-- A text goes on behind its mark, unless it breaks off inside of it. -/
theorem withoutMark_append (front rest : Bytes) :
    withoutMark (front ++ rest) = withoutMark front ++ rest ∨ (rows front).length ≤ 1 := by
  by_cases hfront : byteOrderMark <+: front
  · obtain ⟨more, rfl⟩ := hfront
    exact Or.inl rfl
  · by_cases hwhole : byteOrderMark <+: front ++ rest
    · have hbroken : front <+: byteOrderMark :=
        (List.prefix_or_prefix_of_prefix (List.prefix_append front rest) hwhole).resolve_right
          hfront
      -- No part of a mark ends a row.
      have hfew : ∀ part ∈ byteOrderMark.inits, (rows part).length ≤ 1 := by decide
      exact Or.inr (hfew front ((List.mem_inits front byteOrderMark).mpr hbroken))
    · rw [withoutMark_eq_self hfront, withoutMark_eq_self hwhole]
      exact Or.inl rfl

/-- A text is made up of a mark, or of nothing, and of the text without its mark, and so is every
front of it that goes beyond the mark. -/
theorem exists_mark (bs : Bytes) :
    ∃ mark, bs = mark ++ withoutMark bs ∧ lineFeed ∉ mark ∧ lineEnds mark = [] ∧
      ∀ front, front <+: withoutMark bs → withoutMark (mark ++ front) = front := by
  by_cases hmark : byteOrderMark <+: bs
  · obtain ⟨rest, rfl⟩ := hmark
    exact ⟨byteOrderMark, rfl, by decide, by decide, fun _ _ => rfl⟩
  · have hsame : withoutMark bs = bs := withoutMark_eq_self hmark
    refine ⟨[], hsame.symm, List.not_mem_nil, rfl, fun front hfront => ?_⟩
    exact withoutMark_eq_self fun h => hmark (h.trans (hsame ▸ hfront))

/-- A text that goes on has no fewer rows, once it has more than one. -/
theorem length_rows_le_append {front : Bytes} (h : 1 < (rows front).length) (rest : Bytes) :
    (rows front).length ≤ (rows (front ++ rest)).length := by
  rcases withoutMark_append front rest with hmark | hfew
  · rw [length_rows, length_rows, hmark]
    exact Scan.length_linesSoFar_le_append _ _
  · omega

/-- The line ends of a text that begins with another one are its own, unless it is made up of
line ends. -/
theorem lineEnds_append {mark : Bytes} (hmark : lineEnds mark = []) (front : Bytes) :
    lineEnds (mark ++ front) = lineEnds front := by
  induction front using List.reverseRecOn with
  | nil => rw [List.append_nil, hmark]; rfl
  | append_singleton front b ih =>
    rw [← List.append_assoc]
    cases hb : Scan.isTerminator b with
    | true => rw [Scan.lineEnds_append_of_terminator hb, Scan.lineEnds_append_of_terminator hb, ih]
    | false => rw [Scan.lineEnds_append_of_other hb, Scan.lineEnds_append_of_other hb]

variable {bs front : Bytes} {i line : Nat}

/-- Every row below the first begins behind a front of the text, and its line misses the line feeds
behind the first of the line ends there. -/
theorem exists_beginsBehind (hi : 0 < i) (h : ((rows bs).map Row.line)[i]? = some line) :
    ∃ front, BeginsBehind bs i front ∧
      line + (lineEnds front).tail.count lineFeed = 1 + front.count lineFeed := by
  obtain ⟨mark, hbs, hfeed, hends, hfront⟩ := exists_mark bs
  rw [map_line_rows] at h
  obtain ⟨front, b, rest, hsplit, hbegins, hlength, hline⟩ := Scan.exists_begins h
  -- Scanning starts behind the mark, and so do the two fronts.
  have hbefore : withoutMark (mark ++ front) = front := hfront front ⟨b :: rest, hsplit.symm⟩
  have hbehind : withoutMark (mark ++ (front ++ [b])) = front ++ [b] :=
    hfront (front ++ [b]) ⟨rest, by rw [hsplit, List.append_assoc]; rfl⟩
  refine ⟨mark ++ front, ⟨b, rest, ?_, ?_, ?_⟩, ?_⟩
  · rw [hbs, hsplit, List.append_assoc]
  · -- The rows of a front are the first rows of the whole.
    have hprefix : rows (mark ++ front) <+: rows bs := by
      rw [rows, rows, hbefore, hsplit]
      exact Scan.rowsAfter_prefix hbegins.1 (b :: rest)
    have hrows : (rows (mark ++ front)).length = i := by rw [length_rows, hbefore, hlength]
    rw [List.prefix_iff_eq_take.mp hprefix, hrows]
  · rw [length_rows, List.append_assoc, hbehind, Scan.length_linesSoFar_append_singleton, hlength,
      if_pos hbegins]
  · have hrows : Scan.linesSoFar front ≠ [] := List.ne_nil_of_length_pos (by omega)
    have hplaced := Scan.line_of_rowStart hbegins.1 hrows
    have hnone : mark.count lineFeed = 0 := List.count_eq_zero.mpr hfeed
    rw [lineEnds_append hends, List.count_append, hnone, ← hline]
    omega

/-- Of two fronts of a text that a row begins behind, none is longer. -/
theorem BeginsBehind.length_le {front' : Bytes} (hi : 0 < i) (h : BeginsBehind bs i front)
    (h' : BeginsBehind bs i front') : front'.length ≤ front.length := by
  obtain ⟨b, rest, hbs, -, hmore⟩ := h
  obtain ⟨b', rest', hbs', hrows', -⟩ := h'
  by_contra hlonger
  -- The longer one has the byte with which the row begins, and so has the row.
  have hfront : front ++ [b] <+: bs := ⟨rest, by rw [hbs, List.append_assoc]; rfl⟩
  have hlength : (front ++ [b]).length ≤ front'.length := by
    rw [List.length_append, List.length_singleton]
    omega
  obtain ⟨between, hbetween⟩ : front ++ [b] <+: front' :=
    List.prefix_of_prefix_length_le hfront ⟨b' :: rest', hbs'.symm⟩ hlength
  have hmany : 1 < (rows (front ++ [b])).length := by omega
  have hle := length_rows_le_append hmany between
  have hfew : (rows front').length ≤ i := by
    rw [hrows']
    exact List.length_take_le i (rows bs)
  rw [hbetween, hmore] at hle
  omega

/-- A row below the first begins behind one front only. -/
theorem BeginsBehind.unique {front' : Bytes} (hi : 0 < i) (h : BeginsBehind bs i front)
    (h' : BeginsBehind bs i front') : front = front' := by
  have hlength : front.length = front'.length :=
    Nat.le_antisymm (h'.length_le hi h) (h.length_le hi h')
  obtain ⟨b, rest, hbs, -⟩ := h
  obtain ⟨b', rest', hbs', -⟩ := h'
  exact (List.append_inj (hbs.symm.trans hbs') hlength).1

end Registrar.Csv
