import NumberPuzzles.Fixture.Triangle
import NumberPuzzles.Proofs.Text.Lines
import NumberPuzzles.Proofs.Text.Numeral
import NumberPuzzles.Proofs.Traversal

/-!
# Which texts are triangles

A text is read as a triangle exactly when its lines, but for the blank ones, are rows: the
cells of each are numerals, one more than there are rows above.  Each line is either such a
row or refused with an issue that it alone and the number of rows above it decide, so the
reading stops at the first line that is no row, and names it by its number among all lines.
-/

namespace NumberPuzzles.Triangle

/-- The lines that hold more than blanks. -/
def rowLines (lines : List (List Char)) : List (List Char) :=
  lines.filter fun line => !line.all Text.isBlank

/-- The cells of a line are, in order, numerals for the entries of a row. -/
def Spells (line : List Char) (row : List Nat) : Prop :=
  List.Forall₂ (Text.IsNumeral word) (Text.cells line) row

/-- The cells of a line are numerals, one more than there are rows above it. -/
def IsRowBelow (height : Nat) (line : List Char) : Prop :=
  (Text.cells line).length = height + 1 ∧
    ∀ cell ∈ Text.cells line, ∃ value, Text.IsNumeral word cell value

/-- Why a line is no row below so many others: for its first cell that is no numeral, or,
if there is none, for the number of its cells. -/
inductive Refused (height : Nat) (line : List Char) : LineIssue → Prop
  | badCell {before after : List (List Char)} {cell : List Char} {reason : Text.NumeralError}
      (hcells : Text.cells line = before ++ cell :: after)
      (hbefore : ∀ earlier ∈ before, ∃ value, Text.IsNumeral word earlier value)
      (hcell : ¬ ∃ value, Text.IsNumeral word cell value)
      (hreason : Text.readWord cell = .error reason) :
      Refused height line (.badCell cell reason)
  | rowLength
      (hcells : ∀ cell ∈ Text.cells line, ∃ value, Text.IsNumeral word cell value)
      (hlength : (Text.cells line).length ≠ height + 1) :
      Refused height line (.rowLength (height + 1) (Text.cells line).length)

theorem Refused.not_isRowBelow {height : Nat} {line : List Char} {issue : LineIssue}
    (hrefused : Refused height line issue) : ¬ IsRowBelow height line := by
  rintro ⟨hlength, hnumerals⟩
  cases hrefused with
  | badCell hcells hbefore hcell hreason =>
      apply hcell
      apply hnumerals
      rw [hcells]
      exact List.mem_append_right _ List.mem_cons_self
  | rowLength hcells hother => exact hother hlength

theorem Spells.numerals {line : List Char} {row : List Nat} (hspells : Spells line row) :
    ∀ cell ∈ Text.cells line, ∃ value, Text.IsNumeral word cell value :=
  exists_forall₂_iff.mp ⟨row, hspells⟩

/-- A line spells at most one row. -/
theorem spells_rightUnique : Relator.RightUnique Spells := by
  have hnumeral : Relator.RightUnique (Text.IsNumeral word) := by
    intro cell left right hleft hright
    rw [← Text.readWord_eq_ok_iff] at hleft hright
    exact Except.ok.inj (hleft.symm.trans hright)
  intro line row other hrow hother
  exact hnumeral.forall₂ hrow hother

/-! ## One line -/

def readCell (number : Nat) (cell : List Char) : Except LineError Nat :=
  (Text.readWord cell).mapError fun reason => ⟨number, .badCell cell reason⟩

theorem readCells_eq_mapM (number : Nat) (cells : List (List Char)) :
    readCells number cells = cells.mapM (readCell number) := by
  induction cells with
  | nil => rfl
  | cons cell cells ih =>
      rw [readCells, ih]
      cases hcell : Text.readWord cell with
      | error reason => rw [mapM_cons_error (by rw [readCell, hcell]; rfl)]
      | ok value =>
          rw [mapM_cons_ok (by rw [readCell, hcell]; rfl)]
          cases cells.mapM (readCell number) <;> rfl

@[simp]
theorem readCell_eq_ok_iff {number value : Nat} {cell : List Char} :
    readCell number cell = .ok value ↔ Text.IsNumeral word cell value := by
  rw [← Text.readWord_eq_ok_iff, readCell, mapError_eq_ok_iff]

theorem readCells_eq_ok_iff {number : Nat} {line : List Char} {row : List Nat} :
    readCells number (Text.cells line) = .ok row ↔ Spells line row := by
  simp only [readCells_eq_mapM, mapM_eq_ok_iff, readCell_eq_ok_iff, Spells]

/-- Cells that are not all read are reported by the first one that is no numeral. -/
theorem refused_of_readCells (height : Nat) {number : Nat} {line : List Char}
    {error : LineError} (herror : readCells number (Text.cells line) = .error error) :
    error.line = number ∧ Refused height line error.issue := by
  rw [readCells_eq_mapM, mapM_eq_error_iff] at herror
  obtain ⟨before, cell, after, hcells, hbefore, hcell⟩ := herror
  simp only [readCell_eq_ok_iff] at hbefore
  obtain ⟨reason, hreason, rfl⟩ := mapError_eq_error_iff.mp hcell
  refine ⟨rfl, .badCell hcells hbefore ?_ hreason⟩
  rintro ⟨value, hvalue⟩
  rw [Text.readWord_eq_ok_iff.mpr hvalue] at hreason
  cases hreason

/-! ## One line after the other -/

theorem readRows_blank {height number : Nat} {line : List Char}
    (hblank : line.all Text.isBlank = true) (rest : List (Nat × List Char)) :
    readRows height ((number, line) :: rest) = readRows height rest := by
  rw [readRows, Text.trim_isEmpty, if_pos hblank]

theorem readRows_row {height number : Nat} {line : List Char} {row : List Nat}
    (hline : line.all Text.isBlank = false) (hspells : Spells line row)
    (hlength : row.length = height + 1) (rest : List (Nat × List Char)) :
    readRows height ((number, line) :: rest) =
      (readRows (height + 1) rest).map fun rows => ⟨row :: rows.1, hlength, rows.2⟩ := by
  rw [readRows, Text.trim_isEmpty, hline, if_neg Bool.false_ne_true,
    readCells_eq_ok_iff.mpr hspells]
  simp only [dif_pos hlength]
  cases readRows (height + 1) rest <;> rfl

/-- A line with more than blanks is a row, or stops the reading. -/
theorem row_or_refused {height : Nat} {line : List Char} (hline : line.all Text.isBlank = false)
    (number : Nat) (rest : List (Nat × List Char)) :
    (∃ row, Spells line row ∧ row.length = height + 1) ∨
      ∃ issue, Refused height line issue ∧
        readRows height ((number, line) :: rest) = .error ⟨number, issue⟩ := by
  cases hcells : readCells number (Text.cells line) with
  | error error =>
      obtain ⟨hnumber, hrefused⟩ := refused_of_readCells height hcells
      refine .inr ⟨error.issue, hrefused, ?_⟩
      rw [readRows, Text.trim_isEmpty, hline, if_neg Bool.false_ne_true, hcells, ← hnumber]
  | ok row =>
      have hspells : Spells line row := readCells_eq_ok_iff.mp hcells
      by_cases hlength : row.length = height + 1
      · exact .inl ⟨row, hspells, hlength⟩
      · have hentries : (Text.cells line).length = row.length := hspells.length_eq
        refine .inr ⟨_, .rowLength hspells.numerals (hentries ▸ hlength), ?_⟩
        rw [readRows, Text.trim_isEmpty, hline, if_neg Bool.false_ne_true, hcells, hentries]
        simp only [dif_neg hlength]

theorem rowLines_cons_blank {line : List Char} (hblank : line.all Text.isBlank = true)
    (rest : List (List Char)) : rowLines (line :: rest) = rowLines rest :=
  List.filter_cons_of_neg (by simp [hblank])

theorem rowLines_cons {line : List Char} (hline : line.all Text.isBlank = false)
    (rest : List (List Char)) : rowLines (line :: rest) = line :: rowLines rest :=
  List.filter_cons_of_pos (by simp [hline])

def AreRows (height : Nat) (lines : List (List Char)) : Prop :=
  ∃ rows, List.Forall₂ Spells (rowLines lines) rows ∧ Widening height rows

theorem AreRows.nil (height : Nat) : AreRows height [] := ⟨[], .nil, trivial⟩

theorem AreRows.blank {height : Nat} {line : List Char} {rest : List (List Char)}
    (hblank : line.all Text.isBlank = true) (hrest : AreRows height rest) :
    AreRows height (line :: rest) := by
  rwa [AreRows, rowLines_cons_blank hblank]

theorem AreRows.row {height : Nat} {line : List Char} {row : List Nat}
    {rest : List (List Char)} (hline : line.all Text.isBlank = false)
    (hspells : Spells line row) (hlength : row.length = height + 1)
    (hrest : AreRows (height + 1) rest) : AreRows height (line :: rest) := by
  obtain ⟨rows, hrows, hwidening⟩ := hrest
  refine ⟨row :: rows, ?_, hlength, hwidening⟩
  rw [rowLines_cons hline]
  exact .cons hspells hrows

/-- The error names a line that is refused, the first one behind lines that are rows. -/
def StopsAt (height first : Nat) (lines : List (List Char)) (error : LineError) : Prop :=
  ∃ before line after, lines = before ++ line :: after ∧
    error.line = first + before.length ∧ AreRows height before ∧
    line.all Text.isBlank = false ∧
    Refused (height + (rowLines before).length) line error.issue

/-- Lines are read to the end, or up to the first one that is refused. -/
theorem readRows_run (height first : Nat) (lines : List (List Char)) :
    (∃ rows, readRows height (Text.numberedFrom first lines) = .ok rows ∧
        List.Forall₂ Spells (rowLines lines) rows.1) ∨
      ∃ error, readRows height (Text.numberedFrom first lines) = .error error ∧
        StopsAt height first lines error := by
  induction lines generalizing height first with
  | nil => exact .inl ⟨⟨[], trivial⟩, rfl, .nil⟩
  | cons line rest ih =>
      rw [Text.numberedFrom_cons]
      cases hline : line.all Text.isBlank with
      | true =>
          rw [readRows_blank hline, rowLines_cons_blank hline]
          rcases ih height (first + 1) with hread | ⟨error, hread, hstops⟩
          · exact .inl hread
          · refine .inr ⟨error, hread, ?_⟩
            obtain ⟨before, stop, after, rfl, hnumber, hbefore, hstop, hrefused⟩ := hstops
            refine ⟨line :: before, stop, after, rfl, ?_, hbefore.blank hline, hstop, ?_⟩
            · rw [hnumber, List.length_cons]
              omega
            · rwa [rowLines_cons_blank hline]
      | false =>
          rw [rowLines_cons hline]
          rcases row_or_refused hline first (Text.numberedFrom (first + 1) rest) with
            ⟨row, hspells, hlength⟩ | ⟨issue, hrefused, hread⟩
          · rw [readRows_row hline hspells hlength]
            rcases ih (height + 1) (first + 1) with ⟨rows, hread, hrows⟩ | ⟨error, hread, hstops⟩
            · exact .inl ⟨_, by rw [hread]; rfl, .cons hspells hrows⟩
            · refine .inr ⟨error, by rw [hread]; rfl, ?_⟩
              obtain ⟨before, stop, after, rfl, hnumber, hbefore, hstop, hrefused⟩ := hstops
              refine ⟨line :: before, stop, after, rfl, ?_, .row hline hspells hlength hbefore,
                hstop, ?_⟩
              · rw [hnumber, List.length_cons]
                omega
              · rwa [rowLines_cons hline, List.length_cons, ← Nat.add_assoc,
                  Nat.add_right_comm]
          · refine .inr ⟨_, hread, [], line, rest, rfl, rfl, AreRows.nil height, hline, hrefused⟩

/-! ## Rows by their positions -/

theorem length_of_widening {height : Nat} {rows : List (List Nat)}
    (hwidening : Widening height rows) {index : Nat} {row : List Nat}
    (hrow : rows[index]? = some row) : row.length = height + index + 1 := by
  induction rows generalizing height index with
  | nil => simp at hrow
  | cons first rows ih =>
      cases index with
      | zero =>
          cases hrow
          exact hwidening.1
      | succ index =>
          rw [ih hwidening.2 hrow]
          omega

theorem AreRows.isRowBelow {height : Nat} {lines : List (List Char)}
    (hlines : AreRows height lines) {index : Nat} {line : List Char}
    (hline : (rowLines lines)[index]? = some line) : IsRowBelow (height + index) line := by
  obtain ⟨rows, hrows, hwidening⟩ := hlines
  obtain ⟨hinside, rfl⟩ := List.getElem?_eq_some_iff.mp hline
  have hrow : index < rows.length := hrows.length_eq ▸ hinside
  have hspells : Spells (rowLines lines)[index] rows[index] := hrows.get hinside hrow
  refine ⟨?_, hspells.numerals⟩
  rw [hspells.length_eq]
  exact length_of_widening hwidening (List.getElem?_eq_getElem hrow)

/-- The first refused line is no row, where it stands among the lines that are not blank. -/
theorem StopsAt.exists_not_isRowBelow {height first : Nat} {lines : List (List Char)}
    {error : LineError} (hstops : StopsAt height first lines error) :
    ∃ index line, (rowLines lines)[index]? = some line ∧ ¬ IsRowBelow (height + index) line := by
  obtain ⟨before, line, after, rfl, -, -, hline, hrefused⟩ := hstops
  refine ⟨(rowLines before).length, line, ?_, hrefused.not_isRowBelow⟩
  rw [rowLines, List.filter_append, ← rowLines, ← rowLines, rowLines_cons hline]
  simp

/-! ## Writing a triangle -/

def spelled (row : List Nat) : List Char := [' '].intercalate (row.map Text.decimal)

/-- The rows of a triangle, each on a line of its own. -/
def printed (triangle : Triangle) : List Char :=
  (triangle.rows.map spelled).flatMap (· ++ ['\n'])

theorem mem_spelled {row : List Nat} {letter : Char} (hletter : letter ∈ spelled row) :
    letter = ' ' ∨ letter.isDigit = true := by
  obtain hletter | ⟨cell, hcell, hletter⟩ := Text.mem_intercalate hletter
  · exact .inl hletter
  · obtain ⟨entry, -, rfl⟩ := List.mem_map.mp hcell
    exact .inr (Text.isDigit_of_mem_decimal hletter)

theorem spells_spelled {row : List Nat} (hword : ∀ entry ∈ row, entry < word) :
    Spells (spelled row) row := by
  rw [Spells, spelled, Text.cells_intercalate (by decide)]
  · rw [List.forall₂_map_left_iff, List.forall₂_same]
    intro entry hentry
    exact Text.isNumeral_decimal (hword entry hentry)
  · intro cell hcell
    obtain ⟨entry, -, rfl⟩ := List.mem_map.mp hcell
    exact Text.decimal_ne_nil entry
  · intro cell hcell letter hletter
    obtain ⟨entry, -, rfl⟩ := List.mem_map.mp hcell
    exact Text.isBlank_of_isDigit (Text.isDigit_of_mem_decimal hletter)

theorem spelled_not_blank {row : List Nat} (hne : row ≠ []) :
    (spelled row).all Text.isBlank = false := by
  obtain ⟨entry, rest, rfl⟩ := List.exists_cons_of_ne_nil hne
  obtain ⟨letter, letters, hdecimal⟩ := List.exists_cons_of_ne_nil (Text.decimal_ne_nil entry)
  have hdigit : Text.isBlank letter = false :=
    Text.isBlank_of_isDigit (Text.isDigit_of_mem_decimal (hdecimal ▸ List.mem_cons_self))
  have hfirst : letter ∈ spelled (entry :: rest) := by
    cases rest with
    | nil => simp [spelled, hdecimal]
    | cons next rest => simp [spelled, List.intercalate_cons_cons, hdecimal]
  rw [List.all_eq_false]
  exact ⟨letter, hfirst, by simp [hdigit]⟩

@[simp]
theorem lines_printed (triangle : Triangle) :
    Text.lines (printed triangle) = triangle.rows.map spelled := by
  refine Text.lines_flatMap_newline ?_ ?_
  · intro line hline hnewline
    obtain ⟨row, -, rfl⟩ := List.mem_map.mp hline
    exact absurd (mem_spelled hnewline) (by decide)
  · intro line hline hreturn
    obtain ⟨row, -, rfl⟩ := List.mem_map.mp hline
    exact absurd (mem_spelled (List.mem_of_getLast? hreturn)) (by decide)

/-! ## The whole text -/

theorem read_eq (text : List Char) :
    read text =
      (readRows 0 (Text.numberedFrom 1 (Text.lines text))).map fun rows => ⟨rows.1, rows.2⟩ := by
  rw [read, Text.numberedLines_eq]
  cases readRows 0 (Text.numberedFrom 1 (Text.lines text)) <;> rfl

theorem read_run (text : List Char) :
    (∃ triangle, read text = .ok triangle ∧
        List.Forall₂ Spells (rowLines (Text.lines text)) triangle.rows) ∨
      ∃ error, read text = .error error ∧ StopsAt 0 1 (Text.lines text) error := by
  rw [read_eq]
  rcases readRows_run 0 1 (Text.lines text) with ⟨rows, hread, hrows⟩ | ⟨error, hread, hstops⟩
  · exact .inl ⟨⟨rows.1, rows.2⟩, by rw [hread]; rfl, hrows⟩
  · exact .inr ⟨error, by rw [hread]; rfl, hstops⟩

theorem spells_of_read {text : List Char} {triangle : Triangle}
    (hread : read text = .ok triangle) :
    List.Forall₂ Spells (rowLines (Text.lines text)) triangle.rows := by
  rcases read_run text with ⟨other, hother, hspells⟩ | ⟨error, herror, -⟩
  · cases hread.symm.trans hother
    exact hspells
  · cases hread.symm.trans herror

theorem stopsAt_of_read {text : List Char} {error : LineError}
    (hread : read text = .error error) : StopsAt 0 1 (Text.lines text) error := by
  rcases read_run text with ⟨triangle, htriangle, -⟩ | ⟨other, hother, hstops⟩
  · cases hread.symm.trans htriangle
  · cases hread.symm.trans hother
    exact hstops

/-- Lines that are rows where they stand are read to the end. -/
theorem read_accepts {text : List Char}
    (hrows : ∀ index line, (rowLines (Text.lines text))[index]? = some line →
      IsRowBelow index line) :
    ∃ triangle, read text = .ok triangle := by
  cases hread : read text with
  | ok triangle => exact ⟨triangle, rfl⟩
  | error error =>
      obtain ⟨index, line, hline, hnot⟩ := (stopsAt_of_read hread).exists_not_isRowBelow
      rw [Nat.zero_add] at hnot
      exact absurd (hrows index line hline) hnot

@[simp]
theorem rowLines_printed (triangle : Triangle) :
    rowLines (triangle.rows.map spelled) = triangle.rows.map spelled := by
  refine List.filter_eq_self.mpr ?_
  intro line hline
  obtain ⟨row, hrow, rfl⟩ := List.mem_map.mp hline
  obtain ⟨index, hindex⟩ := List.mem_iff_getElem?.mp hrow
  have hne : row ≠ [] := by
    rintro rfl
    have hlength := length_of_widening triangle.widening hindex
    simp at hlength
  simp [spelled_not_blank hne]

theorem read_printed {triangle : Triangle}
    (hword : ∀ row ∈ triangle.rows, ∀ entry ∈ row, entry < word) :
    read (printed triangle) = .ok triangle := by
  have hspells : List.Forall₂ Spells (rowLines (Text.lines (printed triangle)))
      triangle.rows := by
    rw [lines_printed, rowLines_printed, List.forall₂_map_left_iff, List.forall₂_same]
    intro row hrow
    exact spells_spelled (hword row hrow)
  have hrows : AreRows 0 (Text.lines (printed triangle)) :=
    ⟨triangle.rows, hspells, triangle.widening⟩
  obtain ⟨other, hread⟩ : ∃ other, read (printed triangle) = .ok other := by
    refine read_accepts ?_
    intro index line hline
    simpa using hrows.isRowBelow hline
  have hsame : other.rows = triangle.rows :=
    spells_rightUnique.forall₂ (spells_of_read hread) hspells
  cases other
  cases triangle
  cases hsame
  exact hread

/-- A text is read as a triangle exactly when each line that is not blank is a row for as many
rows as are above it, and its rows are then what the cells spell, each with one entry more than
its position.  Otherwise the error names the first line that is no row, by its number among
all lines, and an issue of that line: the first cell that is no numeral, or else the number of
cells.  A triangle of machine words that is written row by row is read back. -/
theorem reads_rows_in_order (text : List Char) :
    ((∃ triangle, read text = .ok triangle) ↔
      ∀ index line, (rowLines (Text.lines text))[index]? = some line →
        IsRowBelow index line) ∧
    (∀ triangle, read text = .ok triangle →
      List.Forall₂ Spells (rowLines (Text.lines text)) triangle.rows ∧
        ∀ index row, triangle.rows[index]? = some row → row.length = index + 1) ∧
    (∀ error, read text = .error error →
      ∃ before line after, Text.lines text = before ++ line :: after ∧
        error.line = before.length + 1 ∧
        (∀ index earlier, (rowLines before)[index]? = some earlier →
          IsRowBelow index earlier) ∧
        line.all Text.isBlank = false ∧ ¬ IsRowBelow (rowLines before).length line ∧
        Refused (rowLines before).length line error.issue) ∧
    ∀ triangle : Triangle, (∀ row ∈ triangle.rows, ∀ entry ∈ row, entry < word) →
      read (printed triangle) = .ok triangle := by
  refine ⟨⟨?_, read_accepts⟩, ?_, ?_, fun triangle => read_printed⟩
  · rintro ⟨triangle, hread⟩ index line hline
    have hrows : AreRows 0 (Text.lines text) :=
      ⟨triangle.rows, spells_of_read hread, triangle.widening⟩
    simpa using hrows.isRowBelow hline
  · intro triangle hread
    refine ⟨spells_of_read hread, ?_⟩
    intro index row hrow
    simpa using length_of_widening triangle.widening hrow
  · intro error hread
    obtain ⟨before, line, after, hlines, hnumber, hbefore, hline, hrefused⟩ :=
      stopsAt_of_read hread
    rw [Nat.zero_add] at hrefused
    refine ⟨before, line, after, hlines, hnumber.trans (Nat.add_comm _ _), ?_, hline,
      hrefused.not_isRowBelow, hrefused⟩
    intro index earlier hearlier
    simpa using hbefore.isRowBelow hearlier

/-- A blank line counts in the number that is reported, and a cell that is no numeral is
reported although the line has a cell too many. -/
theorem reads_rows_in_order_of_bad_cell :
    read "3\n\n7 +4 x\n".toList = .error ⟨3, .badCell ['x'] .invalidDigit⟩ ∧
      (∃ before line after, Text.lines "3\n\n7 +4 x\n".toList = before ++ line :: after ∧
        3 = before.length + 1 ∧
        (∀ index earlier, (rowLines before)[index]? = some earlier →
          IsRowBelow index earlier) ∧
        line.all Text.isBlank = false ∧ ¬ IsRowBelow (rowLines before).length line ∧
        Refused (rowLines before).length line (.badCell ['x'] .invalidDigit)) ∧
      (∀ row ∈ [[word - 1]], ∀ entry ∈ row, entry < word) ∧
      read (printed ⟨[[word - 1]], rfl, trivial⟩) = .ok ⟨[[word - 1]], rfl, trivial⟩ := by
  have hread : read "3\n\n7 +4 x\n".toList = .error ⟨3, .badCell ['x'] .invalidDigit⟩ := rfl
  have hword : ∀ row ∈ [[word - 1]], ∀ entry ∈ row, entry < word := by
    simp [word]
  exact ⟨hread, (reads_rows_in_order _).2.2.1 _ hread, hword,
    (reads_rows_in_order []).2.2.2 ⟨[[word - 1]], rfl, trivial⟩ hword⟩

end NumberPuzzles.Triangle
