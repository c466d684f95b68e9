import NumberPuzzles.Proofs.Fixture.Reading
import NumberPuzzles.Proofs.Text.Lines
import NumberPuzzles.Proofs.Text.Numeral
import NumberPuzzles.Proofs.Traversal

/-!
# Which texts are lists of numbers

The numerals of a text are its lines, less the blanks at their ends, without those that are
blank.  Whatever reads one numeral, a text is read exactly when each of its numerals is, with
the numbers in order; and the first numeral that is not read is reported with the number of
its line among all lines, the blank ones included.  Numbers that are laid out one a line in
decimal are read back: spaces and tabs around them, blank lines and carriage returns leave the
numerals as they are.
-/

namespace NumberPuzzles

/-- What is left of the lines without the blanks at their ends, if anything, in order. -/
def numerals (lines : List (List Char)) : List (List Char) :=
  (lines.map Text.trim).filter fun numeral => !numeral.isEmpty

theorem numerals_cons (line : List Char) (rest : List (List Char)) :
    numerals (line :: rest) =
      if Text.trim line = [] then numerals rest else Text.trim line :: numerals rest := by
  rw [numerals, List.map_cons, List.filter_cons]
  by_cases hblank : Text.trim line = []
  · rw [if_pos hblank, hblank]
    rfl
  · rw [if_neg hblank, if_pos (by simpa using hblank)]
    rfl

/-- Neither a carriage return nor an empty last line makes a difference. -/
@[simp]
theorem numerals_linesOfPieces (cut : List (List Char)) :
    numerals (Text.linesOfPieces cut) = numerals cut := by
  fun_induction Text.linesOfPieces cut with
  | case1 => rfl
  | case2 last hempty =>
      rw [List.isEmpty_iff.mp hempty]
      rfl
  | case3 last hfull => rfl
  | case4 piece rest hrest ih => rw [numerals_cons, numerals_cons, Text.trim_dropReturn, ih]

/-- The numerals stand between the newlines. -/
theorem numerals_lines (text : List Char) :
    numerals (Text.lines text) = numerals (Text.pieces (· == '\n') text) :=
  numerals_linesOfPieces _

/-! ## One line after the other -/

section Reading

variable {ε : Type} {readNumeral : List Char → Except ε Nat} {describe : ε → String}

def ReadsAs (readNumeral : List Char → Except ε Nat) (numeral : List Char) (number : Nat) : Prop :=
  readNumeral numeral = .ok number

theorem readsAs_rightUnique : Relator.RightUnique (ReadsAs readNumeral) := by
  intro numeral left right hleft hright
  exact Except.ok.inj (hleft.symm.trans hright)

/-- The error reports the first line that is neither blank nor read, and its number. -/
def StopsAt (readNumeral : List Char → Except ε Nat) (describe : ε → String) (first : Nat)
    (lines : List (List Char)) (error : LineError) : Prop :=
  ∃ before line after reason, lines = before ++ line :: after ∧
    (∀ earlier ∈ numerals before, ∃ number, ReadsAs readNumeral earlier number) ∧
    Text.trim line ≠ [] ∧ readNumeral (Text.trim line) = .error reason ∧
    error = ⟨first + before.length, .notNumber (Text.trim line) (describe reason)⟩

theorem StopsAt.cons {first : Nat} {line : List Char} {rest : List (List Char)}
    {error : LineError}
    (hline : Text.trim line = [] ∨ ∃ number, ReadsAs readNumeral (Text.trim line) number)
    (hstops : StopsAt readNumeral describe (first + 1) rest error) :
    StopsAt readNumeral describe first (line :: rest) error := by
  obtain ⟨before, stop, after, reason, rfl, hbefore, hfull, hreason, rfl⟩ := hstops
  refine ⟨line :: before, stop, after, reason, rfl, ?_, hfull, hreason, ?_⟩
  · rw [numerals_cons]
    split
    · exact hbefore
    · next hother => exact List.forall_mem_cons.mpr ⟨hline.resolve_left hother, hbefore⟩
  · rw [List.length_cons, Nat.add_right_comm, Nat.add_assoc]

theorem StopsAt.exists_unread {first : Nat} {lines : List (List Char)} {error : LineError}
    (hstops : StopsAt readNumeral describe first lines error) :
    ∃ numeral ∈ numerals lines, ¬ ∃ number, ReadsAs readNumeral numeral number := by
  obtain ⟨before, line, after, reason, rfl, -, hfull, hreason, -⟩ := hstops
  refine ⟨Text.trim line, ?_, ?_⟩
  · simp [numerals, hfull]
  · rintro ⟨number, hnumber⟩
    cases hreason.symm.trans hnumber

theorem readNumberLines_cons (first : Nat) (line : List Char) (rest : List (Nat × List Char)) :
    readNumberLines readNumeral describe ((first, line) :: rest) =
      if Text.trim line = [] then readNumberLines readNumeral describe rest
      else
        match readNumeral (Text.trim line) with
        | .error reason => .error ⟨first, .notNumber (Text.trim line) (describe reason)⟩
        | .ok number => (readNumberLines readNumeral describe rest).map (number :: ·) := by
  simp only [readNumberLines, List.isEmpty_iff]
  split
  · rfl
  · cases readNumeral (Text.trim line) with
    | error reason => rfl
    | ok number => cases readNumberLines readNumeral describe rest <;> rfl

theorem readNumberLines_run (readNumeral : List Char → Except ε Nat) (describe : ε → String)
    (first : Nat) (lines : List (List Char)) :
    (∃ numbers, readNumberLines readNumeral describe (Text.numberedFrom first lines) = .ok numbers ∧
        List.Forall₂ (ReadsAs readNumeral) (numerals lines) numbers) ∨
      ∃ error, readNumberLines readNumeral describe (Text.numberedFrom first lines) = .error error ∧
        StopsAt readNumeral describe first lines error := by
  induction lines generalizing first with
  | nil => exact .inl ⟨[], rfl, .nil⟩
  | cons line rest ih =>
      rw [Text.numberedFrom_cons, readNumberLines_cons, numerals_cons]
      by_cases hblank : Text.trim line = []
      · rw [if_pos hblank, if_pos hblank]
        refine (ih (first + 1)).imp_right ?_
        rintro ⟨error, herror, hstops⟩
        exact ⟨error, herror, hstops.cons (.inl hblank)⟩
      · rw [if_neg hblank, if_neg hblank]
        cases hnumeral : readNumeral (Text.trim line) with
        | error reason =>
            exact .inr ⟨_, rfl, [], line, rest, reason, rfl, by simp [numerals], hblank,
              hnumeral, rfl⟩
        | ok number =>
            rcases ih (first + 1) with ⟨numbers, hread, hnumbers⟩ | ⟨error, herror, hstops⟩
            · exact .inl ⟨number :: numbers, by rw [hread]; rfl, .cons hnumeral hnumbers⟩
            · exact .inr ⟨error, by rw [herror]; rfl, hstops.cons (.inr ⟨number, hnumeral⟩)⟩

/-! ## The whole text -/

/-- Each numeral is read, and these are the numbers; or the first other one is reported. -/
theorem readNumbers_run (readNumeral : List Char → Except ε Nat) (describe : ε → String)
    (text : List Char) :
    (∃ numbers, readNumbers readNumeral describe text = .ok numbers ∧
        List.Forall₂ (ReadsAs readNumeral) (numerals (Text.lines text)) numbers) ∨
      ∃ error, readNumbers readNumeral describe text = .error error ∧
        StopsAt readNumeral describe 1 (Text.lines text) error :=
  readNumberLines_run readNumeral describe 1 (Text.lines text)

theorem readNumbers_eq_ok_iff {text : List Char} {numbers : List Nat} :
    readNumbers readNumeral describe text = .ok numbers ↔
      List.Forall₂ (ReadsAs readNumeral) (numerals (Text.lines text)) numbers := by
  rcases readNumbers_run readNumeral describe text with
    ⟨others, hread, hothers⟩ | ⟨error, herror, hstops⟩
  · rw [hread, Except.ok.injEq]
    constructor
    · rintro rfl
      exact hothers
    · exact readsAs_rightUnique.forall₂ hothers
  · rw [herror]
    refine iff_of_false (by simp) ?_
    intro hnumbers
    obtain ⟨numeral, hnumeral, hunread⟩ := hstops.exists_unread
    exact hunread (exists_forall₂_iff.mp ⟨numbers, hnumbers⟩ numeral hnumeral)

theorem readNumbers_accepts_iff {text : List Char} :
    (∃ numbers, readNumbers readNumeral describe text = .ok numbers) ↔
      ∀ numeral ∈ numerals (Text.lines text), ∃ number, ReadsAs readNumeral numeral number :=
  (exists_congr fun _ => readNumbers_eq_ok_iff).trans exists_forall₂_iff

theorem stopsAt_of_readNumbers {text : List Char} {error : LineError}
    (hread : readNumbers readNumeral describe text = .error error) :
    StopsAt readNumeral describe 1 (Text.lines text) error := by
  rcases readNumbers_run readNumeral describe text with
    ⟨numbers, hnumbers, -⟩ | ⟨other, hother, hstops⟩
  · cases hread.symm.trans hnumbers
  · cases hread.symm.trans hother
    exact hstops

/-- A blank line has a number as well. -/
example : readNumbers Text.readNatural Text.NumeralError.message "12\n\n3x4\n".toList =
    .error ⟨3, .notNumber "3x4".toList "invalid digit found in string"⟩ := rfl

end Reading

/-! ## Numbers laid out on lines -/

namespace Layout

inductive Blank where
  | space
  | tab

def Blank.letter : Blank → Char
  | space => ' '
  | tab => '\t'

inductive LineEnd where
  | newline
  | returnNewline

def LineEnd.letters : LineEnd → List Char
  | newline => ['\n']
  | returnNewline => ['\r', '\n']

/-- A number in decimal, or nothing, with blanks in front and behind. -/
structure Line where
  front : List Blank
  number? : Option Nat
  back : List Blank

namespace Line

def numeral (line : Line) : List Char := (line.number?.map Text.decimal).getD []

def letters (line : Line) : List Char :=
  line.front.map Blank.letter ++ line.numeral ++ line.back.map Blank.letter

end Line

end Layout

/-- Lines that end, and a last one that does not. -/
structure Layout where
  ended : List (Layout.Line × Layout.LineEnd)
  last : Layout.Line

namespace Layout

def letters (layout : Layout) : List Char :=
  layout.ended.flatMap (fun (line, lineEnd) => line.letters ++ lineEnd.letters) ++
    layout.last.letters

def numbers (layout : Layout) : List Nat :=
  (layout.ended.map Prod.fst ++ [layout.last]).filterMap Line.number?

theorem Blank.isBlank_of_mem {blanks : List Blank} {letter : Char}
    (hletter : letter ∈ blanks.map Blank.letter) :
    Text.isBlank letter = true ∧ letter ≠ '\n' := by
  obtain ⟨blank, -, rfl⟩ := List.mem_map.mp hletter
  cases blank <;> decide

def LineEnd.returns : LineEnd → List Char
  | newline => []
  | returnNewline => ['\r']

theorem LineEnd.letters_eq (lineEnd : LineEnd) : lineEnd.letters = lineEnd.returns ++ ['\n'] := by
  cases lineEnd <;> rfl

theorem LineEnd.isBlank_of_mem {lineEnd : LineEnd} {letter : Char}
    (hletter : letter ∈ lineEnd.returns) : Text.isBlank letter = true ∧ letter ≠ '\n' := by
  cases lineEnd with
  | newline => cases hletter
  | returnNewline =>
      obtain rfl := List.mem_singleton.mp hletter
      decide

theorem Line.not_isBlank_of_mem_numeral {line : Line} {letter : Char}
    (hletter : letter ∈ line.numeral) : Text.isBlank letter = false ∧ letter ≠ '\n' := by
  have hblank : Text.isBlank letter = false := by
    rw [numeral] at hletter
    cases hnumber : line.number? with
    | none => simp [hnumber] at hletter
    | some number =>
        rw [hnumber] at hletter
        exact Text.isBlank_of_isDigit (Text.isDigit_of_mem_decimal hletter)
  refine ⟨hblank, ?_⟩
  rintro rfl
  cases hblank

/-- Without the blanks around it, and those in front of its newline, a line is its number. -/
theorem Line.trim_append (line : Line) {returns : List Char}
    (hreturns : ∀ letter ∈ returns, Text.isBlank letter = true) :
    Text.trim (line.letters ++ returns) = line.numeral := by
  rw [letters, List.append_assoc, Text.trim_append, Text.trim_of_forall_not]
  · intro letter hletter
    exact (not_isBlank_of_mem_numeral hletter).1
  · intro letter hletter
    exact (Blank.isBlank_of_mem hletter).1
  · intro letter hletter
    rcases List.mem_append.mp hletter with hletter | hletter
    · exact (Blank.isBlank_of_mem hletter).1
    · exact hreturns letter hletter

theorem Line.ne_newline_of_mem {line : Line} {letter : Char} (hletter : letter ∈ line.letters) :
    letter ≠ '\n' := by
  rw [letters, List.mem_append, List.mem_append] at hletter
  rcases hletter with (hletter | hletter) | hletter
  · exact (Blank.isBlank_of_mem hletter).2
  · exact (not_isBlank_of_mem_numeral hletter).2
  · exact (Blank.isBlank_of_mem hletter).2

/-- A line adds its number to those behind it, if it has one. -/
theorem Line.numerals_cons (line : Line) {returns : List Char}
    (hreturns : ∀ letter ∈ returns, Text.isBlank letter = true) (rest : List (List Char)) :
    numerals ((line.letters ++ returns) :: rest) =
      (line.number?.map Text.decimal).toList ++ numerals rest := by
  rw [NumberPuzzles.numerals_cons, line.trim_append hreturns, numeral]
  cases line.number? with
  | none => rfl
  | some number => exact if_neg (Text.decimal_ne_nil number)

/-- The numerals are the decimal forms of the numbers. -/
@[simp]
theorem numerals_letters (layout : Layout) :
    numerals (Text.lines layout.letters) = layout.numbers.map Text.decimal := by
  obtain ⟨ended, last⟩ := layout
  rw [numerals_lines]
  induction ended with
  | nil =>
      have hpieces : Text.pieces (· == '\n') (Layout.mk [] last).letters =
          [last.letters ++ []] := by
        rw [List.append_nil, Text.pieces_eq_singleton]
        · rfl
        · intro letter hletter
          simpa using Line.ne_newline_of_mem hletter
      rw [hpieces, last.numerals_cons (List.forall_mem_nil _)]
      cases hnumber : last.number? <;> simp [numbers, numerals, hnumber]
  | cons row ended ih =>
      obtain ⟨line, lineEnd⟩ := row
      have hletters : (Layout.mk ((line, lineEnd) :: ended) last).letters =
          (line.letters ++ lineEnd.returns) ++ '\n' :: (Layout.mk ended last).letters := by
        simp [letters, lineEnd.letters_eq]
      rw [hletters, Text.pieces_append_cons (by simp), line.numerals_cons, ih]
      · cases hnumber : line.number? <;> simp [numbers, hnumber]
      · intro letter hletter
        exact (LineEnd.isBlank_of_mem hletter).1
      · intro letter hletter
        rcases List.mem_append.mp hletter with hletter | hletter
        · simpa using Line.ne_newline_of_mem hletter
        · simpa using (LineEnd.isBlank_of_mem hletter).2

/-- Numbers that are laid out are read back. -/
theorem readNumbers_letters {ε : Type} {readNumeral : List Char → Except ε Nat}
    {describe : ε → String}
    (hdecimal : ∀ number, ReadsAs readNumeral (Text.decimal number) number) (layout : Layout) :
    readNumbers readNumeral describe layout.letters = .ok layout.numbers := by
  rw [readNumbers_eq_ok_iff, numerals_letters, List.forall₂_map_left_iff, List.forall₂_same]
  intro number _
  exact hdecimal number

end Layout

theorem Fixtures.numbersBy_of_layout {ε : Type} {readNumeral : List Char → Except ε Nat}
    {describe : ε → String}
    (hdecimal : ∀ number, ReadsAs readNumeral (Text.decimal number) number)
    {fixtures : Fixtures} {name text : String} (hreadable : fixtures.read name = .ok text)
    {layout : Layout} (htext : text.toList = layout.letters) :
    fixtures.numbersBy readNumeral describe name = .ok layout.numbers := by
  refine (readAs_eq_ok_iff hreadable).mpr ?_
  rw [htext]
  exact layout.readNumbers_letters hdecimal

end NumberPuzzles
