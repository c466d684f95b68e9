import NumberPuzzles.Catalogue
import NumberPuzzles.Proofs.Fixture.Numbers

/-!
# The sum of the numbers in a fixture

Whatever reads one numeral, the numbers of a fixture are those that its numerals are read as,
and the first numeral that is not read is reported by its line.  The answer depends on the
exact sum of the numbers alone, so neither their order nor the way they are laid out on lines
changes it.
-/

namespace NumberPuzzles.LargeSum

/-- The digits are those of the exact sum, in whatever order the numbers come. -/
theorem answer_eq_of_perm {numbers others : List Nat} (hperm : others.Perm numbers) :
    answer numbers = String.ofList ((Text.decimal others.sum).take 10) := by
  rw [answer, firstDigits, ← List.sum_eq_foldl, hperm.sum_nat]

/-! ## The problem -/

section

variable {ε : Type} {readNumeral : List Char → Except ε Nat} {describe : ε → String}

theorem runProblemBy_of_numbers {fixtures : Fixtures} {numbers : List Nat}
    (hnumbers : fixtures.numbersBy readNumeral describe "numbers.txt" = .ok numbers) :
    runProblemBy readNumeral describe 13 fixtures = .ok (answer numbers) := by
  have hrun : runProblemBy readNumeral describe 13 fixtures =
      (Problem.fromFixture 13 (·.numbersBy readNumeral describe "numbers.txt") fun numbers =>
        .ok (answer numbers)).solve fixtures := rfl
  simp only [hrun, Problem.fromFixture, hnumbers]

end

variable {fixtures : Fixtures} {name text : String}

/-- The numbers of a readable fixture are read exactly when every line that is not blank is,
once the blanks at its ends are gone, and they are then the values of these lines in order.
Otherwise the error names the first other line by its number among all lines.  If decimal
forms are read as their numbers, then numbers in decimal, one a line, are read back, with any
spaces and tabs around them, any blank lines between them and either end of a line; the answer
is made of the first ten digits of their sum, in any order, and so is that of the problem. -/
theorem sums_numbers_of_any_layout {ε : Type}
    (readNumeral : List Char → Except ε Nat) (describe : ε → String)
    (hreadable : fixtures.read name = .ok text) :
    ((∃ numbers, fixtures.numbersBy readNumeral describe name = .ok numbers) ↔
      ∀ numeral ∈ numerals (Text.lines text.toList),
        ∃ number, ReadsAs readNumeral numeral number) ∧
    (∀ numbers, fixtures.numbersBy readNumeral describe name = .ok numbers →
      List.Forall₂ (ReadsAs readNumeral) (numerals (Text.lines text.toList)) numbers) ∧
    (∀ error, fixtures.numbersBy readNumeral describe name = .error error →
      ∃ before line after reason, Text.lines text.toList = before ++ line :: after ∧
        (∀ earlier ∈ numerals before, ∃ number, ReadsAs readNumeral earlier number) ∧
        Text.trim line ≠ [] ∧ readNumeral (Text.trim line) = .error reason ∧
        error = .malformed (fixtures.path name)
          ⟨before.length + 1, .notNumber (Text.trim line) (describe reason)⟩) ∧
    ((∀ number, ReadsAs readNumeral (Text.decimal number) number) →
      ∀ layout : Layout, text.toList = layout.letters →
        fixtures.numbersBy readNumeral describe name = .ok layout.numbers ∧
        ∀ others : List Nat, others.Perm layout.numbers →
          (fixtures.numbersBy readNumeral describe name).map answer =
              .ok (String.ofList ((Text.decimal others.sum).take 10)) ∧
          (name = "numbers.txt" →
            runProblemBy readNumeral describe 13 fixtures =
              .ok (String.ofList ((Text.decimal others.sum).take 10)))) := by
  refine ⟨?_, ?_, ?_, ?_⟩
  · rw [← readNumbers_accepts_iff]
    exact exists_congr fun numbers => Fixtures.readAs_eq_ok_iff hreadable
  · intro numbers hnumbers
    exact readNumbers_eq_ok_iff.mp ((Fixtures.readAs_eq_ok_iff hreadable).mp hnumbers)
  · intro error herror
    obtain ⟨reported, hreported, rfl⟩ := (Fixtures.readAs_eq_error_iff hreadable).mp herror
    obtain ⟨before, line, after, reason, hlines, hbefore, hfull, hreason, rfl⟩ :=
      stopsAt_of_readNumbers hreported
    refine ⟨before, line, after, reason, hlines, hbefore, hfull, hreason, ?_⟩
    rw [Nat.add_comm]
  · intro hdecimal layout htext
    have hnumbers : fixtures.numbersBy readNumeral describe name = .ok layout.numbers :=
      Fixtures.numbersBy_of_layout hdecimal hreadable htext
    refine ⟨hnumbers, ?_⟩
    intro others hperm
    refine ⟨?_, ?_⟩
    · rw [hnumbers, Except.map, answer_eq_of_perm hperm]
    · rintro rfl
      rw [runProblemBy_of_numbers hnumbers, answer_eq_of_perm hperm]

/-- Blanks, a blank line, both ends of a line and a last line without an end make no
difference, nor does the order of the numbers. -/
theorem sums_numbers_of_two :
    (Fixtures.mk "d" fun _ => .ok " 12\t\r\n \n99999999999999999999999".toUTF8).read
        "numbers.txt" = .ok " 12\t\r\n \n99999999999999999999999" ∧
      (∀ number, ReadsAs Text.readNatural (Text.decimal number) number) ∧
      " 12\t\r\n \n99999999999999999999999".toList =
        (Layout.mk [(⟨[.space], some 12, [.tab]⟩, .returnNewline),
          (⟨[.space], none, []⟩, .newline)] ⟨[], some 99999999999999999999999, []⟩).letters ∧
      (Fixtures.mk "d" fun _ => .ok " 12\t\r\n \n99999999999999999999999".toUTF8).numbers
        "numbers.txt" = .ok [12, 99999999999999999999999] ∧
      [99999999999999999999999, 12].Perm [12, 99999999999999999999999] ∧
      runProblem 13 (Fixtures.mk "d" fun _ =>
        .ok " 12\t\r\n \n99999999999999999999999".toUTF8) = .ok "1000000000" := by
  have hreadable : (Fixtures.mk "d" fun _ =>
      .ok " 12\t\r\n \n99999999999999999999999".toUTF8).read "numbers.txt" =
        .ok " 12\t\r\n \n99999999999999999999999" :=
    Fixtures.read_of_text rfl (by decide)
  have htext : " 12\t\r\n \n99999999999999999999999".toList =
      (Layout.mk [(⟨[.space], some 12, [.tab]⟩, .returnNewline),
        (⟨[.space], none, []⟩, .newline)] ⟨[], some 99999999999999999999999, []⟩).letters := by
    decide +kernel
  have hperm : [99999999999999999999999, 12].Perm [12, 99999999999999999999999] := .swap ..
  have hsum : String.ofList ((Text.decimal [99999999999999999999999, 12].sum).take 10) =
      "1000000000" := by decide +kernel
  obtain ⟨-, -, -, hreads⟩ :=
    sums_numbers_of_any_layout Text.readNatural Text.NumeralError.message hreadable
  obtain ⟨hnumbers, hruns⟩ := hreads Text.readNatural_decimal _ htext
  refine ⟨hreadable, Text.readNatural_decimal, htext, hnumbers, hperm, ?_⟩
  rw [← hsum]
  exact (hruns _ hperm).2 rfl

end NumberPuzzles.LargeSum
