import Mathlib.Data.Nat.Fib.Basic
import NumberPuzzles.Proofs.Source
import NumberPuzzles.Proofs.Text.Numeral
import NumberPuzzles.Sequence.Fibonacci

/-!
# The first Fibonacci number with so many digits

The stream hands out the Fibonacci numbers without end.  Five terms on they have grown more than
tenfold, so some term has as many digits as one likes, and no more than five terms for each digit
come before it.  The terms never get smaller, so all later ones have as many digits too.  The
index of the first such term is counted in words: it is the answer if it is one, and otherwise the
count is a fault, as it is for as many digits as the greatest word says.
-/

namespace NumberPuzzles

open Source (answerAt after)

variable {index digits : Nat}

/-! ## The stream -/

namespace Fibonacci

def termsAt (index : Nat) : Fibonacci :=
  ⟨Nat.fib index, Nat.fib (index + 1), Nat.fib_pos.mpr (Nat.succ_pos index)⟩

@[simp]
theorem advance_termsAt (index : Nat) : (termsAt index).advance = termsAt (index + 1) := by
  simp only [advance, termsAt, Nat.fib_add_two]

@[simp]
theorem after_eq (requests : Nat) :
    after (next : Source Fibonacci Fault Nat) requests initial = termsAt requests := by
  induction requests with
  | zero => rfl
  | succ requests ih =>
      rw [Source.after_succ, ih]
      exact advance_termsAt requests

@[simp]
theorem answerAt_eq (position : Nat) :
    answerAt (next : Source Fibonacci Fault Nat) position initial =
      .ok (some (Nat.fib position)) := by
  rw [answerAt, after_eq]
  rfl

/-! ## Growth -/

/-- Five terms on is thirteen times the following term and eight times the term itself, of which
the following one makes up more than half. -/
theorem ten_mul_fib_le (hindex : 2 ≤ index) : 10 * Nat.fib index ≤ Nat.fib (index + 5) := by
  obtain ⟨before, rfl⟩ := Nat.exists_eq_add_of_le' hindex
  have hmono : Nat.fib before ≤ Nat.fib (before + 1) := Nat.fib_le_fib_succ
  have hfirst : Nat.fib (before + 2) = Nat.fib before + Nat.fib (before + 1) := Nat.fib_add_two
  have hsecond : Nat.fib (before + 3) = Nat.fib (before + 1) + Nat.fib (before + 2) :=
    Nat.fib_add_two
  have hthird : Nat.fib (before + 4) = Nat.fib (before + 2) + Nat.fib (before + 3) :=
    Nat.fib_add_two
  have hfourth : Nat.fib (before + 5) = Nat.fib (before + 3) + Nat.fib (before + 4) :=
    Nat.fib_add_two
  have hfifth : Nat.fib (before + 6) = Nat.fib (before + 4) + Nat.fib (before + 5) :=
    Nat.fib_add_two
  have hsixth : Nat.fib (before + 2 + 5) = Nat.fib (before + 5) + Nat.fib (before + 6) :=
    Nat.fib_add_two
  omega

theorem pow_le_fib (exponent : Nat) : 10 ^ (exponent + 1) ≤ Nat.fib (5 * exponent + 7) := by
  induction exponent with
  | zero => decide
  | succ exponent ih =>
      calc 10 ^ (exponent + 1 + 1) = 10 * 10 ^ (exponent + 1) := by rw [pow_succ, Nat.mul_comm]
        _ ≤ 10 * Nat.fib (5 * exponent + 7) := Nat.mul_le_mul_left 10 ih
        _ ≤ Nat.fib (5 * exponent + 7 + 5) := ten_mul_fib_le (by omega)
        _ = Nat.fib (5 * (exponent + 1) + 7) := by congr 1

theorem fib_succ_le_pow (index : Nat) : Nat.fib (index + 1) ≤ 2 ^ index := by
  induction index with
  | zero => decide
  | succ index ih =>
      calc Nat.fib (index + 1 + 1) = Nat.fib index + Nat.fib (index + 1) := Nat.fib_add_two
        _ ≤ Nat.fib (index + 1) + Nat.fib (index + 1) :=
          Nat.add_le_add_right Nat.fib_le_fib_succ _
        _ ≤ 2 ^ index + 2 ^ index := Nat.add_le_add ih ih
        _ = 2 ^ (index + 1) := by rw [pow_succ, Nat.mul_two]

/-! ## Decimal forms -/

theorem length_decimal_mono {first later : Nat} (hlater : first ≤ later) :
    (Text.decimal (Nat.fib first)).length ≤ (Text.decimal (Nat.fib later)).length := by
  rw [Text.length_decimal, Text.length_decimal]
  exact digitCount_mono (Nat.fib_mono hlater)

theorem exists_length_decimal (digits : Nat) :
    ∃ index ≤ 5 * digits, digits ≤ (Text.decimal (Nat.fib index)).length := by
  simp only [Text.length_decimal]
  by_cases hfew : digits < 2
  · have hleast := digitCount_pos (Nat.fib 0)
    exact ⟨0, Nat.zero_le _, by omega⟩
  · refine ⟨5 * (digits - 2) + 7, by omega, ?_⟩
    have hlong := (pow_le_iff_lt_digitCount (Nat.fib_pos.mpr (by omega))).mp
      (pow_le_fib (digits - 2))
    omega

theorem exists_isLeast_length_decimal (digits : Nat) :
    ∃ first ≤ 5 * digits,
      IsLeast {index | digits ≤ (Text.decimal (Nat.fib index)).length} first := by
  obtain ⟨index, hindex, hlong⟩ := exists_length_decimal digits
  have hexists : ∃ index, digits ≤ (Text.decimal (Nat.fib index)).length := ⟨index, hlong⟩
  exact ⟨Nat.find hexists, (Nat.find_min' hexists hlong).trans hindex, Nat.isLeast_find hexists⟩

/-- A term has fewer digits than its index says. -/
theorem length_decimal_le (hindex : 0 < index) :
    (Text.decimal (Nat.fib (index + 1))).length ≤ index := by
  rw [Text.length_decimal]
  apply digitCount_le hindex
  calc Nat.fib (index + 1) ≤ 2 ^ index := fib_succ_le_pow index
    _ < 10 ^ index := Nat.pow_lt_pow_left (by decide) hindex.ne'

/-! ## Counting -/

/-- The count goes up to the index of the first term that is long enough, unless it is to leave
the words on the way. -/
theorem countShorter_eq {first : Nat}
    (hshort : ∀ earlier < first, (Text.decimal (Nat.fib earlier)).length < digits)
    (hlong : digits ≤ (Text.decimal (Nat.fib first)).length) (hindex : index ≤ first)
    (hword : index < word) :
    countShorter digits (termsAt index) index =
      if first < word then .ok first else .error .add := by
  -- The induction is on the number of terms in front of that one; the count is the index.
  induction hdistance : first - index generalizing index with
  | zero =>
      have hfirst : index = first := by omega
      subst hfirst
      have hreached : ¬ hasFewerDigits digits (termsAt index).current = true := by
        rw [hasFewerDigits_iff, ← Text.length_decimal]
        exact Nat.not_lt.mpr hlong
      rw [countShorter, if_pos hword]
      exact if_neg hreached
  | succ distance ih =>
      have hcurrent : hasFewerDigits digits (termsAt index).current = true := by
        rw [hasFewerDigits_iff, ← Text.length_decimal]
        exact hshort index (by omega)
      rw [countShorter, if_pos hcurrent, advance_termsAt]
      by_cases hnext : index + 1 < word
      · rw [Checked.add, if_pos hnext]
        exact ih (by omega) hnext (by omega)
      · rw [Checked.add, if_neg hnext, if_neg (by omega)]
        rfl

end Fibonacci

theorem firstTermWithDigits_eq {first : Nat}
    (hfirst : IsLeast {index | digits ≤ (Text.decimal (Nat.fib index)).length} first) :
    firstTermWithDigits digits = if first < word then .ok first else .error .add := by
  have hshort : ∀ earlier < first, (Text.decimal (Nat.fib earlier)).length < digits := by
    intro earlier hearlier
    exact Nat.not_le.mp fun hlong => hearlier.not_ge (hfirst.2 hlong)
  exact Fibonacci.countShorter_eq hshort hfirst.1 (Nat.zero_le first) (by decide)

theorem takesWhile_isLeast {first : Nat}
    (hfirst : IsLeast {index | digits ≤ (Text.decimal (Nat.fib index)).length} first) :
    Source.TakesWhile (Fibonacci.next : Source Fibonacci Fault Nat)
      (fun term => (Text.decimal term).length < digits) Fibonacci.initial first := by
  apply Source.takesWhile_of_items Fibonacci.answerAt_eq
  · intro earlier hearlier
    rw [decide_eq_true_eq]
    exact Nat.not_le.mp fun hlong => hearlier.not_ge (hfirst.2 hlong)
  · rw [decide_eq_false_iff_not]
    exact Nat.not_lt.mpr hfirst.1

/-- The stream hands out the Fibonacci numbers in order.  For every number of digits there is a
first term whose decimal form is that long; all later terms are that long too, and no more than
five terms for each digit come before it.  Taking terms while they are shorter ends with it.  Its
index is the answer if it is a word, and otherwise the count of the terms before it is a fault. -/
theorem first_term_with_digits_found (digits : Nat) :
    (∀ position, answerAt (Fibonacci.next : Source Fibonacci Fault Nat) position
      Fibonacci.initial = .ok (some (Nat.fib position))) ∧
    ∃ first, IsLeast {index | digits ≤ (Text.decimal (Nat.fib index)).length} first ∧
      first ≤ 5 * digits ∧
      (∀ later, first ≤ later → digits ≤ (Text.decimal (Nat.fib later)).length) ∧
      (∀ taken, Source.TakesWhile (Fibonacci.next : Source Fibonacci Fault Nat)
        (fun term => (Text.decimal term).length < digits) Fibonacci.initial taken ↔
          taken = first) ∧
      (first < word → firstTermWithDigits digits = .ok first) ∧
      (word ≤ first → firstTermWithDigits digits = .error .add) := by
  obtain ⟨first, hbound, hfirst⟩ := Fibonacci.exists_isLeast_length_decimal digits
  refine ⟨Fibonacci.answerAt_eq, first, hfirst, hbound, ?_, ?_, ?_, ?_⟩
  · intro later hlater
    exact hfirst.1.trans (Fibonacci.length_decimal_mono hlater)
  · intro taken
    constructor
    · intro htaken
      exact htaken.unique (takesWhile_isLeast hfirst)
    · rintro rfl
      exact takesWhile_isLeast hfirst
  · intro hword
    rw [firstTermWithDigits_eq hfirst, if_pos hword]
  · intro hpast
    rw [firstTermWithDigits_eq hfirst, if_neg (Nat.not_lt.mpr hpast)]

/-- A thousand digits are first reached at the index 4782, and the term at 5000 has as many. -/
theorem first_term_with_digits_found_for_thousand :
    firstTermWithDigits 1000 = .ok 4782 ∧ 4782 < word ∧
      1000 ≤ (Text.decimal (Nat.fib 5000)).length := by
  obtain ⟨-, first, ⟨hlong, hminimal⟩, -, hlater, -, hfound, -⟩ :=
    first_term_with_digits_found 1000
  have hreached : 1000 ≤ (Text.decimal (Nat.fib 4782)).length := by
    have hlarge : 10 ^ 999 ≤ Nat.fib 4782 := by decide +kernel
    rw [Text.length_decimal]
    exact (pow_le_iff_lt_digitCount (Nat.fib_pos.mpr (by decide))).mp hlarge
  have hshort : (Text.decimal (Nat.fib 4781)).length ≤ 999 := by
    rw [Text.length_decimal]
    exact digitCount_le (by decide) (by decide +kernel)
  have hle : first ≤ 4782 := hminimal hreached
  have hge : 4781 < first := by
    refine Nat.not_le.mp fun hearlier => ?_
    have := hlater 4781 hearlier
    omega
  obtain rfl : first = 4782 := by omega
  have hword : 4782 < word := by decide
  exact ⟨hfound hword, hword, hlater 5000 (by decide)⟩

/-- As many digits as the greatest word says come so late that the terms before are not counted
in words, although there is a first term that has them. -/
theorem greatest_digits_uncounted :
    firstTermWithDigits (word - 1) = .error .add ∧
      ∃ first, IsLeast {index | word - 1 ≤ (Text.decimal (Nat.fib index)).length} first ∧
        firstTermWithDigits (word - 1) ≠ .ok first := by
  obtain ⟨first, -, hfirst⟩ := Fibonacci.exists_isLeast_length_decimal (word - 1)
  have hpast : ¬ first < word := by
    intro hword
    have hmono := Fibonacci.length_decimal_mono (Nat.le_sub_one_of_lt hword)
    have hshort : (Text.decimal (Nat.fib (word - 2 + 1))).length ≤ word - 2 :=
      Fibonacci.length_decimal_le (by decide)
    have hreached : word - 1 ≤ _ := hfirst.1.trans hmono
    have hwide : 2 < word := by decide
    have hlast : word - 1 = word - 2 + 1 := by omega
    rw [hlast] at hreached
    omega
  have hfault := firstTermWithDigits_eq hfirst
  rw [if_neg hpast] at hfault
  refine ⟨hfault, first, hfirst, ?_⟩
  rw [hfault]
  exact nofun

end NumberPuzzles
