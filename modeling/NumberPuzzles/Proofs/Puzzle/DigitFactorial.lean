import NumberPuzzles.Proofs.Digits.Weight
import NumberPuzzles.Proofs.Progression
import NumberPuzzles.Puzzle.DigitFactorial

/-!
# The bound on numbers that equal their digit factorial sum

Eight times the factorial of nine has seven digits only, so no number of eight or more digits
equals the sum of the factorials of its digits, whatever its size, and the search up to seven
times the factorial of nine leaves none out.  Every sum that it asks for is a machine word.
-/

namespace NumberPuzzles.DigitFactorial

variable {number : Nat}

/-- A number of any size that equals its digit factorial sum is inside the bound. -/
theorem le_bound_of_self (hself : digitSum Nat.factorial number = number) :
    number ≤ mostDigits * Nat.factorial 9 := by
  have hplaces : (mostDigits + 1) * Nat.factorial 9 < 10 ^ mostDigits := by decide
  exact le_of_eq_digitSum (fun _ hdigit => Nat.factorial_le hdigit) hplaces hself

theorem searchBound_eq : searchBound mostDigits = .ok (mostDigits * Nat.factorial 9) := by
  have hnine : smallFactorial 9 = .ok (Nat.factorial 9) := smallFactorial_eq (by decide)
  have hfits : mostDigits * Nat.factorial 9 < word := by decide
  simp only [searchBound, hnine, Checked.mul, if_pos hfits, Checked.bind_ok]

/-- The test of the search, of a machine word. -/
theorem digitFactorialSum_eq_self_iff (hpositive : 0 < number) (hword : number < word) :
    digitFactorialSum number = .ok number ↔ digitSum Nat.factorial number = number := by
  rw [digitFactorialSum_eq hpositive hword, Except.ok.injEq]

/-- The numbers from ten up to a bound that equal the sum of the factorials of their digits. -/
def selfSums (bound : Nat) : List Nat :=
  (Progression.inclusive 10 bound).toList.filter
    fun number => digitSum Nat.factorial number = number

theorem digitFactorials_eq {places bound : Nat} (hbound : searchBound places = .ok bound)
    (hword : bound < word) :
    digitFactorials places = .ok (selfSums bound) := by
  rw [digitFactorials, hbound]
  refine Progression.filterM_pure (m := Checked) ?_
  intro member hmember
  rw [Progression.mem_toList_inclusive] at hmember
  rw [digitFactorialSum_eq (by omega) (by omega)]
  rfl

/-- The bound of the search leaves no number out. -/
theorem mem_selfSums_iff :
    number ∈ selfSums (mostDigits * Nat.factorial 9) ↔
      10 ≤ number ∧ digitSum Nat.factorial number = number := by
  rw [selfSums, List.mem_filter, Progression.mem_toList_inclusive, decide_eq_true_eq]
  constructor
  · rintro ⟨⟨hlarge, -⟩, hself⟩
    exact ⟨hlarge, hself⟩
  · rintro ⟨hlarge, hself⟩
    exact ⟨⟨hlarge, le_bound_of_self hself⟩, hself⟩

/-- The search lists in ascending order the numbers from ten on that equal the sum of the
factorials of their digits, and among the machine words those are the ones that the checked
sum finds equal.  No number past the bound, of any size, equals its sum.  The checked sum is
the exact one for every positive machine word, and none of them makes it fail. -/
theorem search_finds_all_factorial_sums :
    (∃ found, digitFactorials mostDigits = .ok found ∧ found.Pairwise (· < ·) ∧
        (∀ number, number ∈ found ↔ 10 ≤ number ∧ digitSum Nat.factorial number = number) ∧
        ∀ number, 10 ≤ number → number < word →
          (number ∈ found ↔ digitFactorialSum number = .ok number)) ∧
      (∀ number, 7 * Nat.factorial 9 < number → digitSum Nat.factorial number ≠ number) ∧
      (∀ number, 0 < number → number < word →
        digitFactorialSum number = .ok (digitSum Nat.factorial number)) ∧
      digitFactorialSum 0 = .ok 0 := by
  have hfits : mostDigits * Nat.factorial 9 < word := by decide
  refine ⟨⟨_, digitFactorials_eq searchBound_eq hfits, ?_, fun _ => mem_selfSums_iff, ?_⟩,
    ?_, ?_, ?_⟩
  · exact (Progression.pairwise_toList Nat.one_pos).filter _
  · intro number hlarge hword
    rw [mem_selfSums_iff, digitFactorialSum_eq_self_iff (by omega) hword]
    exact and_iff_right hlarge
  · intro number hpast hself
    exact Nat.not_le.mpr hpast (le_bound_of_self hself)
  · intro number hpositive hword
    exact digitFactorialSum_eq hpositive hword
  · rw [digitFactorialSum, addDigitFactorials]
    rfl

/-- 40585 is found, and no number above 2540160 is missed. -/
theorem search_finds_all_factorial_sums_of_40585 :
    (∃ found, digitFactorials mostDigits = .ok found ∧ 40585 ∈ found) ∧
      10 ≤ 40585 ∧ 40585 < word ∧ digitFactorialSum 40585 = .ok 40585 ∧
      7 * Nat.factorial 9 < 10 ^ 30 ∧ digitSum Nat.factorial (10 ^ 30) ≠ 10 ^ 30 := by
  obtain ⟨⟨found, hfound, -, hmembers, hchecked⟩, hpast, -⟩ := search_finds_all_factorial_sums
  have hself : digitSum Nat.factorial 40585 = 40585 := by
    have hdigits : Nat.digits 10 40585 = [5, 8, 5, 0, 4] := by norm_num
    rw [digitSum_eq _ (by decide), hdigits]
    decide
  have hmember : 40585 ∈ found := (hmembers 40585).mpr ⟨by decide, hself⟩
  refine ⟨⟨found, hfound, hmember⟩, by decide, by decide, ?_, by decide, ?_⟩
  · exact (hchecked 40585 (by decide) (by decide)).mp hmember
  · exact hpast (10 ^ 30) (by decide)

end NumberPuzzles.DigitFactorial
