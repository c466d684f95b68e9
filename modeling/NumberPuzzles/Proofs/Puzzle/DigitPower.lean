import NumberPuzzles.Proofs.Digits.Weight
import NumberPuzzles.Proofs.Progression
import NumberPuzzles.Puzzle.DigitPower

/-!
# The bound on numbers that equal their digit power sum

The power of ten outgrows the multiples of the power of nine before there are two digits more
than the exponent says.  So the bound of the search leaves no number out, of any size, and a
bound that is no machine word stops the search before it starts.
-/

namespace NumberPuzzles.DigitPower

variable {power number : Nat}

/-- Bernoulli's inequality for the tenth over nine, without the quotient. -/
theorem bernoulli_ten_nine (power : Nat) : (power + 9) * 9 ^ power ≤ 9 * 10 ^ power := by
  induction power with
  | zero => exact Nat.le_refl 9
  | succ power ih =>
      calc (power + 1 + 9) * 9 ^ (power + 1) = (9 * power + 90) * 9 ^ power := by ring
        _ ≤ (10 * power + 90) * 9 ^ power := Nat.mul_le_mul_right _ (by omega)
        _ = 10 * ((power + 9) * 9 ^ power) := by ring
        _ ≤ 10 * (9 * 10 ^ power) := Nat.mul_le_mul_left 10 ih
        _ = 9 * 10 ^ (power + 1) := by ring

/-- Two digits more than the exponent says are too many. -/
theorem places_mul_lt_pow (power : Nat) : (power + 2) * 9 ^ power < 10 ^ (power + 1) := by
  have hpositive : 0 < 9 ^ power := Nat.pow_pos (by decide)
  have hscaled : 9 * ((power + 2) * 9 ^ power) < 9 * 10 ^ (power + 1) :=
    calc 9 * ((power + 2) * 9 ^ power) = (9 * power + 18) * 9 ^ power := by ring
      _ < (10 * power + 90) * 9 ^ power := Nat.mul_lt_mul_of_pos_right (by omega) hpositive
      _ = 10 * ((power + 9) * 9 ^ power) := by ring
      _ ≤ 10 * (9 * 10 ^ power) := Nat.mul_le_mul_left 10 (bernoulli_ten_nine power)
      _ = 9 * 10 ^ (power + 1) := by ring
  exact Nat.lt_of_mul_lt_mul_left hscaled

/-- A number of any size that equals its digit power sum is inside the bound. -/
theorem le_bound_of_self (hself : digitSum (· ^ power) number = number) :
    number ≤ (power + 1) * 9 ^ power :=
  le_of_eq_digitSum (fun _ hdigit => Nat.pow_le_pow_left hdigit power) (places_mul_lt_pow power)
    hself

/-! ## The bound as a machine word -/

theorem searchBound_eq (hfits : (power + 1) * 9 ^ power < word) :
    searchBound power = .ok ((power + 1) * 9 ^ power) := by
  have hplaces : power + 1 < word :=
    Nat.lt_of_le_of_lt (Nat.le_mul_of_pos_right _ (Nat.pow_pos (by decide))) hfits
  have hlargest : 9 ^ power < word :=
    Nat.lt_of_le_of_lt (Nat.le_mul_of_pos_left _ (Nat.succ_pos power)) hfits
  simp only [searchBound, Checked.add, if_pos hplaces, wordPower?_eq, if_pos hlargest,
    Checked.mul, if_pos hfits, Checked.bind_ok]

/-- A bound past the machine words is a fault: of the power, or else of the product. -/
theorem searchBound_past (hpower : power < halfWord) (hpast : word ≤ (power + 1) * 9 ^ power) :
    searchBound power = .error (if 9 ^ power < word then .multiply else .exponentiate) := by
  have hhalf : halfWord + 1 < word := by decide
  have hplaces : power + 1 < word := by omega
  simp only [searchBound, Checked.add, if_pos hplaces, wordPower?_eq, Checked.bind_ok]
  split
  next largest hlargest =>
    split at hlargest
    next hword =>
      cases hlargest
      rw [if_pos hword, Checked.mul, if_neg (Nat.not_lt.mpr hpast)]
    next => cases hlargest
  next hlargest =>
    split at hlargest
    next => cases hlargest
    next hword => rw [if_neg hword]

/-! ## The search -/

/-- The test of the search, of a machine word. -/
theorem digitPowerSum?_eq_self_iff (hpositive : 0 < number) (hword : number < word) :
    digitPowerSum? power number = some number ↔ digitSum (· ^ power) number = number := by
  rw [digitPowerSum?_eq power hpositive]
  constructor
  · intro hsum
    split at hsum
    · exact Option.some.inj hsum
    · cases hsum
  · intro hself
    rw [hself, if_pos hword]

theorem digitPowerNumbers_eq (hfits : (power + 1) * 9 ^ power < word) :
    digitPowerNumbers power =
      .ok ((Progression.inclusive 2 ((power + 1) * 9 ^ power)).toList.filter
        fun number => digitPowerSum? power number = some number) := by
  rw [digitPowerNumbers, searchBound_eq hfits, ← Progression.filter_eq]
  rfl

/-- For every exponent whose bound is a machine word, the search lists in ascending order the
numbers from two on, of any size, that equal the sum of the powers of their digits.  For every
exponent at all, no number past the bound does.  And a bound that is not a machine word is a
fault, of the power of nine or else of the product, so no list is cut short. -/
theorem search_finds_all (power : Nat) :
    ((power + 1) * 9 ^ power < word →
      ∃ found, digitPowerNumbers power = .ok found ∧ found.Pairwise (· < ·) ∧
        ∀ number, number ∈ found ↔ 2 ≤ number ∧ digitSum (· ^ power) number = number) ∧
    (∀ number, (power + 1) * 9 ^ power < number → digitSum (· ^ power) number ≠ number) ∧
    (power < halfWord → word ≤ (power + 1) * 9 ^ power →
      digitPowerNumbers power =
        .error (if 9 ^ power < word then .multiply else .exponentiate)) := by
  refine ⟨?_, ?_, ?_⟩
  · intro hfits
    refine ⟨_, digitPowerNumbers_eq hfits, ?_, ?_⟩
    · exact (Progression.pairwise_toList Nat.one_pos).filter _
    · intro number
      rw [List.mem_filter, Progression.mem_toList_inclusive, decide_eq_true_eq]
      constructor
      · rintro ⟨⟨hlarge, hbound⟩, hsum⟩
        exact ⟨hlarge, (digitPowerSum?_eq_self_iff (by omega) (by omega)).mp hsum⟩
      · rintro ⟨hlarge, hself⟩
        have hbound := le_bound_of_self hself
        exact ⟨⟨hlarge, hbound⟩,
          (digitPowerSum?_eq_self_iff (by omega) (by omega)).mpr hself⟩
  · intro number hpast hself
    exact Nat.not_le.mpr hpast (le_bound_of_self hself)
  · intro hpower hpast
    rw [digitPowerNumbers, searchBound_past hpower hpast]
    rfl

/-- With the fourth powers 8208 is found and no number above 32805 is missed; the bound for
the twentieth powers fails at the product, and that for the twenty-first at the power. -/
theorem search_finds_all_fourth_powers :
    (∃ found, digitPowerNumbers 4 = .ok found ∧ 8208 ∈ found) ∧
      (4 + 1) * 9 ^ 4 < word ∧ digitSum (· ^ 4) (10 ^ 30) ≠ 10 ^ 30 ∧
      digitPowerNumbers 20 = .error .multiply ∧ digitPowerNumbers 21 = .error .exponentiate := by
  have hfits : (4 + 1) * 9 ^ 4 < word := by decide
  obtain ⟨found, hfound, -, hmembers⟩ := (search_finds_all 4).1 hfits
  have hself : digitSum (· ^ 4) 8208 = 8208 := by
    rw [digitSum_eq _ (by decide)]
    norm_num
  refine ⟨⟨found, hfound, (hmembers 8208).mpr ⟨by decide, hself⟩⟩, hfits, ?_, ?_, ?_⟩
  · exact (search_finds_all 4).2.1 (10 ^ 30) (by decide)
  · exact (search_finds_all 20).2.2 (by decide) (by decide)
  · exact (search_finds_all 21).2.2 (by decide) (by decide)

end NumberPuzzles.DigitPower
