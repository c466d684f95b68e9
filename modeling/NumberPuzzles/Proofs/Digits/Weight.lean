import Mathlib.Algebra.Group.Action.Defs
import Mathlib.Algebra.Order.BigOperators.Group.List
import Mathlib.Data.Nat.Factorial.Basic
import NumberPuzzles.Proofs.Digits

/-!
# Sums over the digits of a number

Each digit is given a weight, and the weights of the digits of a number are added.  The sum
grows with the number of digits, the number itself with the power of ten, so past a certain
length no number equals its own sum.  For powers as weights the checked sum is the exact one
whenever that is a machine word: its partial sums are no larger.  For factorials it always is
one, because a machine word has at most twenty digits.
-/

namespace NumberPuzzles

def digitSum (weight : Nat → Nat) (number : Nat) : Nat := ((digits number).map weight).sum

variable {weight : Nat → Nat} {greatest number : Nat}

theorem digitSum_eq (weight : Nat → Nat) (hpositive : 0 < number) :
    digitSum weight number = ((Nat.digits 10 number).map weight).sum := by
  rw [digitSum, digits_eq_reverse hpositive, List.map_reverse, List.sum_reverse]

/-! ## Numbers that equal their own sum -/

theorem digitSum_le (hweight : ∀ digit ≤ 9, weight digit ≤ greatest) (number : Nat) :
    digitSum weight number ≤ digitCount number * greatest := by
  have hentries : ∀ entry ∈ (digits number).map weight, entry ≤ greatest := by
    intro entry hentry
    obtain ⟨digit, hdigit, rfl⟩ := List.mem_map.mp hentry
    exact hweight digit ((digits_isDecimalForm number).digit digit hdigit)
  calc digitSum weight number ≤ ((digits number).map weight).length • greatest :=
        List.sum_le_card_nsmul _ _ hentries
    _ = digitCount number * greatest := by rw [List.length_map, length_digits, smul_eq_mul]

/-- Once the power of ten is past a multiple, it stays past the next ones. -/
theorem multiple_lt_pow {count more : Nat} (hcount : (count + 1) * greatest < 10 ^ count)
    (hmore : count ≤ more) : (more + 1) * greatest < 10 ^ more := by
  induction more, hmore using Nat.le_induction with
  | base => exact hcount
  | succ more _ ih =>
      have hnext : (more + 1 + 1) * greatest ≤ 10 * ((more + 1) * greatest) := by
        rw [← Nat.mul_assoc]
        exact Nat.mul_le_mul_right greatest (by omega)
      rw [Nat.pow_succ]
      omega

/-- A number that equals its own sum has no more digits than there are multiples of the
greatest weight up to the power of ten, so it is at most that multiple. -/
theorem le_of_eq_digitSum {count : Nat} (hweight : ∀ digit ≤ 9, weight digit ≤ greatest)
    (hcount : (count + 1) * greatest < 10 ^ count) (hself : digitSum weight number = number) :
    number ≤ count * greatest := by
  rcases Nat.eq_zero_or_pos number with rfl | hpositive
  · exact Nat.zero_le _
  have hsum : number ≤ digitCount number * greatest := by
    have := digitSum_le hweight number
    rwa [hself] at this
  have hlength : digitCount number ≤ count := by
    by_contra hlong
    have hbefore : count ≤ digitCount number - 1 := by omega
    have hpast := multiple_lt_pow hcount hbefore
    have hleast := pow_digitCount_le hpositive
    rw [Nat.sub_add_cancel (by omega)] at hpast
    omega
  exact hsum.trans (Nat.mul_le_mul_right greatest hlength)

/-! ## Powers as weights -/

/-- A power is given when it is a machine word. -/
theorem wordPower?_eq (base exponent : Nat) :
    wordPower? base exponent =
      if base ^ exponent < word then some (base ^ exponent) else none := by
  rw [wordPower?]
  split
  next hzero =>
    have hone : 1 < word := by decide
    rw [hzero, Nat.pow_zero, if_pos hone]
  next hexponent =>
    split
    next hbase =>
      have hself : base ^ exponent = base := by
        interval_cases base
        · exact Nat.zero_pow (Nat.pos_of_ne_zero hexponent)
        · exact Nat.one_pow exponent
      have hword : base < word := hbase.trans (by decide)
      rw [hself, if_pos hword]
    next hbase =>
      split
      next hlarge =>
        have hpast : word ≤ base ^ exponent :=
          calc word = 2 ^ 64 := rfl
            _ ≤ 2 ^ exponent := Nat.pow_le_pow_right (by decide) hlarge
            _ ≤ base ^ exponent := Nat.pow_le_pow_left (by omega) exponent
        rw [if_neg (Nat.not_lt.mpr hpast)]
      next => rfl

/-- The digits are added from the last to the first, and no partial sum is past the machine
words before the whole sum is. -/
theorem addDigitPowers?_eq (power number sum : Nat) (hsum : sum < word) :
    addDigitPowers? power number sum =
      if sum + ((Nat.digits 10 number).map (· ^ power)).sum < word then
        some (sum + ((Nat.digits 10 number).map (· ^ power)).sum) else none := by
  fun_induction addDigitPowers? power number sum with
  | case1 sum =>
      simp [hsum]
  | case2 number sum hnumber ih =>
      rw [Nat.digits_def' (by norm_num) (Nat.pos_of_ne_zero hnumber), List.map_cons,
        List.sum_cons, wordPower?_eq, ← Nat.add_assoc]
      by_cases hnext : sum + (number % 10) ^ power < word
      · have hterm : (number % 10) ^ power < word := by omega
        rw [if_pos hterm]
        refine (if_pos hnext).trans ?_
        exact ih _ hnext
      · have hlater : ¬ sum + (number % 10) ^ power +
            ((Nat.digits 10 (number / 10)).map (· ^ power)).sum < word := by omega
        rw [if_neg hlater]
        split
        · exact if_neg hnext
        · rfl

/-- The sum of the powers of the digits is given exactly when it is a machine word. -/
theorem digitPowerSum?_eq (power : Nat) (hpositive : 0 < number) :
    digitPowerSum? power number =
      if digitSum (· ^ power) number < word then some (digitSum (· ^ power) number) else none := by
  rw [digitPowerSum?, addDigitPowers?_eq power number 0 (by decide), digitSum_eq _ hpositive,
    Nat.zero_add]

/-- Of a positive number, the exact sum of the powers of its digits is given if it is a machine
word, and nothing is given exactly when it is not: no power and no partial sum is refused
before the whole sum is past the words. -/
theorem digit_powers_given_below_words (power : Nat) (hpositive : 0 < number) :
    (∀ sum, digitPowerSum? power number = some sum ↔
      sum < word ∧ sum = digitSum (· ^ power) number) ∧
    (digitPowerSum? power number = none ↔ word ≤ digitSum (· ^ power) number) := by
  rw [digitPowerSum?_eq power hpositive]
  by_cases hword : digitSum (· ^ power) number < word
  · rw [if_pos hword]
    refine ⟨fun sum => ?_, by simpa using hword⟩
    rw [Option.some.injEq]
    constructor
    · rintro rfl
      exact ⟨hword, rfl⟩
    · rintro ⟨-, rfl⟩
      rfl
  · rw [if_neg hword]
    refine ⟨fun sum => iff_of_false (by simp) ?_, by simpa using hword⟩
    rintro ⟨hsum, rfl⟩
    exact hword hsum

/-- The sum for 1634 and the fourth powers is the number itself, and that of 10 is one for
every positive exponent that is a half word.  The twentieth power of nine is a word, but not
twice that, and the twenty-first power is none. -/
theorem digit_powers_given_below_words_at_limits :
    (0 < 1634 ∧ digitPowerSum? 4 1634 = some 1634) ∧
      (0 < 10 ∧ digitPowerSum? (halfWord - 1) 10 = some 1 ∧ digitPowerSum? 0 10 = some 2) ∧
      (0 < 99 ∧ 9 ^ 20 < word ∧ digitPowerSum? 20 99 = none) ∧
      (0 < 9 ∧ digitPowerSum? 21 9 = none) := by
  refine ⟨⟨by decide, ?_⟩, ⟨by decide, ?_, ?_⟩, ⟨by decide, by decide, ?_⟩, ⟨by decide, ?_⟩⟩
  · refine ((digit_powers_given_below_words 4 (by decide)).1 1634).mpr ⟨by decide, ?_⟩
    rw [digitSum_eq _ (by decide)]
    norm_num
  · refine ((digit_powers_given_below_words (halfWord - 1) (by decide)).1 1).mpr ⟨by decide, ?_⟩
    rw [digitSum_eq _ (by decide)]
    simp [halfWord]
  · refine ((digit_powers_given_below_words 0 (by decide)).1 2).mpr ⟨by decide, ?_⟩
    rw [digitSum_eq _ (by decide)]
    norm_num
  · refine (digit_powers_given_below_words 20 (by decide)).2.mpr ?_
    rw [digitSum_eq _ (by decide)]
    norm_num [word]
  · refine (digit_powers_given_below_words 21 (by decide)).2.mpr ?_
    rw [digitSum_eq _ (by decide)]
    norm_num [word]

/-! ## Factorials as weights -/

/-- Multiplying on from a factorial gives the factorial as many numbers further on. -/
theorem smallFactorialFrom_eq (current count : Nat)
    (hword : (current + count).factorial < word) :
    smallFactorialFrom current.factorial (current + 1) count =
      .ok (current + count).factorial := by
  induction count generalizing current with
  | zero => rfl
  | succ count ih =>
      have hlater : current + (count + 1) = current + 1 + count := by omega
      rw [hlater] at hword ⊢
      have hproduct : current.factorial * (current + 1) = (current + 1).factorial := by
        rw [Nat.factorial_succ, Nat.mul_comm]
      have hnext : (current + 1).factorial < word :=
        Nat.lt_of_le_of_lt (Nat.factorial_le (Nat.le_add_right _ count)) hword
      rw [smallFactorialFrom, Checked.mul, hproduct, if_pos hnext]
      exact ih (current + 1) hword

theorem smallFactorial_eq (hword : number.factorial < word) :
    smallFactorial number = .ok number.factorial := by
  have hfrom := smallFactorialFrom_eq 0 number (by rwa [Nat.zero_add])
  rw [Nat.zero_add number] at hfrom
  exact hfrom

/-- The digits are added from the last to the first, and no partial sum is past the machine
words when the whole sum is not. -/
theorem addDigitFactorials_eq (number sum : Nat)
    (hword : sum + ((Nat.digits 10 number).map Nat.factorial).sum < word) :
    addDigitFactorials number sum =
      .ok (sum + ((Nat.digits 10 number).map Nat.factorial).sum) := by
  fun_induction addDigitFactorials number sum with
  | case1 sum => simp
  | case2 number sum hnumber ih =>
      rw [Nat.digits_def' (by norm_num) (Nat.pos_of_ne_zero hnumber), List.map_cons,
        List.sum_cons, ← Nat.add_assoc] at hword ⊢
      have hterm : smallFactorial (number % 10) = .ok (number % 10).factorial :=
        smallFactorial_eq (by omega)
      have hsum : sum + (number % 10).factorial < word := by omega
      simp only [hterm, Checked.add, if_pos hsum, Checked.bind_ok]
      exact ih _ hword

/-- The sum of the factorials of the digits of a machine word is a machine word. -/
theorem digitFactorialSum_eq (hpositive : 0 < number) (hword : number < word) :
    digitFactorialSum number = .ok (digitSum Nat.factorial number) := by
  have hbound : digitSum Nat.factorial number < word :=
    calc digitSum Nat.factorial number ≤ digitCount number * Nat.factorial 9 :=
          digitSum_le (fun _ hdigit => Nat.factorial_le hdigit) number
      _ ≤ 20 * Nat.factorial 9 := Nat.mul_le_mul_right _ (digitCount_le_of_word hword)
      _ < word := by decide
  rw [digitSum_eq _ hpositive] at hbound ⊢
  rw [digitFactorialSum, addDigitFactorials_eq number 0 (by rwa [Nat.zero_add]), Nat.zero_add]

end NumberPuzzles
