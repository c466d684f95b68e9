import Mathlib.Algebra.BigOperators.Intervals
import NumberPuzzles.Proofs.Progression
import NumberPuzzles.Proofs.Text.Numeral
import NumberPuzzles.Puzzle.SelfPower

/-!
# Powers and sums of powers modulo a number

Squaring the base and halving the exponent keeps the power, and reducing both factors of a
product keeps its remainder, so the result times the power that is still to be multiplied in
never changes modulo the number.  The product of two remainders of words fits in a double word,
and the running sum stays a remainder, so no check fails whatever the limit is.
-/

namespace NumberPuzzles.SelfPower

variable {divisor result base exponent : Nat}

/-! ## One power -/

/-- The product of two remainders fits in a double word. -/
theorem mul_eq (hdivisor : divisor ≤ word) {left right : Nat} (hleft : left < divisor)
    (hright : right < divisor) : Checked.mul doubleWord left right = .ok (left * right) := by
  have hfits : left * right < doubleWord :=
    calc
      left * right < word * word :=
        Nat.mul_lt_mul'' (hleft.trans_le hdivisor) (hright.trans_le hdivisor)
      _ = doubleWord := by decide
  exact if_pos hfits

theorem rem_eq (hdivisor : 0 < divisor) (value : Nat) :
    Checked.rem value divisor = .ok (value % divisor) :=
  if_neg hdivisor.ne'

/-- A power by the halved exponent, with the factor that halving drops. -/
theorem pow_by_halves (base exponent : Nat) :
    base ^ exponent = base ^ (exponent % 2) * (base * base) ^ (exponent / 2) := by
  calc
    base ^ exponent = base ^ (exponent % 2 + 2 * (exponent / 2)) := by rw [Nat.mod_add_div]
    _ = base ^ (exponent % 2) * (base * base) ^ (exponent / 2) := by
      rw [Nat.pow_add, Nat.pow_mul, Nat.pow_two]

/-- What is still to be multiplied in, over the reduced square. -/
theorem mul_pow_by_halves (divisor result base exponent : Nat) :
    result * base ^ (exponent % 2) * (base * base % divisor) ^ (exponent / 2) ≡
      result * base ^ exponent [MOD divisor] := by
  rw [pow_by_halves base exponent, ← Nat.mul_assoc]
  exact ((Nat.mod_modEq (base * base) divisor).pow (exponent / 2)).mul_left _

/-- One step multiplies in the factor that halving the exponent drops. -/
theorem powerInto_step (hdivisor : divisor ≤ word) (hresult : result < divisor)
    (hbase : base < divisor) (hexponent : exponent ≠ 0) :
    powerInto divisor result base exponent =
      powerInto divisor (result * base ^ (exponent % 2) % divisor) (base * base % divisor)
        (exponent / 2) := by
  have hpos : 0 < divisor := Nat.zero_lt_of_lt hresult
  have hsquare := mul_eq hdivisor hbase hbase
  rw [powerInto, dif_neg hexponent]
  by_cases hodd : exponent % 2 = 1
  · have hproduct := mul_eq hdivisor hresult hbase
    simp only [hodd, if_true, Nat.pow_one, Checked.bind_of_ok hproduct, Checked.bind_of_ok hsquare,
      Checked.bind_of_ok (rem_eq hpos _)]
  · have heven := Nat.mod_two_ne_one.mp hodd
    simp only [if_neg hodd, pure_bind, Checked.bind_of_ok hsquare, Checked.bind_of_ok (rem_eq hpos _)]
    rw [heven, Nat.pow_zero, Nat.mul_one, Nat.mod_eq_of_lt hresult]

/-- The result so far, times the power still to be multiplied in, is what is returned. -/
theorem powerInto_eq (hdivisor : divisor ≤ word) (hresult : result < divisor)
    (hbase : base < divisor) :
    powerInto divisor result base exponent = .ok (result * base ^ exponent % divisor) := by
  have hpos : 0 < divisor := Nat.zero_lt_of_lt hresult
  induction exponent using Nat.strong_induction_on generalizing result base with
  | _ exponent ih =>
      by_cases hzero : exponent = 0
      · rw [powerInto, dif_pos hzero, hzero, Nat.pow_zero, Nat.mul_one, Nat.mod_eq_of_lt hresult]
      have hhalf : exponent / 2 < exponent := by omega
      have hinvariant := mul_pow_by_halves divisor result base exponent
      rw [powerInto_step hdivisor hresult hbase hzero,
        ih _ hhalf (Nat.mod_lt _ hpos) (Nat.mod_lt _ hpos), Nat.mod_mul_mod]
      exact congrArg Except.ok hinvariant

theorem powerMod_eq (hpos : 0 < divisor) (hdivisor : divisor ≤ word) (base exponent : Nat) :
    powerMod base exponent divisor = .ok (base ^ exponent % divisor) := by
  rw [powerMod, rem_eq hpos, rem_eq hpos]
  calc
    powerInto divisor (1 % divisor) (base % divisor) exponent =
        .ok (1 % divisor * (base % divisor) ^ exponent % divisor) :=
      powerInto_eq hdivisor (Nat.mod_lt _ hpos) (Nat.mod_lt _ hpos)
    _ = .ok (base ^ exponent % divisor) := by
      rw [Nat.mod_mul_mod, Nat.one_mul, ← Nat.pow_mod]

/-! ## The sum of self powers -/

def selfPowerSum (limit : Nat) : Nat := ∑ number ∈ Finset.Icc 1 limit, number ^ number

theorem modulus_eq : modulus = 10 ^ 10 := rfl

/-- One step of the sum, as the search for the last digits takes it. -/
def addPower (sum number : Nat) : Checked Nat := do
  Checked.rem (← Checked.add word sum (← powerMod number number modulus)) modulus

/-- Both summands are remainders, so together they are a word. -/
theorem addPower_eq {sum : Nat} (hsum : sum < modulus) (number : Nat) :
    addPower sum number = .ok ((sum + number ^ number) % modulus) := by
  have hpos : 0 < modulus := by decide
  have hpower : number ^ number % modulus < modulus := Nat.mod_lt _ hpos
  have htwice : modulus + modulus < word := by decide
  have hadd : Checked.add word sum (number ^ number % modulus) =
      .ok (sum + number ^ number % modulus) := if_pos (by omega)
  rw [addPower, Checked.bind_of_ok (powerMod_eq hpos (by omega) number number),
    Checked.bind_of_ok hadd, rem_eq hpos, Nat.add_mod_mod]

theorem foldlM_addPower (limit : Nat) :
    (List.range' 1 limit).foldlM addPower 0 = .ok (selfPowerSum limit % modulus) := by
  induction limit with
  | zero => rfl
  | succ limit ih =>
      have hsum : selfPowerSum limit % modulus < modulus := Nat.mod_lt _ (by decide)
      rw [List.range'_1_concat, List.foldlM_append, ih]
      calc
        List.foldlM addPower (selfPowerSum limit % modulus) [1 + limit] =
            addPower (selfPowerSum limit % modulus) (1 + limit) := by
          rw [List.foldlM_cons]
          exact bind_pure _
        _ = .ok ((selfPowerSum limit % modulus + (1 + limit) ^ (1 + limit)) % modulus) :=
          addPower_eq hsum (1 + limit)
        _ = .ok (selfPowerSum (limit + 1) % modulus) := by
          rw [Nat.mod_add_mod, Nat.add_comm 1 limit, selfPowerSum, selfPowerSum,
            Finset.sum_Icc_succ_top (Nat.le_add_left 1 limit)]

theorem lastDigits_eq (limit : Nat) :
    lastDigits limit = .ok (Text.padded 10 (selfPowerSum limit % modulus)) := by
  have hfold : (Progression.inclusive 1 limit).foldM 0 addPower =
      .ok (selfPowerSum limit % modulus) := by
    rw [Progression.foldM_eq_foldlM]
    exact foldlM_addPower limit
  exact congrArg (Except.map (Text.padded 10)) hfold

/-- Powers are exact modulo every word but zero, and the answer for every limit is ten digits:
those of the sum of all self powers up to the limit, modulo the tenth power of ten. -/
theorem last_ten_digits_of_self_powers :
    (∀ base exponent divisor, 1 ≤ divisor → divisor < word →
      powerMod base exponent divisor = .ok (base ^ exponent % divisor)) ∧
    ∀ limit, ∃ text, answer limit = .ok text ∧ text.length = 10 ∧
      Text.IsPaddedForm 10 (selfPowerSum limit % 10 ^ 10) text.toList := by
  refine ⟨fun base exponent divisor hpos hword => powerMod_eq hpos hword.le base exponent, ?_⟩
  intro limit
  have hfits : selfPowerSum limit % 10 ^ 10 < 10 ^ 10 := Nat.mod_lt _ (by decide)
  have hform := Text.padded_isPaddedForm (by decide) hfits
  refine ⟨String.ofList (Text.padded 10 (selfPowerSum limit % 10 ^ 10)), ?_, ?_, ?_⟩
  · rw [answer, lastDigits_eq, modulus_eq]
    rfl
  · rw [String.length_ofList, hform.length_eq]
  · rw [String.toList_ofList]
    exact hform

/-- Modulo the greatest word its predecessor is the opposite of one, which is its own odd power;
and the self powers up to ten add up to a number whose tenth digit from the end is a zero. -/
theorem last_ten_digits_of_self_powers_up_to_ten :
    (1 ≤ word - 1 ∧ word - 1 < word ∧ powerMod (word - 2) 3 (word - 1) = .ok (word - 2)) ∧
      answer 10 = .ok "0405071317" := by
  constructor
  · have hopposite : (word - 2) ^ 3 % (word - 1) = word - 2 := by decide
    have hpower := last_ten_digits_of_self_powers.1 (word - 2) 3 (word - 1) (by decide) (by decide)
    exact ⟨by decide, by decide, hpower.trans (congrArg Except.ok hopposite)⟩
  · obtain ⟨text, hanswer, -, hform⟩ := last_ten_digits_of_self_powers.2 10
    have hsum : selfPowerSum 10 % 10 ^ 10 = 405071317 := by decide
    rw [hsum] at hform
    have hdigits : Text.IsPaddedForm 10 405071317 "0405071317".toList :=
      ⟨rfl, List.all_eq_true.mp (by decide), by decide⟩
    rw [hanswer, String.toList_injective (hform.unique hdigits)]

end NumberPuzzles.SelfPower
