import NumberPuzzles.Proofs.Digits.Rotation
import NumberPuzzles.Proofs.Prime.Table
import NumberPuzzles.Puzzle.CircularPrime

/-!
# Rotations of circular primes

A circular prime has no digit zero: the rotation that brings the zero to the end is a multiple of
ten.  So its rotations lose no digit, each has the same rotations from another one on, and is a
circular prime as well.
-/

namespace NumberPuzzles.CircularPrime

variable {number : Nat}

def RotationsPrime (number : Nat) : Prop := ∀ value ∈ rotatedValues number, value.Prime

/-! ## The test -/

/-- A list of words is tested without a fault, and only questions about words are asked. -/
theorem allPrime_run {values : List Nat} (hwords : ∀ value ∈ values, value < word)
    {memo : PrimeMemo} (hreached : memo.Reachable) :
    ∃ answer after, (allPrime values).run.run memo = (.ok answer, after) ∧
      (answer = true ↔ ∀ value ∈ values, value.Prime) ∧ after.Reachable := by
  induction values generalizing memo with
  | nil => exact ⟨true, memo, rfl, by simp, hreached⟩
  | cons value values ih =>
      obtain ⟨hvalue, hrest⟩ := List.forall_mem_cons.mp hwords
      obtain ⟨middle, hrun, hmiddle⟩ := hreached.run_cached hvalue
      rw [allPrime, Run.run_bind_ok hrun]
      by_cases hprime : value.Prime
      · obtain ⟨answer, after, hafter, hanswer, hlater⟩ := ih hrest hmiddle
        rw [if_pos (decide_eq_true hprime)]
        refine ⟨answer, after, hafter, ?_, hlater⟩
        rw [hanswer, List.forall_mem_cons, and_iff_right hprime]
      · rw [if_neg (by simpa using hprime)]
        refine ⟨false, middle, rfl, ?_, hmiddle⟩
        simp [hprime]

/-- Whatever was asked before, the test of a number of at most nineteen digits ends without a
fault and tells whether all rotations are prime. -/
theorem isCircularPrime_run (hsmall : number < 10 ^ 19) {memo : PrimeMemo}
    (hreached : memo.Reachable) :
    ∃ answer after, (isCircularPrime number).run.run memo = (.ok answer, after) ∧
      (answer = true ↔ RotationsPrime number) ∧ after.Reachable := by
  obtain ⟨middle, hrun, hmiddle⟩ := hreached.run_uncached (hsmall.trans (by decide))
  rw [isCircularPrime, Run.run_bind_ok hrun]
  by_cases hprime : number.Prime
  · have hwords : ∀ value ∈ rotatedValues number, value < word :=
      fun _ => lt_word_of_mem_rotatedValues hsmall
    rw [if_pos (decide_eq_true hprime), rotations_eq_of_lt hsmall,
      Run.run_bind_ok (Run.run_lift _ middle)]
    exact allPrime_run hwords hmiddle
  · rw [if_neg (by simpa using hprime)]
    refine ⟨false, middle, rfl, ?_, hmiddle⟩
    refine iff_of_false Bool.false_ne_true fun hall => hprime ?_
    exact hall number (mem_rotatedValues_self number)

/-! ## No zero among the digits -/

theorem not_prime_of_last_zero (front : List Nat) : ¬ (positionalValue (front ++ [0])).Prime := by
  have hvalue : positionalValue (front ++ [0]) = positionalValue front * 10 := by
    rw [positionalValue_append]
    rfl
  have hdvd : 10 ∣ positionalValue (front ++ [0]) := hvalue ▸ Nat.dvd_mul_left 10 _
  intro hprime
  have hten : 10 = positionalValue (front ++ [0]) :=
    (hprime.eq_one_or_self_of_dvd 10 hdvd).resolve_left (by decide)
  rw [← hten] at hprime
  exact absurd hprime (by norm_num)

/-- Some rotation would end in the zero. -/
theorem RotationsPrime.zero_not_mem (hprime : RotationsPrime number) : 0 ∉ digits number := by
  intro hzero
  obtain ⟨front, back, hdigits⟩ := List.append_of_mem hzero
  have hrotated : ((back ++ front) ++ [0]).IsRotated (digits number) := by
    rw [hdigits, List.append_cons front, List.append_assoc back]
    exact List.isRotated_append
  refine not_prime_of_last_zero (back ++ front) (hprime _ ?_)
  exact mem_rotatedValues_iff.mpr ⟨_, hrotated, rfl⟩

theorem RotationsPrime.of_mem (hprime : RotationsPrime number) {value : Nat}
    (hvalue : value ∈ rotatedValues number) : RotationsPrime value := by
  have hrotated := (rotatedValues_isRotated hvalue hprime.zero_not_mem).2
  intro other hother
  exact hprime other (hrotated.mem_iff.mpr hother)

/-- If a number of at most nineteen digits is found to be a circular prime, whatever was asked
before, then its rotations are read without a fault and each of them has as many digits, has the
same rotations in a circle, and is found to be a circular prime, whatever is asked before that;
the test of the number itself leaves such a state. -/
theorem circular_primes_closed_under_rotation {memo : PrimeMemo} (hreached : memo.Reachable)
    (hsmall : number < 10 ^ 19)
    (hcircular : ((isCircularPrime number).run.run memo).1 = .ok true) :
    ((isCircularPrime number).run.run memo).2.Reachable ∧
    ∃ values, rotations number = .ok values ∧ ∀ value ∈ values,
      (∀ later : PrimeMemo, later.Reachable →
        ((isCircularPrime value).run.run later).1 = .ok true) ∧
      digitCount value = digitCount number ∧
      ∃ others, rotations value = .ok others ∧ values.IsRotated others := by
  obtain ⟨answer, after, hrun, hanswer, hafter⟩ := isCircularPrime_run hsmall hreached
  rw [hrun] at hcircular ⊢
  have hprime : RotationsPrime number := hanswer.mp (Except.ok.inj hcircular)
  refine ⟨hafter, rotatedValues number, rotations_eq_of_lt hsmall, ?_⟩
  intro value hvalue
  have hbelow : value < 10 ^ 19 := lt_of_mem_rotatedValues (by norm_num) hsmall hvalue
  obtain ⟨hcount, hrotated⟩ := rotatedValues_isRotated hvalue hprime.zero_not_mem
  refine ⟨?_, hcount, rotatedValues value, rotations_eq_of_lt hbelow, hrotated⟩
  intro later hlater
  obtain ⟨found, last, hlast, hfound, -⟩ := isCircularPrime_run hbelow hlater
  rw [hlast]
  exact congrArg Except.ok (hfound.mpr (hprime.of_mem hvalue))

/-- After 719 was asked about, 197 is found to be a circular prime; so 971 is one as well. -/
theorem circular_primes_closed_under_rotation_of_197 :
    PrimeMemo.Reachable ((isPrimeCached 719).run.run PrimeMemo.initial).2 ∧ 197 < 10 ^ 19 ∧
      ((isCircularPrime 197).run.run
        ((isPrimeCached 719).run.run PrimeMemo.initial).2).1 = .ok true ∧
      ((isCircularPrime 971).run.run PrimeMemo.initial).1 = .ok true := by
  have hreached : PrimeMemo.Reachable ((isPrimeCached 719).run.run PrimeMemo.initial).2 :=
    .cached .initial (by decide)
  have hsmall : 197 < 10 ^ 19 := by norm_num
  have hdigits : digits 197 = [1, 9, 7] := by
    rw [digits_eq_reverse (by decide)]
    norm_num
  have hvalues : rotatedValues 197 = [197, 971, 719] := by
    rw [rotatedValues_eq, hdigits]
    decide
  have hcircular : ((isCircularPrime 197).run.run
      ((isPrimeCached 719).run.run PrimeMemo.initial).2).1 = .ok true := by
    obtain ⟨answer, after, hrun, hanswer, -⟩ := isCircularPrime_run hsmall hreached
    have hprime : RotationsPrime 197 := by
      rw [RotationsPrime, hvalues]
      norm_num
    rw [hrun, hanswer.mpr hprime]
  obtain ⟨-, values, hread, hclosed⟩ :=
    circular_primes_closed_under_rotation hreached hsmall hcircular
  have hmember : 971 ∈ values := by
    rw [rotations_eq_of_lt hsmall, hvalues] at hread
    rw [← Except.ok.inj hread]
    decide
  exact ⟨hreached, hsmall, hcircular, (hclosed 971 hmember).1 PrimeMemo.initial .initial⟩

end NumberPuzzles.CircularPrime
