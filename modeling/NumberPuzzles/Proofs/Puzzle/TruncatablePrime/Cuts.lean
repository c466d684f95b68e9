import NumberPuzzles.Proofs.Digits
import NumberPuzzles.Proofs.Prime.Table
import NumberPuzzles.Puzzle.TruncatablePrime

/-!
# What the cuts of a number tell

The quotient by a power of ten is what is left when digits are taken off the right end, and
the remainder what is left when they are taken off the left end.  So the powers that are at
most the number meet every beginning and every ending of its digits, and the number itself at
none of them.  The power after the greatest machine word is never formed: a word that is cut
as far up as that begins with a one, which is no prime.
-/

namespace NumberPuzzles.TruncatablePrime

variable {number exponent : Nat}

/-- Both parts are prime at every cut from a power of ten on that is at most the number. -/
def PartsPrime (number exponent : Nat) : Prop :=
  ∀ cut, exponent ≤ cut → 10 ^ cut ≤ number →
    (number / 10 ^ cut).Prime ∧ (number % 10 ^ cut).Prime

theorem partsPrime_of_lt (hpast : number < 10 ^ exponent) : PartsPrime number exponent := by
  intro cut hcut hinside
  have hpower : 10 ^ exponent ≤ 10 ^ cut := Nat.pow_le_pow_right (by norm_num) hcut
  omega

theorem partsPrime_iff (hinside : 10 ^ exponent ≤ number) :
    PartsPrime number exponent ↔
      ((number / 10 ^ exponent).Prime ∧ (number % 10 ^ exponent).Prime) ∧
        PartsPrime number (exponent + 1) := by
  constructor
  · intro hparts
    exact ⟨hparts exponent le_rfl hinside, fun cut hcut => hparts cut (by omega)⟩
  · rintro ⟨hhere, hlater⟩ cut hcut
    rcases hcut.eq_or_lt with rfl | hcut
    · exact fun _ => hhere
    · exact hlater cut hcut

/-- A word with a prime in front of a cut has room for the next power of ten. -/
theorem pow_succ_lt_word (hword : number < word) (hprime : (number / 10 ^ exponent).Prime) :
    10 ^ (exponent + 1) < word := by
  have htwo : 2 * 10 ^ exponent ≤ number :=
    (Nat.le_div_iff_mul_le (Nat.pow_pos (by norm_num))).mp hprime.two_le
  have hexponent : exponent ≤ 18 := by
    by_contra hlarge
    have hpower : 10 ^ 19 ≤ 10 ^ exponent := Nat.pow_le_pow_right (by norm_num) (by omega)
    have hlimit : word < 2 * 10 ^ 19 := by decide
    omega
  calc 10 ^ (exponent + 1) ≤ 10 ^ 19 := Nat.pow_le_pow_right (by norm_num) (by omega)
    _ < word := by decide

/-- From a power that is a word on, the cuts are all looked at and no power past the words is
formed, whatever was asked before. -/
theorem cutsArePrime_run {cuts : Nat} (hword : number < word) (hpower : 10 ^ exponent < word)
    (hcuts : exponent + cuts = 21) {memo : PrimeMemo} (hsound : memo.Sound) :
    ∃ answer after, (cutsArePrime number (10 ^ exponent) cuts).run.run memo =
      (.ok answer, after) ∧ (answer = true ↔ PartsPrime number exponent) ∧ after.Sound := by
  induction cuts generalizing exponent memo with
  | zero =>
      have hlimit : word < 10 ^ 21 := by decide
      rw [← hcuts] at hlimit
      exact absurd hpower hlimit.not_gt
  | succ cuts ih =>
      rw [cutsArePrime]
      split
      next hpast =>
        exact ⟨true, memo, rfl, by simpa using partsPrime_of_lt hpast, hsound⟩
      next hinside =>
        rw [not_lt] at hinside
        have hleft : number / 10 ^ exponent < word :=
          Nat.lt_of_le_of_lt (Nat.div_le_self _ _) hword
        have hright : number % 10 ^ exponent < word :=
          Nat.lt_of_le_of_lt (Nat.mod_le _ _) hword
        obtain ⟨middle, hfront, hmiddle⟩ := isPrimeCached_run hleft hsound
        obtain ⟨last, hback, hlast⟩ := isPrimeCached_run hright hmiddle
        rw [Run.run_bind_ok hfront, partsPrime_iff hinside]
        by_cases hbeginning : (number / 10 ^ exponent).Prime
        · rw [if_pos (decide_eq_true hbeginning), Run.run_bind_ok hback]
          by_cases hending : (number % 10 ^ exponent).Prime
          · have hnext : 10 ^ (exponent + 1) < word := pow_succ_lt_word hword hbeginning
            have hscale : Checked.mul word (10 ^ exponent) 10 = .ok (10 ^ (exponent + 1)) :=
              if_pos hnext
            obtain ⟨answer, after, hrun, hanswer, hafter⟩ := ih hnext (by omega) hlast
            rw [if_pos (decide_eq_true hending), hscale, Run.run_bind_ok (Run.run_lift _ last)]
            refine ⟨answer, after, hrun, ?_, hafter⟩
            rw [hanswer]
            exact (and_iff_right ⟨hbeginning, hending⟩).symm
          · rw [if_neg (by simpa using hending)]
            refine ⟨false, last, rfl, ?_, hlast⟩
            simp [hending]
        · rw [if_neg (by simpa using hbeginning)]
          refine ⟨false, middle, rfl, ?_, hmiddle⟩
          simp [hbeginning]

/-- Whatever was asked before, the test of a word ends without a fault, and it tells whether
the word is above seven and has prime parts at every cut. -/
theorem isTruncatablePrime_run (hword : number < word) {memo : PrimeMemo}
    (hsound : memo.Sound) :
    ∃ answer after, (isTruncatablePrime number).run.run memo = (.ok answer, after) ∧
      (answer = true ↔ 7 < number ∧ PartsPrime number 1) ∧ after.Sound := by
  rw [isTruncatablePrime]
  split
  next hsmall => exact ⟨false, memo, rfl, by simp [hsmall], hsound⟩
  next hlarge =>
    have hten : 10 ^ 1 < word := by decide
    have hcuts : 1 + 20 = 21 := rfl
    obtain ⟨answer, after, hrun, hanswer, hafter⟩ := cutsArePrime_run hword hten hcuts hsound
    exact ⟨answer, after, hrun, by rw [hanswer, and_iff_right (not_le.mp hlarge)], hafter⟩

/-! ## Beginnings and endings -/

/-- The cuts at the powers of ten from ten on are those inside the digits of the number. -/
theorem partsPrime_iff_digits (hpositive : 0 < number) :
    PartsPrime number 1 ↔ ∀ kept, 0 < kept → kept < (digits number).length →
      (positionalValue ((digits number).take kept)).Prime ∧
        (positionalValue ((digits number).drop kept)).Prime := by
  have hcut (kept : Nat) :=
    positionalValue_cut (digits_isDecimalForm number).digit kept
  simp only [positionalValue_digits, length_digits] at hcut ⊢
  constructor
  · intro hparts kept hkept hinside
    rw [(hcut kept).1, (hcut kept).2]
    apply hparts
    · omega
    · rw [pow_le_iff_lt_digitCount hpositive]
      omega
  · intro hdigits cut hpositiveCut hinside
    rw [pow_le_iff_lt_digitCount hpositive] at hinside
    have hparts := hdigits (digitCount number - cut) (by omega) (by omega)
    rw [(hcut _).1, (hcut _).2, Nat.sub_sub_self hinside.le] at hparts
    exact hparts

/-- For every word, prime or not, and whatever was asked before, the test answers whether the
word is above seven and every beginning and every ending of its digits, short of all of them,
is prime.  The word itself is not asked about. -/
theorem truncations_decide {memo : PrimeMemo} (hreached : memo.Reachable)
    (hword : number < word) :
    ∃ answer, ((isTruncatablePrime number).run.run memo).1 = .ok answer ∧
      (answer = true ↔ 7 < number ∧ ∀ kept, 0 < kept → kept < (digits number).length →
        (positionalValue ((digits number).take kept)).Prime ∧
          (positionalValue ((digits number).drop kept)).Prime) := by
  obtain ⟨answer, after, hrun, hanswer, -⟩ := isTruncatablePrime_run hword hreached.sound
  refine ⟨answer, by rw [hrun], ?_⟩
  rw [hanswer]
  refine and_congr_right fun hlarge => ?_
  exact partsPrime_iff_digits (by omega)

/-- After 22 was asked about, 3797 passes: 379, 37 and 3 are prime, and 797, 97 and 7. -/
theorem truncations_decide_of_3797 :
    PrimeMemo.Reachable ((isPrimeCached 22).run.run PrimeMemo.initial).2 ∧ 3797 < word ∧
      ((isTruncatablePrime 3797).run.run
        ((isPrimeCached 22).run.run PrimeMemo.initial).2).1 = .ok true := by
  have hreached : PrimeMemo.Reachable ((isPrimeCached 22).run.run PrimeMemo.initial).2 :=
    .cached .initial (by decide)
  have hword : 3797 < word := by decide
  obtain ⟨answer, hrun, hanswer⟩ := truncations_decide hreached hword
  have hdigits : digits 3797 = [3, 7, 9, 7] := by
    rw [digits_eq_reverse (by decide)]
    norm_num
  have htrue : answer = true := by
    rw [hanswer, hdigits]
    refine ⟨by decide, ?_⟩
    intro kept hkept hinside
    change kept < 4 at hinside
    interval_cases kept <;> norm_num [positionalValue]
  exact ⟨hreached, hword, by rw [hrun, htrue]⟩

/-- Both digits of 22 are prime, so it passes although it is even. -/
theorem composite_passes :
    22 < word ∧ ((isTruncatablePrime 22).run.run PrimeMemo.initial).1 = .ok true ∧
      ¬ Nat.Prime 22 := by
  have hword : 22 < word := by decide
  obtain ⟨answer, after, hrun, hanswer, -⟩ :=
    isTruncatablePrime_run hword PrimeMemo.initial_sound
  have hparts : PartsPrime 22 1 := by
    rw [partsPrime_iff (by decide)]
    exact ⟨by norm_num, partsPrime_of_lt (by decide)⟩
  rw [hrun, hanswer.mpr ⟨by decide, hparts⟩]
  exact ⟨hword, rfl, by norm_num⟩

end NumberPuzzles.TruncatablePrime
