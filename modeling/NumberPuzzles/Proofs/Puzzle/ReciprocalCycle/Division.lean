import NumberPuzzles.Proofs.Puzzle.ReciprocalCycle.Expansion
import NumberPuzzles.Puzzle.ReciprocalCycle

/-!
# The long division finds the cycle

The remainder at a step is that of a power of ten, and the table holds the steps of the
remainders so far, which are distinct and not zero.  There are fewer of them than the divisor
says, so the passes do not run out.  A remainder of zero shows that only two and five divide the
divisor; the first remainder met twice shows the order of ten, since an earlier return would
have been found.
-/

namespace NumberPuzzles.ReciprocalCycle

variable {divisor step : Nat} {seen : Array (Option Nat)}

/-- The table holds the steps before the given one at the remainders met there, of which none
was zero. -/
structure Visited (divisor step : Nat) (seen : Array (Option Nat)) : Prop where
  size_eq : seen.size = divisor
  entry_iff : ∀ remainder earlier, seen[remainder]? = some (some earlier) ↔
    earlier < step ∧ 10 ^ earlier % divisor = remainder
  nonzero : ∀ earlier < step, 10 ^ earlier % divisor ≠ 0

theorem visited_zero (divisor : Nat) : Visited divisor 0 (Array.replicate divisor none) where
  size_eq := Array.size_replicate
  entry_iff remainder earlier := by simp [Array.getElem?_replicate]
  nonzero _ hearlier := absurd hearlier (Nat.not_lt_zero _)

/-- No remainder was met twice so far. -/
theorem Visited.injective (hvisited : Visited divisor step seen) {left right : Nat}
    (hleft : left < step) (hright : right < step)
    (hsame : 10 ^ left % divisor = 10 ^ right % divisor) : left = right := by
  have hentry := (hvisited.entry_iff (10 ^ right % divisor) left).mpr ⟨hleft, hsame⟩
  rw [(hvisited.entry_iff (10 ^ right % divisor) right).mpr ⟨hright, rfl⟩] at hentry
  exact (Option.some.inj (Option.some.inj hentry)).symm

/-- The remainders met are distinct positive numbers below the divisor, so there are fewer
steps than the divisor says. -/
theorem Visited.lt (hpositive : 0 < divisor) (hvisited : Visited divisor step seen) :
    step < divisor := by
  have hcard : (Finset.range step).card ≤ (Finset.Ico 1 divisor).card := by
    apply Finset.card_le_card_of_injOn fun earlier => 10 ^ earlier % divisor
    · intro earlier hearlier
      have hbefore : earlier < step := by simpa using hearlier
      have hnonzero := hvisited.nonzero earlier hbefore
      have hbelow : 10 ^ earlier % divisor < divisor := Nat.mod_lt _ hpositive
      simp only [Finset.coe_Ico, Set.mem_Ico]
      omega
    · intro left hleft right hright hsame
      exact hvisited.injective (by simpa using hleft) (by simpa using hright) hsame
  rw [Finset.card_range, Nat.card_Ico] at hcard
  omega

/-- Writing down a remainder that was not met before. -/
theorem Visited.next (hvisited : Visited divisor step seen)
    (hinside : 10 ^ step % divisor < seen.size) (hnew : seen[10 ^ step % divisor] = none)
    (hnonzero : 10 ^ step % divisor ≠ 0) :
    Visited divisor (step + 1) (seen.set (10 ^ step % divisor) (some step) hinside) where
  size_eq := by rw [Array.size_set, hvisited.size_eq]
  entry_iff remainder earlier := by
    rw [Array.getElem?_set]
    by_cases hhere : 10 ^ step % divisor = remainder
    · subst hhere
      have hmissing : ¬ (earlier < step ∧ 10 ^ earlier % divisor = 10 ^ step % divisor) := by
        rw [← hvisited.entry_iff, Array.getElem?_eq_getElem hinside, hnew]
        simp
      simp only [if_true, Option.some.injEq]
      constructor
      · rintro rfl
        exact ⟨Nat.lt_succ_self _, rfl⟩
      · rintro ⟨hbefore, hsame⟩
        by_contra hother
        exact hmissing ⟨by omega, hsame⟩
    · rw [if_neg hhere, hvisited.entry_iff]
      constructor
      · rintro ⟨hbefore, hsame⟩
        exact ⟨by omega, hsame⟩
      · rintro ⟨hbefore, hsame⟩
        have hother : earlier ≠ step := by
          rintro rfl
          exact hhere hsame
        exact ⟨by omega, hsame⟩
  nonzero earlier hearlier := by
    rcases Nat.lt_succ_iff_lt_or_eq.mp hearlier with hbefore | rfl
    · exact hvisited.nonzero earlier hbefore
    · exact hnonzero

/-- How the division ends: with the remainder zero, or with the first remainder that is met
again. -/
inductive DivisionEnds (divisor : Nat) : (length : Nat) → Prop
  | terminates {step : Nat} (hzero : 10 ^ step % divisor = 0) : DivisionEnds divisor 0
  | recurs {first length : Nat} (hlength : 0 < length) (hnonzero : 10 ^ first % divisor ≠ 0)
      (hsame : 10 ^ (first + length) % divisor = 10 ^ first % divisor)
      (hnew : ∀ shift, 0 < shift → shift < length →
        10 ^ (first + shift) % divisor ≠ 10 ^ first % divisor) :
      DivisionEnds divisor length

/-- A step of the division finds the next remainder, and ten times a remainder is a word. -/
theorem nextRemainder_eq (hpositive : 0 < divisor) (hwidth : divisor * 10 ≤ word) (step : Nat) :
    (do Checked.rem (← Checked.mul word (10 ^ step % divisor) 10) divisor) =
      .ok (10 ^ (step + 1) % divisor) := by
  have hbelow : 10 ^ step % divisor < divisor := Nat.mod_lt _ hpositive
  have hscaled : 10 ^ step % divisor * 10 < word := by omega
  rw [Checked.mul, if_pos hscaled, Checked.bind_ok, Checked.rem, if_neg hpositive.ne',
    Nat.mod_mul_mod, Nat.pow_succ]

/-- With more passes than there are remainders, the division ends without a fault. -/
theorem divideFrom_run (hpositive : 0 < divisor) (hwidth : divisor * 10 ≤ word) (passes : Nat)
    (hvisited : Visited divisor step seen) (hpasses : divisor ≤ passes + step) :
    ∃ length, divideFrom divisor passes seen (10 ^ step % divisor) step = .ok length ∧
      DivisionEnds divisor length := by
  induction passes generalizing step seen with
  | zero =>
      have := hvisited.lt hpositive
      omega
  | succ passes ih =>
      have hinside : 10 ^ step % divisor < seen.size := by
        rw [hvisited.size_eq]
        exact Nat.mod_lt _ hpositive
      rw [divideFrom]
      by_cases hzero : 10 ^ step % divisor = 0
      · rw [if_pos hzero]
        exact ⟨0, rfl, .terminates hzero⟩
      rw [if_neg hzero, dif_pos hinside]
      cases hentry : seen[10 ^ step % divisor] with
      | some first =>
          have hmet : seen[10 ^ step % divisor]? = some (some first) := by
            rw [Array.getElem?_eq_getElem hinside, hentry]
          obtain ⟨hbefore, hsame⟩ := (hvisited.entry_iff _ _).mp hmet
          have hdistance : first + (step - first) = step := by omega
          refine ⟨step - first, if_pos hbefore.le, .recurs (Nat.sub_pos_of_lt hbefore)
            (hsame ▸ hzero) (by rw [hdistance, hsame]) ?_⟩
          intro shift hshift hshorter hreturn
          have := hvisited.injective (by omega) hbefore hreturn
          omega
      | none =>
          have hfewer := hvisited.lt hpositive
          have hstep : step + 1 < word := by omega
          simp only [← bind_assoc, nextRemainder_eq hpositive hwidth, Checked.bind_ok,
            Checked.add, if_pos hstep]
          exact ih (hvisited.next hinside hentry hzero) (by omega)

/-- The division terminates exactly for the divisors that only two and five divide. -/
theorem DivisionEnds.eq_zero_iff (hpositive : 0 < divisor) {length : Nat}
    (hends : DivisionEnds divisor length) :
    length = 0 ↔ ∀ prime, prime.Prime → prime ∣ divisor → prime = 2 ∨ prime = 5 := by
  cases hends with
  | @terminates step hzero =>
      refine iff_of_true rfl ?_
      intro prime hprime hdvd
      have hpower : prime ∣ 10 ^ step := hdvd.trans (Nat.dvd_of_mod_eq_zero hzero)
      have hten : prime ∣ 2 * 5 := hprime.dvd_of_dvd_pow hpower
      rcases (Nat.Prime.dvd_mul hprime).mp hten with htwo | hfive
      · exact .inl ((Nat.prime_dvd_prime_iff_eq hprime Nat.prime_two).mp htwo)
      · exact .inr ((Nat.prime_dvd_prime_iff_eq hprime Nat.prime_five).mp hfive)
  | @recurs first length hlength hnonzero hsame hnew =>
      refine iff_of_false hlength.ne' ?_
      intro hprimes
      obtain ⟨hdvd, -⟩ := (pow_recurs_iff hpositive hlength).mp hsame
      have hwhole := terminatingPart_mul_recurringPart divisor
      rw [recurringPart_eq_one hpositive hprimes, Nat.mul_one] at hwhole
      rw [hwhole] at hdvd
      exact hnonzero (Nat.mod_eq_zero_of_dvd hdvd)

/-- If the division does not terminate, the first return is after the order of ten. -/
theorem DivisionEnds.eq_tenOrder (hpositive : 0 < divisor) {length : Nat}
    (hends : DivisionEnds divisor length) (hrecurs : length ≠ 0) :
    length = tenOrder divisor := by
  cases hends with
  | terminates hzero => exact absurd rfl hrecurs
  | recurs hlength hnonzero hsame hnew =>
      have horder := tenOrder_pos hpositive
      obtain ⟨hterminating, hdvd⟩ := (pow_recurs_iff hpositive hlength).mp hsame
      refine Nat.le_antisymm (Nat.not_lt.mp ?_) (Nat.le_of_dvd hlength hdvd)
      intro hshorter
      exact hnew _ horder hshorter
        ((pow_recurs_iff hpositive horder).mpr ⟨hterminating, Nat.dvd_refl _⟩)

/-- The divisor alone decides how long the cycle is. -/
theorem DivisionEnds.unique (hpositive : 0 < divisor) {left right : Nat}
    (hleft : DivisionEnds divisor left) (hright : DivisionEnds divisor right) : left = right := by
  by_cases hterminates : ∀ prime, prime.Prime → prime ∣ divisor → prime = 2 ∨ prime = 5
  · rw [(hleft.eq_zero_iff hpositive).mpr hterminates,
      (hright.eq_zero_iff hpositive).mpr hterminates]
  · rw [hleft.eq_tenOrder hpositive (mt (hleft.eq_zero_iff hpositive).mp hterminates),
      hright.eq_tenOrder hpositive (mt (hright.eq_zero_iff hpositive).mp hterminates)]

/-- For every positive divisor that leaves room for one more digit in a word, as every half word
does, the division ends without a fault, in at most as many passes as the divisor says.  The
length is zero exactly if no primes but two and five divide the divisor, and otherwise it is the
order of ten modulo the divisor without its factors two and five, which is the least shift after
which the digits of the unit fraction recur. -/
theorem cycle_is_order_of_ten {divisor : Nat} (hpositive : 1 ≤ divisor)
    (hwidth : divisor * 10 ≤ word) :
    ∃ length, cycleLength divisor = .ok length ∧
      (∀ passes, divisor ≤ passes →
        divideFrom divisor passes (Array.replicate divisor none) (1 % divisor) 0 = .ok length) ∧
      (length = 0 ↔ ∀ prime, prime.Prime → prime ∣ divisor → prime = 2 ∨ prime = 5) ∧
      (length ≠ 0 → length = orderOf (10 : ZMod (recurringPart divisor)) ∧
        IsLeast {shift | 0 < shift ∧ RecursAfter divisor shift} length) := by
  have hrun (passes : Nat) (hpasses : divisor ≤ passes) :=
    divideFrom_run hpositive hwidth passes (visited_zero divisor) hpasses
  obtain ⟨length, hlength, hends⟩ := hrun (divisor + 1) (Nat.le_succ divisor)
  have hcycle : cycleLength divisor = .ok length := by
    rw [cycleLength, Checked.rem, if_neg (by omega)]
    exact hlength
  refine ⟨length, hcycle, ?_, hends.eq_zero_iff hpositive, ?_⟩
  · intro passes hpasses
    obtain ⟨other, hother, hotherEnds⟩ := hrun passes hpasses
    rw [hends.unique hpositive hotherEnds]
    exact hother
  · intro hrecurs
    have horder := hends.eq_tenOrder hpositive hrecurs
    exact ⟨horder, horder ▸ tenOrder_isLeast hpositive⟩

/-- One over 28 is 0.03571428 and again 571428: the two digits in front, which the factor four
brings, are no part of the cycle. -/
theorem cycle_of_twenty_eight :
    1 ≤ 28 ∧ 28 * 10 ≤ word ∧ cycleLength 28 = .ok 6 ∧ recurringPart 28 = 7 ∧
      orderOf (10 : ZMod 7) = 6 ∧
      IsLeast {shift | 0 < shift ∧ RecursAfter 28 shift} 6 := by
  have hpositive : 1 ≤ 28 := by decide
  have hwidth : 28 * 10 ≤ word := by decide
  have hcycle : cycleLength 28 = .ok 6 := by decide
  have hpart : recurringPart 28 = 7 := by decide +kernel
  obtain ⟨length, hlength, -, -, hrecurs⟩ := cycle_is_order_of_ten hpositive hwidth
  obtain rfl : length = 6 := Except.ok.inj (hlength.symm.trans hcycle)
  obtain ⟨horder, hleast⟩ := hrecurs (by decide)
  rw [hpart] at horder
  exact ⟨hpositive, hwidth, hcycle, hpart, horder.symm, hleast⟩

end NumberPuzzles.ReciprocalCycle
