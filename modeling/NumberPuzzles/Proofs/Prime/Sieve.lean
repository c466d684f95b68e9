import NumberPuzzles.Prime.Sieve
import NumberPuzzles.Proofs.Prime.Stream
import NumberPuzzles.Proofs.Prime.Table
import NumberPuzzles.Proofs.Progression

/-!
# The sieve, the stream and trial division agree

Before a number is looked at, the sieve has left marked exactly the primes and the
composites whose least prime factor is that number or larger.  Once the square of the
number is past the table no such composite is left.  So the sieve lists the primes below
its limit, and these are also the items of the stream below the limit and the numbers
below it that trial division accepts, whatever the state of the shared table.
-/

namespace NumberPuzzles

namespace Sieve

variable {limit : Nat} {marks : Vector Bool limit} {current : Nat}

/-- The numbers reached in steps from one position are that position and the numbers
reached from the next. -/
theorem reached_iff {step position number : Nat} (hpositive : 0 < step)
    (hother : position ≠ number) :
    position ≤ number ∧ step ∣ number - position ↔
      position + step ≤ number ∧ step ∣ number - (position + step) := by
  constructor
  · rintro ⟨hle, hdvd⟩
    have hstep : step ≤ number - position := Nat.le_of_dvd (by omega) hdvd
    refine ⟨by omega, ?_⟩
    rw [Nat.sub_add_eq]
    exact Nat.dvd_sub hdvd (Nat.dvd_refl step)
  · rintro ⟨hle, hdvd⟩
    refine ⟨by omega, ?_⟩
    have hsum : number - position = number - (position + step) + step := by omega
    rw [hsum]
    exact Nat.dvd_add hdvd (Nat.dvd_refl step)

/-- Striking takes the marks of the position and of the numbers reached in steps from it,
and no others. -/
theorem getElem_strike {step : Nat} (positive : 0 < step) (position : Nat)
    (marks : Vector Bool limit) {number : Nat} (hnumber : number < limit) :
    (strike step position positive marks)[number] = true ↔
      marks[number] = true ∧ ¬ (position ≤ number ∧ step ∣ number - position) := by
  fun_induction strike step position positive marks with
  | case1 position marks inside ih =>
      rw [ih]
      by_cases hsame : position = number
      · subst hsame
        simp
      · rw [Vector.getElem_set_ne inside hnumber hsame, reached_iff positive hsame]
  | case2 position marks outside =>
      have hbefore : ¬ position ≤ number := by omega
      simp [hbefore]

/-- From the square of a number on, the numbers struck in steps of it are its multiples. -/
theorem square_reaches_iff {number : Nat} :
    current * current ≤ number ∧ current ∣ number - current * current ↔
      current * current ≤ number ∧ current ∣ number := by
  refine and_congr_right fun hle => ?_
  exact (Nat.dvd_sub_iff_left hle (Nat.dvd_mul_right current current))

/-- Marked are exactly the primes and the composites with no prime factor below the
current number. -/
def Sifted (current : Nat) (marks : Vector Bool limit) : Prop :=
  ∀ (number : Nat) (hnumber : number < limit),
    marks[number] = true ↔ 2 ≤ number ∧ (number.Prime ∨ current ≤ number.minFac)

/-- A number that is still marked when its turn comes is prime. -/
theorem Sifted.prime_iff (hsifted : Sifted current marks) (hlarge : 2 ≤ current)
    (hinside : current < limit) : marks[current] = true ↔ current.Prime := by
  rw [hsifted current hinside]
  constructor
  · rintro ⟨-, hprime | hle⟩
    · exact hprime
    · have hself : current.minFac = current := Nat.le_antisymm (Nat.minFac_le (by omega)) hle
      exact (Nat.prime_def_minFac).mpr ⟨hlarge, hself⟩
  · intro hprime
    exact ⟨hlarge, .inl hprime⟩

/-- Striking the multiples of a prime from its square on takes exactly the composites of
which it is the least prime factor. -/
theorem Sifted.strike (hsifted : Sifted current marks) (hprime : current.Prime) :
    Sifted (current + 1) (strike current (current * current) hprime.pos marks) := by
  intro number hnumber
  rw [getElem_strike, square_reaches_iff, hsifted number hnumber, and_assoc]
  refine and_congr_right fun hlarge => ?_
  constructor
  · rintro ⟨hprime | hle, hkept⟩
    · exact .inl hprime
    · by_cases hnumberPrime : number.Prime
      · exact .inl hnumberPrime
      · refine .inr (Nat.lt_of_le_of_ne hle ?_)
        rintro rfl
        have hsquare := Nat.minFac_sq_le_self (by omega) hnumberPrime
        exact hkept ⟨by rwa [← Nat.pow_two], Nat.minFac_dvd number⟩
  · rintro (hnumberPrime | hlater)
    · refine ⟨.inl hnumberPrime, ?_⟩
      rintro ⟨hsquare, hdvd⟩
      have hself : current = number :=
        (Nat.prime_dvd_prime_iff_eq hprime hnumberPrime).mp hdvd
      have hbelow : current < current * current := Nat.lt_mul_self_iff.mpr hprime.one_lt
      omega
    · refine ⟨.inr (by omega), ?_⟩
      rintro ⟨-, hdvd⟩
      have hleast : number.minFac ≤ current := Nat.minFac_le_of_dvd hprime.two_le hdvd
      omega

/-- A composite is no least prime factor, so there is nothing to strike for it. -/
theorem Sifted.skip (hsifted : Sifted current marks) (hcomposite : ¬ current.Prime) :
    Sifted (current + 1) marks := by
  intro number hnumber
  rw [hsifted number hnumber]
  refine and_congr_right fun hlarge => or_congr_right ?_
  have hother : number.minFac ≠ current := by
    rintro rfl
    exact hcomposite (Nat.minFac_prime (by omega))
  omega

/-- Sifting to the end leaves marked the primes alone. -/
theorem sift_marks (positive : 0 < current) (marks : Vector Bool limit) (hlarge : 2 ≤ current)
    (hsifted : Sifted current marks) {number : Nat} (hnumber : number < limit) :
    (sift current positive marks)[number] = true ↔ number.Prime := by
  fun_induction sift current positive marks with
  | case1 current positive marks inside hcurrent ih =>
      apply ih (by omega)
      have hprime := hsifted.prime_iff hlarge hcurrent
      split
      next hmarked => exact hsifted.strike (hprime.mp hmarked)
      next hstruck => exact hsifted.skip fun hcurrentPrime => hstruck (hprime.mpr hcurrentPrime)
  | case2 current positive marks outside =>
      rw [hsifted number hnumber]
      constructor
      · rintro ⟨htwo, hprime | hle⟩
        · exact hprime
        · by_contra hcomposite
          -- The least prime factor of a composite in the table has its square in the table.
          have hsquare := Nat.minFac_sq_le_self (by omega) hcomposite
          have hcurrent : current * current ≤ number.minFac ^ 2 := by
            rw [Nat.pow_two]
            exact Nat.mul_le_mul hle hle
          omega
      · intro hprime
        exact ⟨hprime.two_le, .inl hprime⟩

/-- The marked numbers are listed in order. -/
theorem marked_eq (hmarks : ∀ (number : Nat) (hnumber : number < limit),
    marks[number] = true ↔ number.Prime) {position : Nat} (hposition : position ≤ limit)
    (kept : List Nat) : marked marks position hposition kept = primesUnder position ++ kept := by
  induction position generalizing kept with
  | zero => rfl
  | succ position ih =>
      rw [marked, ih]
      by_cases hprime : position.Prime
      · rw [if_pos ((hmarks position hposition).mpr hprime), primesUnder_succ_of_prime hprime,
          List.append_assoc, List.singleton_append]
      · rw [if_neg fun hmarked => hprime ((hmarks position hposition).mp hmarked),
          primesUnder_succ_of_not_prime hprime]

/-- At first all numbers but zero and one are marked. -/
theorem sifted_two (hzero : 0 < limit) (hone : 1 < limit) :
    Sifted 2 (((Vector.replicate limit true).set 0 false).set 1 false) := by
  intro number hnumber
  rw [Vector.getElem_set, Vector.getElem_set, Vector.getElem_replicate]
  constructor
  · intro hmarked
    have hlarge : 2 ≤ number := by
      by_contra hsmall
      have hcases : number = 0 ∨ number = 1 := by omega
      rcases hcases with rfl | rfl
      · simp at hmarked
      · simp at hmarked
    exact ⟨hlarge, .inr (Nat.minFac_prime (by omega)).two_le⟩
  · rintro ⟨hlarge, -⟩
    rw [if_neg (by omega), if_neg (by omega)]

end Sieve

/-- The sieve lists the primes below its limit. -/
@[simp]
theorem primesBelow_eq (limit : Nat) : primesBelow limit = primesUnder limit := by
  by_cases hsmall : limit < 3
  · rw [primesBelow, dif_pos hsmall]
    have htwo : ∀ number, 0 ≤ number → number < limit → ¬ number.Prime := by
      intro number _ hnumber hprime
      have := hprime.two_le
      omega
    rw [primesUnder_eq_of_no_prime (Nat.zero_le limit) htwo]
    rfl
  · rw [primesBelow, dif_neg hsmall]
    have hmarks (number : Nat) (hnumber : number < limit) := Sieve.sift_marks (by decide)
      _ le_rfl (Sieve.sifted_two (by omega) (by omega)) hnumber
    exact (Sieve.marked_eq hmarks le_rfl []).trans (List.append_nil _)

/-! ## The stream and trial division -/

@[simp]
theorem getElem?_primesUnder {bound position item : Nat} :
    (primesUnder bound)[position]? = some item ↔
      item < bound ∧ Nat.nth Nat.Prime position = item := by
  have hbelow : position < Nat.count Nat.Prime bound ↔ Nat.nth Nat.Prime position < bound := by
    rw [← not_le, Nat.count_le_iff_le_nth Nat.infinite_setOfPred_prime, not_le]
  rw [primesUnder_eq_map_nth, List.getElem?_eq_some_iff]
  simp only [List.getElem_map, List.getElem_range, List.length_map, List.length_range, hbelow,
    exists_prop]
  constructor
  · rintro ⟨hinside, rfl⟩
    exact ⟨hinside, rfl⟩
  · rintro ⟨hinside, rfl⟩
    exact ⟨hinside, rfl⟩

/-- The items of the stream below a limit are the primes below it, in the same places. -/
theorem PrimeStream.getElem?_primesUnder_iff {limit : Nat} (hlimit : limit < halfWord)
    (position item : Nat) :
    (primesUnder limit)[position]? = some item ↔
      item < limit ∧ Source.answerAt next position initial = .ok (some item) := by
  have hhalf : halfWord < word - 2 := by decide
  rw [getElem?_primesUnder]
  refine and_congr_right fun hitem => ?_
  rw [answerAt_eq_some_iff (by omega)]

/-- Trial division, asked about the numbers below a limit one after the other, accepts the
primes among them, from every sound state of the shared table. -/
theorem filterM_isPrimeUncached {limit : Nat} (hlimit : limit ≤ word) {memo : PrimeMemo}
    (hsound : memo.Sound) :
    ∃ after, ((Progression.below 0 limit).filterM isPrimeUncached).run.run memo =
      (.ok (primesUnder limit), after) ∧ after.Sound := by
  have hrange : (Progression.below 0 limit).toList = List.range limit := by
    rw [Progression.toList, Progression.below, Nat.sub_zero, List.range_eq_range']
  have htest : ∀ number ∈ (Progression.below 0 limit).toList, ∀ memo : PrimeMemo, memo.Sound →
      ∃ after, (isPrimeUncached number).run.run memo = (.ok (decide number.Prime), after) ∧
        after.Sound := by
    intro number hnumber memo hsound
    have hbelow := (Progression.mem_toList_below.mp hnumber).2
    exact isPrimeUncached_run (Nat.lt_of_lt_of_le hbelow hlimit) hsound
  obtain ⟨after, hrun, hafter⟩ := Progression.filterM_run htest hsound
  exact ⟨after, by rw [hrun, hrange]; rfl, hafter⟩

/-- Below a limit that is a half word, the sieve lists all primes in ascending order, each
position that it reads or strikes being one of its table by type.  The stream from its
start has the same items below the limit in the same places, and trial division accepts
the same numbers below the limit, whatever was asked before. -/
theorem sieve_stream_and_trial_agree {limit : Nat} (hlimit : limit < halfWord) {memo : PrimeMemo}
    (hreached : memo.Reachable) :
    (primesBelow limit).Pairwise (· < ·) ∧
      (∀ number, number ∈ primesBelow limit ↔ number < limit ∧ number.Prime) ∧
      (∀ position item, (primesBelow limit)[position]? = some item ↔
        item < limit ∧
          Source.answerAt PrimeStream.next position PrimeStream.initial = .ok (some item)) ∧
      (((Progression.below 0 limit).filterM isPrimeUncached).run.run memo).1 =
        .ok (primesBelow limit) := by
  have hword : halfWord ≤ word := by decide
  obtain ⟨after, hrun, -⟩ :=
    filterM_isPrimeUncached (Nat.le_trans hlimit.le hword) hreached.sound
  rw [primesBelow_eq]
  refine ⟨primesUnder_pairwise limit, fun number => mem_primesUnder, ?_, ?_⟩
  · exact PrimeStream.getElem?_primesUnder_iff hlimit
  · rw [hrun]

/-- Just past the square of seven, and after 49 itself was asked about: 49 is on no list, and
47 is the fifteenth entry of the sieve's and the fifteenth item of the stream. -/
theorem sieve_stream_and_trial_agree_past_square :
    50 < halfWord ∧
      PrimeMemo.Reachable ((isPrimeCached 49).run.run PrimeMemo.initial).2 ∧
      49 ∉ primesBelow 50 ∧
      (primesBelow 50)[14]? = some 47 ∧
      Source.answerAt PrimeStream.next 14 PrimeStream.initial = .ok (some 47) ∧
      (((Progression.below 0 50).filterM isPrimeUncached).run.run
        ((isPrimeCached 49).run.run PrimeMemo.initial).2).1 = .ok (primesBelow 50) := by
  have hsmall : 50 < halfWord := by decide
  have hreached : PrimeMemo.Reachable ((isPrimeCached 49).run.run PrimeMemo.initial).2 :=
    .cached .initial (by decide)
  obtain ⟨-, hmembers, hitems, htrial⟩ := sieve_stream_and_trial_agree hsmall hreached
  have hentry : (primesBelow 50)[14]? = some 47 := by
    rw [primesBelow_eq]
    decide +kernel
  refine ⟨hsmall, hreached, ?_, hentry, ((hitems 14 47).mp hentry).2, htrial⟩
  rw [hmembers]
  decide +kernel

end NumberPuzzles
