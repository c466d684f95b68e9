import NumberPuzzles.Proofs.Puzzle.TruncatablePrime.Cuts

/-!
# There are eleven truncatable primes

A prime whose beginnings are all prime grows from such a prime with one digit less, so the
numbers of this kind form a tree with a level for each length.  Some composite numbers may be
left on it: a number stays if it passes trial division by two and the odd numbers up to 501.
The eleventh level is empty even so, and on the levels before it eleven numbers also have
endings that pass.  Those are truncatable primes indeed, and as every truncatable prime of any
size is on the tree, there are no others.
-/

namespace NumberPuzzles.TruncatablePrime

variable {number : Nat}

/-! ## Trial division -/

/-- The odd numbers from a divisor on, as many as told, are tried until the square of one is
past the number, and none of them divides it.  Comparisons are the boolean ones, which are
computed on numerals without a proof of their outcome. -/
def passesOdd (number : Nat) : (divisor count : Nat) → Bool
  | _, 0 => true
  | divisor, count + 1 =>
      Nat.blt number (divisor * divisor) ||
        (!Nat.beq (number % divisor) 0 && passesOdd number (divisor + 2) count)

/-- The number is two, or it is odd and passes trial division by the odd numbers up to 501. -/
def passesTrials (number : Nat) : Bool :=
  Nat.beq number 2 || (Nat.ble 3 number && Nat.beq (number % 2) 1 && passesOdd number 3 250)

theorem passesOdd_of_prime (hprime : number.Prime) {divisor : Nat} (hdivisor : 1 < divisor)
    (count : Nat) : passesOdd number divisor count = true := by
  induction count generalizing divisor with
  | zero => rfl
  | succ count ih =>
      rw [passesOdd, ih (by omega)]
      by_cases hsquare : number < divisor * divisor
      · simp [hsquare]
      · have hrest : number % divisor ≠ 0 := by
          intro hzero
          have hself : divisor = number :=
            (hprime.eq_one_or_self_of_dvd _ (Nat.dvd_of_mod_eq_zero hzero)).resolve_left
              hdivisor.ne'
          have hgrows : divisor * 1 < divisor * divisor :=
            Nat.mul_lt_mul_of_pos_left hdivisor (by omega)
          omega
        have htest : Nat.beq (number % divisor) 0 = false := by
          rwa [Bool.eq_false_iff, ne_eq, Nat.beq_eq]
        simp [htest]

theorem passesTrials_of_prime (hprime : number.Prime) : passesTrials number = true := by
  rcases hprime.eq_two_or_odd with rfl | hodd
  · rfl
  · have hthree : 3 ≤ number := by
      have := hprime.two_le
      omega
    simp [passesTrials, passesOdd_of_prime hprime, hodd, hthree]

/-! ## The tree -/

/-- The numbers of so many digits behind the first whose beginnings all pass. -/
def stems : (places : Nat) → List Nat
  | 0 => (List.range 10).filter passesTrials
  | places + 1 =>
      ((stems places).flatMap fun stem => (List.range 10).map (10 * stem + ·)).filter
        passesTrials

/-- A number with prime beginnings is on the tree.  The induction takes its last digit off. -/
theorem mem_stems {places : Nat} (hbelow : number < 10 ^ (places + 1))
    (hprime : ∀ cut ≤ places, (number / 10 ^ cut).Prime) : number ∈ stems places := by
  have hself : number.Prime := by simpa using hprime 0 (Nat.zero_le places)
  induction places generalizing number with
  | zero =>
      rw [stems, List.mem_filter]
      exact ⟨List.mem_range.mpr hbelow, passesTrials_of_prime hself⟩
  | succ places ih =>
      have hshorter : number / 10 < 10 ^ (places + 1) := by
        rw [Nat.pow_succ] at hbelow
        omega
      have hbeginnings : ∀ cut ≤ places, (number / 10 / 10 ^ cut).Prime := by
        intro cut hcut
        rw [Nat.div_div_eq_div_mul, ← Nat.pow_succ']
        exact hprime (cut + 1) (by omega)
      have hstem : number / 10 ∈ stems places :=
        ih hshorter hbeginnings (by simpa using hbeginnings 0 (Nat.zero_le places))
      rw [stems, List.mem_filter, List.mem_flatMap]
      refine ⟨⟨number / 10, hstem, List.mem_map.mpr ⟨number % 10, ?_, ?_⟩⟩,
        passesTrials_of_prime hself⟩
      · exact List.mem_range.mpr (Nat.mod_lt _ (by norm_num))
      · exact Nat.div_add_mod number 10

/-- The numbers of two to ten digits on the tree whose endings pass too. -/
def candidates : List Nat :=
  (List.range 9).flatMap fun places =>
    (stems (places + 1)).filter fun stem =>
      (List.range (places + 1)).all fun cut => passesTrials (stem % 10 ^ (cut + 1))

def truncatablePrimes : List Nat :=
  [23, 37, 53, 73, 313, 317, 373, 797, 3137, 3797, 739397]

theorem tree_ends : stems 10 = [] ∧ candidates = truncatablePrimes := by decide +kernel

/-- Every beginning of a truncatable prime is prime, the number itself among them. -/
theorem prime_beginning (hprime : number.Prime) (hparts : PartsPrime number 1) {cut : Nat}
    (hcut : cut < digitCount number) : (number / 10 ^ cut).Prime := by
  rcases Nat.eq_zero_or_pos cut with rfl | hpositive
  · rwa [Nat.pow_zero, Nat.div_one]
  · exact (hparts cut hpositive ((pow_le_iff_lt_digitCount hprime.pos).mpr hcut)).1

/-- A truncatable prime has at most ten digits, for its first eleven would be on the tree. -/
theorem digitCount_le_ten (hprime : number.Prime) (hparts : PartsPrime number 1) :
    digitCount number ≤ 10 := by
  by_contra hlong
  obtain ⟨behind, hbehind⟩ : ∃ behind, digitCount number = behind + 11 :=
    Nat.exists_eq_add_of_le' (by omega)
  have hbelow : number / 10 ^ behind < 10 ^ (10 + 1) := by
    apply Nat.div_lt_of_lt_mul
    rw [← Nat.pow_add, ← hbehind]
    exact lt_pow_digitCount hprime.pos
  have hstem : number / 10 ^ behind ∈ stems 10 := by
    apply mem_stems hbelow
    intro cut hcut
    rw [Nat.div_div_eq_div_mul, ← Nat.pow_add]
    exact prime_beginning hprime hparts (by omega)
  rw [tree_ends.1] at hstem
  cases hstem

theorem mem_candidates (hprime : number.Prime) (hlarge : 7 < number)
    (hparts : PartsPrime number 1) : number ∈ candidates := by
  have hten : 10 ^ 1 ≤ number := by
    by_contra hsmall
    interval_cases number
    · exact absurd hprime (by norm_num)
    · exact absurd hprime (by norm_num)
  have htwo : 1 < digitCount number := (pow_le_iff_lt_digitCount hprime.pos).mp hten
  have hshort := digitCount_le_ten hprime hparts
  obtain ⟨places, hplaces⟩ : ∃ places, digitCount number = places + 1 + 1 :=
    Nat.exists_eq_add_of_le' htwo
  rw [candidates, List.mem_flatMap]
  refine ⟨places, List.mem_range.mpr (by omega), List.mem_filter.mpr ⟨?_, ?_⟩⟩
  · apply mem_stems
    · rw [← hplaces]
      exact lt_pow_digitCount hprime.pos
    · intro cut hcut
      exact prime_beginning hprime hparts (by omega)
  · rw [List.all_eq_true]
    intro cut hcut
    rw [List.mem_range] at hcut
    have hinside : 10 ^ (cut + 1) ≤ number :=
      (pow_le_iff_lt_digitCount hprime.pos).mpr (by omega)
    exact passesTrials_of_prime (hparts (cut + 1) (by omega) hinside).2

theorem of_mem_truncatablePrimes (hmember : number ∈ truncatablePrimes) :
    number.Prime ∧ 7 < number ∧ PartsPrime number 1 := by
  simp only [truncatablePrimes, List.mem_cons, List.not_mem_nil, or_false] at hmember
  rcases hmember with rfl | rfl | rfl | rfl | rfl | rfl | rfl | rfl | rfl | rfl | rfl
  all_goals
    -- One rewriting for each power of ten inside the number, and the last one past it.
    simp (disch := norm_num) only [partsPrime_iff, partsPrime_of_lt]
    norm_num

/-- The eleven numbers are all the truncatable primes there are, of any size. -/
theorem mem_truncatablePrimes_iff :
    number ∈ truncatablePrimes ↔ number.Prime ∧ 7 < number ∧ PartsPrime number 1 := by
  refine ⟨of_mem_truncatablePrimes, ?_⟩
  rintro ⟨hprime, hlarge, hparts⟩
  rw [← tree_ends.2]
  exact mem_candidates hprime hlarge hparts

end NumberPuzzles.TruncatablePrime
