import Mathlib.Algebra.BigOperators.Intervals
import NumberPuzzles.Proofs.Checked
import NumberPuzzles.Proofs.Divisor
import NumberPuzzles.Proofs.Prime.Sieve
import NumberPuzzles.Puzzle.PrimeRun

/-!
# Sums of consecutive primes

The sum of a run is the difference of two sums from the first prime on.  Below a limit that is a
half word the primes add up to less than a machine word, so the table of these sums is made
without a fault.
-/

namespace NumberPuzzles.PrimeRun

variable {count limit start length : Nat} {sums : Array Nat}

noncomputable def runSum (start length : Nat) : Nat :=
  ∑ position ∈ Finset.Ico start (start + length), Nat.nth Nat.Prime position

@[simp]
theorem runSum_zero (start : Nat) : runSum start 0 = 0 := by simp [runSum]

theorem runSum_succ (start length : Nat) :
    runSum start (length + 1) = runSum start length + Nat.nth Nat.Prime (start + length) :=
  Finset.sum_Ico_succ_top (Nat.le_add_right start length) _

theorem runSum_mono (start : Nat) {shorter longer : Nat} (hle : shorter ≤ longer) :
    runSum start shorter ≤ runSum start longer :=
  Finset.sum_le_sum_of_subset (Finset.Ico_subset_Ico_right (Nat.add_le_add_left hle start))

/-- The sum of a run, as it is read off the table. -/
theorem runSum_sub {position : Nat} (hle : start ≤ position) :
    runSum 0 position - runSum 0 start = runSum start (position - start) := by
  have hsplit : runSum 0 start + runSum start (position - start) = runSum 0 position := by
    rw [runSum, runSum, runSum, Nat.zero_add, Nat.zero_add, Nat.add_sub_cancel' hle]
    exact Finset.sum_Ico_consecutive _ (Nat.zero_le start) hle
  omega

/-- A run whose sum is below the limit consists of primes below the limit. -/
theorem end_le_count (hsum : runSum start length < limit) (hlength : 0 < length) :
    start + length ≤ Nat.count Nat.Prime limit := by
  obtain ⟨shorter, rfl⟩ := Nat.exists_eq_add_of_le' hlength
  have hlast : Nat.nth Nat.Prime (start + shorter) < limit := by
    rw [runSum_succ] at hsum
    omega
  have hinside : ¬ Nat.count Nat.Prime limit ≤ start + shorter := by
    rw [Nat.count_le_iff_le_nth Nat.infinite_setOfPred_prime]
    exact Nat.not_le.mpr hlast
  omega

theorem runSum_lt_word (hlimit : limit < halfWord) :
    runSum 0 (Nat.count Nat.Prime limit) < word := by
  have hinjective : Function.Injective (Nat.nth Nat.Prime) :=
    Nat.nth_injective Nat.infinite_setOfPred_prime
  have hinside : (Finset.Ico 0 (Nat.count Nat.Prime limit)).image (Nat.nth Nat.Prime) ⊆
      Finset.Icc 1 limit := by
    intro prime hprime
    obtain ⟨position, hposition, rfl⟩ := Finset.mem_image.mp hprime
    have hbelow := Nat.nth_lt_of_lt_count (Finset.mem_Ico.mp hposition).2
    exact Finset.mem_Icc.mpr ⟨(Nat.prime_nth_prime position).pos, hbelow.le⟩
  have htotal := sum_lt_word hlimit hinside
  rw [Finset.sum_image fun _ _ _ _ hsame => hinjective hsame] at htotal
  rwa [runSum, Nat.zero_add]

abbrev HoldsSums (count : Nat) (sums : Array Nat) : Prop :=
  Checked.Tabulates (count + 1) (runSum 0) sums

theorem holdsSums_zero : HoldsSums 0 #[0] where
  size_eq := rfl
  getElem_eq position hposition := by
    obtain rfl := Nat.lt_one_iff.mp hposition
    rw [runSum_zero]
    rfl

/-- Adding further primes keeps the sums, as long as the last one is a machine word. -/
theorem partialSums_run (more : Nat) (hsums : HoldsSums count sums)
    (hword : runSum 0 (count + more) < word) :
    ∃ after, partialSums ((List.range' count more).map (Nat.nth Nat.Prime)) (runSum 0 count) sums =
      .ok after ∧ HoldsSums (count + more) after := by
  induction more generalizing count sums with
  | zero => exact ⟨sums, rfl, hsums⟩
  | succ more ih =>
      have hmore : count + (more + 1) = count + 1 + more := by omega
      rw [hmore] at hword ⊢
      have hnext : Checked.add word (runSum 0 count) (Nat.nth Nat.Prime count) =
          .ok (runSum 0 (count + 1)) := by
        have hsucc := runSum_succ 0 count
        have hmono : runSum 0 (count + 1) ≤ runSum 0 (count + 1 + more) :=
          runSum_mono 0 (Nat.le_add_right _ _)
        rw [Nat.zero_add] at hsucc
        rw [Checked.add, ← hsucc, if_pos (by omega)]
      obtain ⟨after, hrun, hafter⟩ := ih hsums.push hword
      refine ⟨after, ?_, hafter⟩
      rw [List.range'_succ, List.map_cons, partialSums, hnext]
      exact hrun

theorem length_primesBelow (limit : Nat) :
    (primesBelow limit).length = Nat.count Nat.Prime limit := by
  rw [primesBelow_eq, primesUnder_eq_map_nth, List.length_map, List.length_range]

/-- The table for a limit that is a half word. -/
theorem partialSums_primesBelow (hlimit : limit < halfWord) :
    ∃ sums, partialSums (primesBelow limit) 0 #[0] = .ok sums ∧
      HoldsSums (Nat.count Nat.Prime limit) sums := by
  have hword := runSum_lt_word hlimit
  rw [← Nat.zero_add (Nat.count Nat.Prime limit)] at hword ⊢
  obtain ⟨sums, hrun, hsums⟩ := partialSums_run (Nat.count Nat.Prime limit) holdsSums_zero hword
  rw [runSum_zero, ← List.range_eq_range', ← primesUnder_eq_map_nth, ← primesBelow_eq] at hrun
  exact ⟨sums, hrun, hsums⟩

end NumberPuzzles.PrimeRun
