import Mathlib.Data.List.Sort
import NumberPuzzles.Proofs.Prime.Stream
import NumberPuzzles.Proofs.Puzzle.TruncatablePrime.Stems

/-!
# The search for truncatable primes ends

The search takes primes from the stream in turn and keeps the truncatable ones, until it has
as many as wanted.  What it has kept is the beginning of the list of truncatable primes among
the primes it looked at, so eleven are found with the greatest of them, far below the end of
the stream, and there are no more to be found.
-/

namespace NumberPuzzles.TruncatablePrime

variable {number : Nat} {memo : PrimeMemo}

/-- A prime word passes the test exactly when it is one of the eleven, whatever was asked
before. -/
theorem isTruncatablePrime_of_prime (hprime : number.Prime) (hword : number < word)
    (hsound : memo.Sound) :
    ∃ after, (isTruncatablePrime number).run.run memo =
      (.ok (decide (number ∈ truncatablePrimes)), after) ∧ after.Sound := by
  obtain ⟨answer, after, hrun, hanswer, hafter⟩ := isTruncatablePrime_run hword hsound
  have hsame : answer = decide (number ∈ truncatablePrimes) := by
    rw [Bool.eq_iff_iff, hanswer, decide_eq_true_eq, mem_truncatablePrimes_iff]
    exact (and_iff_right hprime).symm
  exact ⟨after, by rw [hrun, hsame], hafter⟩

/-- The stream and the answers beside it are sound, and so many primes have been found. -/
structure Search.HasFound (search : Search) (found : Nat) : Prop where
  stream : search.stream.Sound
  memo : search.memo.Sound
  size : search.stream.found.size = found

/-- Each request looks at the prime after those found and tells whether it is truncatable. -/
theorem Search.next_run {search : Search} {found : Nat} (hfound : search.HasFound found)
    (hword : nextTrial (Nat.nth Nat.Prime found) < word) :
    ∃ after, Search.next.run.run search =
        (.ok (some (Nat.nth Nat.Prime found,
          decide (Nat.nth Nat.Prime found ∈ truncatablePrimes))), after) ∧
      after.HasFound (found + 1) := by
  obtain ⟨stream, memo⟩ := search
  obtain ⟨hstream, hmemo, hsize⟩ := hfound
  obtain ⟨later, hlater, ⟨-, hpush, hrequest⟩ | ⟨hpast, -, -⟩⟩ := PrimeStream.next_run hstream
  · rw [PrimeStream.upcoming, hsize] at hpush hrequest
    have hprime : (Nat.nth Nat.Prime found).Prime := Nat.prime_nth_prime found
    obtain ⟨after, htest, hafter⟩ :=
      isTruncatablePrime_of_prime hprime ((lt_nextTrial _).trans hword) hmemo
    refine ⟨⟨later, after⟩, ?_, hlater, hafter, ?_⟩
    · change Search.next ⟨stream, memo⟩ = _
      simp only [Search.next, hrequest, htest]
    · rw [hpush, Array.size_push, hsize]
  · rw [PrimeStream.upcoming, hsize] at hpast
    exact absurd hword (Nat.not_lt.mpr hpast)

/-- The truncatable ones of so many primes behind those found. -/
noncomputable def truncatableFrom (found looked : Nat) : List Nat :=
  ((List.range' found looked).map (Nat.nth Nat.Prime)).filter (· ∈ truncatablePrimes)

theorem truncatableFrom_succ (found looked : Nat) :
    truncatableFrom found (looked + 1) =
      if Nat.nth Nat.Prime found ∈ truncatablePrimes then
        Nat.nth Nat.Prime found :: truncatableFrom (found + 1) looked
      else truncatableFrom (found + 1) looked := by
  simp [truncatableFrom, List.range'_succ, List.filter_cons]

/-- The search keeps the first truncatable primes of those it looks at, if there are enough
of them. -/
theorem collect_run {search : Search} {found looked wanted primes : Nat}
    (hfound : search.HasFound found)
    (hwords : ∀ position < found + looked, nextTrial (Nat.nth Nat.Prime position) < word)
    (hwanted : wanted ≤ (truncatableFrom found looked).length) (hprimes : looked ≤ primes) :
    ∃ after, (collect wanted primes).run.run search =
      (.ok ((truncatableFrom found looked).take wanted), after) := by
  induction looked generalizing search found wanted primes with
  | zero =>
      obtain rfl : wanted = 0 := by simpa [truncatableFrom] using hwanted
      exact ⟨search, by rw [collect]; rfl⟩
  | succ looked ih =>
      cases wanted with
      | zero => exact ⟨search, by rw [collect]; rfl⟩
      | succ wanted =>
          obtain ⟨primes, rfl⟩ : ∃ fewer, primes = fewer + 1 :=
            Nat.exists_eq_add_of_le' (by omega)
          obtain ⟨after, hnext, hafter⟩ := Search.next_run hfound (hwords found (by omega))
          have hlater : ∀ position < found + 1 + looked,
              nextTrial (Nat.nth Nat.Prime position) < word := by
            intro position hposition
            exact hwords position (by omega)
          rw [collect, Run.run_bind_ok hnext]
          rw [truncatableFrom_succ] at hwanted ⊢
          by_cases hmember : Nat.nth Nat.Prime found ∈ truncatablePrimes
          · rw [if_pos hmember] at hwanted ⊢
            obtain ⟨last, hrest⟩ :=
              ih hafter hlater (Nat.le_of_succ_le_succ hwanted) (Nat.le_of_succ_le_succ hprimes)
            refine ⟨last, ?_⟩
            simp only [decide_eq_true hmember]
            rw [Run.run_bind_ok hrest]
            rfl
          · rw [if_neg hmember] at hwanted ⊢
            obtain ⟨last, hrest⟩ := ih hafter hlater hwanted (Nat.le_of_succ_le_succ hprimes)
            refine ⟨last, ?_⟩
            simp only [decide_eq_false hmember]
            exact hrest

/-! ## All of them -/

/-- Up to the greatest of them, the primes hold all eleven truncatable ones in their order. -/
theorem truncatableFrom_initial :
    truncatableFrom 0 (Nat.count Nat.Prime 739398) = truncatablePrimes := by
  have hprimes : (List.range' 0 (Nat.count Nat.Prime 739398)).map (Nat.nth Nat.Prime) =
      primesUnder 739398 := by
    rw [primesUnder_eq_map_nth, List.range_eq_range']
  have hsorted : truncatablePrimes.Pairwise (· < ·) := by decide
  have hbelow : ∀ number ∈ truncatablePrimes, number < 739398 := by decide
  rw [truncatableFrom, hprimes]
  refine ((primesUnder_pairwise _).filter _).eq_of_mem_iff hsorted ?_
  intro number
  rw [List.mem_filter, mem_primesUnder, decide_eq_true_eq]
  constructor
  · exact fun hmember => hmember.2
  · intro hmember
    exact ⟨⟨hbelow number hmember, (mem_truncatablePrimes_iff.mp hmember).1⟩, hmember⟩

/-- The eleven are the prime words that pass the test. -/
theorem mem_truncatablePrimes_iff_passes (hsound : memo.Sound) :
    number ∈ truncatablePrimes ↔ number < word ∧ number.Prime ∧
      ((isTruncatablePrime number).run.run memo).1 = .ok true := by
  have hbelow : ∀ number ∈ truncatablePrimes, number < word := by decide
  constructor
  · intro hmember
    have hprime := (mem_truncatablePrimes_iff.mp hmember).1
    have hword := hbelow number hmember
    obtain ⟨after, hrun, -⟩ := isTruncatablePrime_of_prime hprime hword hsound
    exact ⟨hword, hprime, by rw [hrun, decide_eq_true hmember]⟩
  · rintro ⟨hword, hprime, htest⟩
    obtain ⟨after, hrun, -⟩ := isTruncatablePrime_of_prime hprime hword hsound
    rw [hrun, Except.ok.injEq, decide_eq_true_eq] at htest
    exact htest

/-- From the start of the stream, the search for eleven ends with all of them. -/
theorem collect_initial_run (hsound : memo.Sound) :
    ∃ after, (collect 11 word).run.run ⟨PrimeStream.initial, memo⟩ =
      (.ok truncatablePrimes, after) := by
  have hfound : Search.HasFound ⟨PrimeStream.initial, memo⟩ 0 :=
    ⟨PrimeStream.initial_sound, hsound, rfl⟩
  have hwords : ∀ position < 0 + Nat.count Nat.Prime 739398,
      nextTrial (Nat.nth Nat.Prime position) < word := by
    intro position hposition
    rw [Nat.zero_add] at hposition
    have hsmall : Nat.nth Nat.Prime position < 739398 := Nat.nth_lt_of_lt_count hposition
    have hlimit : 739398 < word - 2 := by decide
    exact nextTrial_lt_word (hsmall.trans hlimit)
  have hwanted : 11 ≤ (truncatableFrom 0 (Nat.count Nat.Prime 739398)).length := by
    rw [truncatableFrom_initial]
    decide
  have hprimes : Nat.count Nat.Prime 739398 ≤ word :=
    (Nat.count_le Nat.Prime).trans (by decide)
  obtain ⟨after, hrun⟩ := collect_run hfound hwords hwanted hprimes
  exact ⟨after, by rw [hrun, truncatableFrom_initial]; rfl⟩

/-- Whatever was asked before, the test of a word ends without a fault, also past the greatest
power of ten that is a word.  Eleven prime words pass it, and the search for eleven truncatable
primes, from the start of the stream, ends with just those. -/
theorem search_finds_all_eleven (hreached : memo.Reachable) :
    (∀ number < word, ∃ answer, ((isTruncatablePrime number).run.run memo).1 = .ok answer) ∧
      truncatablePrimes.length = 11 ∧ truncatablePrimes.Pairwise (· < ·) ∧
      (∀ number, number ∈ truncatablePrimes ↔ number < word ∧ number.Prime ∧
        ((isTruncatablePrime number).run.run memo).1 = .ok true) ∧
      ((collect 11 word).run.run ⟨PrimeStream.initial, memo⟩).1 = .ok truncatablePrimes := by
  have hsound := hreached.sound
  refine ⟨?_, rfl, by decide, fun _ => mem_truncatablePrimes_iff_passes hsound, ?_⟩
  · intro number hword
    obtain ⟨answer, after, hrun, -, -⟩ := isTruncatablePrime_run hword hsound
    exact ⟨answer, by rw [hrun]⟩
  · obtain ⟨after, hrun⟩ := collect_initial_run hsound
    rw [hrun]

/-- After 49 was asked about, the greatest word is tested without a fault, and the search ends
with the eleven all the same. -/
theorem search_finds_all_eleven_after_question :
    PrimeMemo.Reachable ((isPrimeCached 49).run.run PrimeMemo.initial).2 ∧ word - 1 < word ∧
      (∃ answer, ((isTruncatablePrime (word - 1)).run.run
        ((isPrimeCached 49).run.run PrimeMemo.initial).2).1 = .ok answer) ∧
      ((collect 11 word).run.run
        ⟨PrimeStream.initial, ((isPrimeCached 49).run.run PrimeMemo.initial).2⟩).1 =
          .ok truncatablePrimes := by
  have hreached : PrimeMemo.Reachable ((isPrimeCached 49).run.run PrimeMemo.initial).2 :=
    .cached .initial (by decide)
  have hword : word - 1 < word := by decide
  obtain ⟨htest, -, -, -, hsearch⟩ := search_finds_all_eleven hreached
  exact ⟨hreached, hword, htest (word - 1) hword, hsearch⟩

end NumberPuzzles.TruncatablePrime
