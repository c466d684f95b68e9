import Mathlib.Tactic.NormNum.Prime
import NumberPuzzles.Proofs.Arrangement.Search
import NumberPuzzles.Proofs.Prime.Table
import NumberPuzzles.Proofs.Text.Pandigital
import NumberPuzzles.Puzzle.PandigitalPrime

/-!
# The largest pandigital prime

The arrangements of the digits from one to a last one are the decimal forms of the numbers that
use each of those digits once.  All have as many digits, so the first prime that the descending
walk meets is the greatest of them.  Fewer digits make smaller numbers, so the first last digit
for which there is a prime, from nine down, has the greatest of all.
-/

namespace NumberPuzzles.PandigitalPrime

open scoped List

variable {last number : Nat}

def UsesEach (last number : Nat) : Prop := digits number ~ entriesUpTo last

/-- The greatest prime among some numbers, if there is any. -/
def IsGreatestPrime (numbers : Nat → Prop) : Option Nat → Prop
  | none => ∀ number, number.Prime → ¬ numbers number
  | some prime => IsGreatest {number | number.Prime ∧ numbers number} prime

/-! ## Arrangements of digits as numbers -/

theorem forall_le_nine_of_perm (hlast : last ≤ 9) {entries : List Nat}
    (hperm : entries ~ entriesUpTo last) : ∀ entry ∈ entries, entry ≤ 9 := by
  intro entry hentry
  have hrange := hperm.mem_iff.mp hentry
  rw [entriesUpTo, List.mem_range'_1] at hrange
  omega

/-- Zero is not among the digits, so an arrangement of them is a decimal form. -/
theorem isDecimalForm_of_perm (hpositive : 0 < last) (hlast : last ≤ 9) {entries : List Nat}
    (hperm : entries ~ entriesUpTo last) : IsDecimalForm entries where
  nonempty := by
    apply List.ne_nil_of_length_pos
    rwa [hperm.length_eq, entriesUpTo, List.length_range']
  digit := forall_le_nine_of_perm hlast hperm
  leading := by
    intro hhead
    have hzero := hperm.mem_iff.mp (List.mem_of_head? hhead)
    rw [entriesUpTo, List.mem_range'_1] at hzero
    omega

theorem usesEach_positionalValue (hpositive : 0 < last) (hlast : last ≤ 9) {entries : List Nat}
    (hperm : entries ~ entriesUpTo last) : UsesEach last (positionalValue entries) := by
  rw [UsesEach, digits_positionalValue (isDecimalForm_of_perm hpositive hlast hperm)]
  exact hperm

theorem UsesEach.digitCount_eq (huses : UsesEach last number) : digitCount number = last := by
  rw [← length_digits, huses.length_eq, entriesUpTo, List.length_range']

/-- Fewer digits make a smaller number. -/
theorem UsesEach.lt_of_lt {more other : Nat} (huses : UsesEach last number)
    (hother : UsesEach more other) (hmore : last < more) : number < other := by
  apply Nat.lt_of_not_le
  intro hle
  have hcount := digitCount_mono hle
  rw [huses.digitCount_eq, hother.digitCount_eq] at hcount
  exact hcount.not_gt hmore

/-- The decimal forms that the test of texts accepts are those of the arranged digits. -/
theorem isPandigitalText_iff :
    isPandigitalText (Text.decimalString number) 1 last = .ok true ↔
      0 < last ∧ last ≤ 9 ∧ UsesEach last number :=
  Text.isPandigitalText_decimalString_iff

/-! ## One last digit -/

def primeValue? (entries : List Nat) : Option Nat :=
  if (positionalValue entries).Prime then some (positionalValue entries) else none

theorem isPrime_value_run (hlast : last ≤ 9) {entries : List Nat}
    (hperm : entries ~ entriesUpTo last) {table : PrimeTable} (hcomplete : table.Complete) :
    ∃ after, (do
        let number ← ofDigits entries
        return if ← isPrime number then some number else none :
          Run PrimeTable Fault (Option Nat)).run.run table = (.ok (primeValue? entries), after) ∧
      after.Complete := by
  have hvalue : positionalValue entries < word := by
    apply positionalValue_lt_word (forall_le_nine_of_perm hlast hperm)
    rw [hperm.length_eq, entriesUpTo, List.length_range']
    omega
  obtain ⟨after, hprime, hafter⟩ := isPrime_run hvalue hcomplete
  refine ⟨after, ?_, hafter⟩
  rw [ofDigits_eq hvalue, Run.run_bind_ok (Run.run_lift _ table), Run.run_bind_ok hprime,
    Run.run_pure, primeValue?]
  simp only [decide_eq_true_eq]

/-- The first prime on the way down is the greatest, because the values fall with the
arrangements. -/
theorem isGreatestPrime_of_isFirstAnswer (hpositive : 0 < last) (hlast : last ≤ 9)
    {found : Option Nat}
    (hfirst : Walk.IsFirstAnswer .descending (entriesUpTo last) primeValue? found) :
    IsGreatestPrime (UsesEach last) found := by
  have hanswer : ∀ number, number.Prime → primeValue? (digits number) = some number := by
    intro number hprime
    rw [primeValue?, positionalValue_digits, if_pos hprime]
  cases found with
  | none =>
      intro number hprime huses
      have hnone := hfirst (digits number) huses
      rw [hanswer number hprime] at hnone
      cases hnone
  | some prime =>
      obtain ⟨entries, hperm, hvalue, hbefore⟩ := hfirst
      rw [primeValue?] at hvalue
      split at hvalue
      next hprime =>
        cases hvalue
        refine ⟨⟨hprime, usesEach_positionalValue hpositive hlast hperm⟩, ?_⟩
        rintro number ⟨hnumber, huses⟩
        have hlength : (digits number).length = entries.length :=
          huses.length_eq.trans hperm.length_eq.symm
        have hle : digits number ≤ entries := by
          apply not_lt.mp
          intro hlt
          have hnone := hbefore (digits number) huses hlt
          rw [hanswer number hnumber] at hnone
          cases hnone
        rw [← positionalValue_le_iff hlength (forall_le_nine_of_perm hlast huses)
          (forall_le_nine_of_perm hlast hperm), positionalValue_digits] at hle
        exact hle
      next => cases hvalue

theorem largestUpTo_run (hpositive : 0 < last) (hlast : last ≤ 9) {table : PrimeTable}
    (hcomplete : table.Complete) :
    ∃ found after, (largestUpTo last).run.run table = (.ok found, after) ∧
      IsGreatestPrime (UsesEach last) found ∧ after.Complete := by
  obtain ⟨found, after, hrun, hfirst, hafter⟩ :=
    Walk.findM?_run (fun _ hperm _ => isPrime_value_run hlast hperm) hcomplete
  exact ⟨found, after, hrun, isGreatestPrime_of_isFirstAnswer hpositive hlast hfirst, hafter⟩

/-! ## All last digits -/

/-- Each digit from one to some digit, at most the last, is used once. -/
def UsesSome (last number : Nat) : Prop := ∃ digit, 0 < digit ∧ digit ≤ last ∧ UsesEach digit number

theorem usesSome_succ :
    UsesSome (last + 1) number ↔ UsesEach (last + 1) number ∨ UsesSome last number := by
  constructor
  · rintro ⟨digit, hpositive, hdigit, huses⟩
    rcases Nat.le_succ_iff.mp hdigit with hdigit | rfl
    · exact .inr ⟨digit, hpositive, hdigit, huses⟩
    · exact .inl huses
  · rintro (huses | ⟨digit, hpositive, hdigit, huses⟩)
    · exact ⟨last + 1, Nat.succ_pos last, le_rfl, huses⟩
    · exact ⟨digit, hpositive, Nat.le_succ_of_le hdigit, huses⟩

/-- A prime with more digits is greater than all with fewer. -/
theorem IsGreatestPrime.of_more {prime : Nat}
    (hgreatest : IsGreatestPrime (UsesEach (last + 1)) (some prime)) :
    IsGreatestPrime (UsesSome (last + 1)) (some prime) := by
  obtain ⟨⟨hprime, huses⟩, hbound⟩ := hgreatest
  refine ⟨⟨hprime, usesSome_succ.mpr (.inl huses)⟩, ?_⟩
  rintro number ⟨hnumber, hsome⟩
  rcases usesSome_succ.mp hsome with heach | ⟨digit, -, hdigit, heach⟩
  · exact hbound ⟨hnumber, heach⟩
  · exact (heach.lt_of_lt huses (Nat.lt_succ_of_le hdigit)).le

theorem IsGreatestPrime.congr {numbers others : Nat → Prop} {found : Option Nat}
    (hsame : ∀ number, number.Prime → (numbers number ↔ others number))
    (hgreatest : IsGreatestPrime numbers found) : IsGreatestPrime others found := by
  cases found with
  | none =>
      intro number hprime hother
      exact hgreatest number hprime ((hsame number hprime).mpr hother)
  | some prime =>
      have hset : {number | number.Prime ∧ others number} =
          {number | number.Prime ∧ numbers number} := by
        ext number
        exact and_congr_right fun hprime => (hsame number hprime).symm
      rw [IsGreatestPrime, hset]
      exact hgreatest

/-- Without a prime of more digits, the greatest is the one of fewer. -/
theorem IsGreatestPrime.of_fewer {found : Option Nat}
    (hnone : IsGreatestPrime (UsesEach (last + 1)) none)
    (hgreatest : IsGreatestPrime (UsesSome last) found) :
    IsGreatestPrime (UsesSome (last + 1)) found := by
  apply hgreatest.congr
  intro number hprime
  rw [usesSome_succ, or_iff_right (hnone number hprime)]

/-- The search goes through the last digits from the given one down, whatever table of primes it
starts with. -/
theorem largestFrom_run (hlast : last ≤ 9) {table : PrimeTable} (hcomplete : table.Complete) :
    ∃ found after, (largestFrom last).run.run table = (.ok found, after) ∧
      IsGreatestPrime (UsesSome last) found ∧ after.Complete := by
  induction last generalizing table with
  | zero =>
      refine ⟨none, table, rfl, ?_, hcomplete⟩
      rintro number - ⟨digit, hpositive, hzero, -⟩
      exact hpositive.ne' (Nat.le_zero.mp hzero)
  | succ last ih =>
      obtain ⟨found, middle, hrun, hgreatest, hmiddle⟩ :=
        largestUpTo_run (Nat.succ_pos last) hlast hcomplete
      rw [largestFrom, Run.run_bind_ok hrun]
      cases found with
      | some prime => exact ⟨some prime, middle, rfl, hgreatest.of_more, hmiddle⟩
      | none =>
          obtain ⟨found, after, hlater, hfewer, hafter⟩ :=
            ih (Nat.le_of_succ_le hlast) hmiddle
          exact ⟨found, after, hlater, hgreatest.of_fewer hfewer, hafter⟩

/-! ## The greatest of all -/

/-- There is a pandigital prime, so the search up to nine finds one. -/
theorem exists_greatest_of_nine {found : Option Nat}
    (hgreatest : IsGreatestPrime (UsesSome 9) found) :
    ∃ prime, found = some prime ∧ IsGreatest {number | number.Prime ∧ UsesSome 9 number} prime := by
  cases found with
  | none =>
      have huses : UsesSome 9 2143 := ⟨4, by decide, by decide, by rw [UsesEach]; decide +kernel⟩
      exact absurd huses (hgreatest 2143 (by norm_num))
  | some prime => exact ⟨prime, rfl, hgreatest⟩

theorem usesSome_nine_iff :
    UsesSome 9 number ↔
      ∃ last, 1 ≤ last ∧ last ≤ 9 ∧
        isPandigitalText (Text.decimalString number) 1 last = .ok true := by
  constructor
  · rintro ⟨last, hpositive, hlast, huses⟩
    exact ⟨last, hpositive, hlast, isPandigitalText_iff.mpr ⟨hpositive, hlast, huses⟩⟩
  · rintro ⟨last, hpositive, hlast, htext⟩
    exact ⟨last, hpositive, hlast, (isPandigitalText_iff.mp htext).2.2⟩

/-- The search up to the digit nine ends with a prime, the same one whatever was asked of the
table of primes before.  Its decimal form uses each digit from one to some digit once, and it is
the greatest of all prime words of which that is true. -/
theorem finds_greatest_pandigital_prime :
    ∃ prime, largestPandigitalPrime 9 = .ok (some prime) ∧
      (∀ memo : PrimeMemo, memo.Reachable →
        ((largestFrom 9).run.run memo.inner).1 = .ok (some prime)) ∧
      prime.Prime ∧
      (∃ last, 1 ≤ last ∧ last ≤ 9 ∧
        isPandigitalText (Text.decimalString prime) 1 last = .ok true) ∧
      ∀ number < word, number.Prime →
        (∃ last, 1 ≤ last ∧ last ≤ 9 ∧
          isPandigitalText (Text.decimalString number) 1 last = .ok true) →
        number ≤ prime := by
  have hsearch : ∀ table : PrimeTable, table.Complete → ∃ prime,
      ((largestFrom 9).run.run table).1 = .ok (some prime) ∧
        IsGreatest {number | number.Prime ∧ UsesSome 9 number} prime := by
    intro table hcomplete
    obtain ⟨found, after, hrun, hgreatest, -⟩ := largestFrom_run le_rfl hcomplete
    obtain ⟨prime, rfl, hprime⟩ := exists_greatest_of_nine hgreatest
    exact ⟨prime, by rw [hrun], hprime⟩
  obtain ⟨prime, hrun, hgreatest⟩ := hsearch _ PrimeTable.initial_complete
  refine ⟨prime, hrun, ?_, hgreatest.1.1, usesSome_nine_iff.mp hgreatest.1.2, ?_⟩
  · intro memo hreached
    obtain ⟨other, hother, hothers⟩ := hsearch _ hreached.sound.complete
    rw [hother, hothers.unique hgreatest]
  · intro number _ hprime hpandigital
    exact hgreatest.2 ⟨hprime, usesSome_nine_iff.mpr hpandigital⟩

/-- After 49 was asked about, the search ends with a prime that is no smaller than 7652413. -/
theorem finds_greatest_pandigital_prime_past_7652413 :
    PrimeMemo.Reachable ((isPrimeCached 49).run.run PrimeMemo.initial).2 ∧
      7652413 < word ∧ Nat.Prime 7652413 ∧
      (∃ last, 1 ≤ last ∧ last ≤ 9 ∧
        isPandigitalText (Text.decimalString 7652413) 1 last = .ok true) ∧
      ∃ prime, ((largestFrom 9).run.run
          ((isPrimeCached 49).run.run PrimeMemo.initial).2.inner).1 = .ok (some prime) ∧
        7652413 ≤ prime := by
  have hreached : PrimeMemo.Reachable ((isPrimeCached 49).run.run PrimeMemo.initial).2 :=
    .cached .initial (by decide)
  have hprime : Nat.Prime 7652413 := by norm_num
  have huses : UsesEach 7 7652413 := by
    rw [UsesEach]
    decide +kernel
  have hpandigital := isPandigitalText_iff.mpr ⟨by decide, by decide, huses⟩
  have hword : 7652413 < word := by decide
  obtain ⟨prime, -, hsearch, -, -, hgreatest⟩ := finds_greatest_pandigital_prime
  exact ⟨hreached, hword, hprime, ⟨7, by decide, by decide, hpandigital⟩, prime,
    hsearch _ hreached, hgreatest 7652413 hword hprime ⟨7, by decide, by decide, hpandigital⟩⟩

end NumberPuzzles.PandigitalPrime
