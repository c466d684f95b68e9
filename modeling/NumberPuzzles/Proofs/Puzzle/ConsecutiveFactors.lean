import Mathlib.Order.Bounds.Basic
import NumberPuzzles.Proofs.Prime.Factors
import NumberPuzzles.Puzzle.ConsecutiveFactors

/-!
# The first run of neighbours is found

The search knows how many numbers behind it have as many distinct prime factors as wanted without
a break, and that no run as long as wanted lies behind it as a whole.  A number with as many
factors lengthens what is behind the search, any other number breaks it off, and once it is long
enough it is the first such run.  The search fails only past the last word, so it finds every
first run that ends early enough.
-/

namespace NumberPuzzles.ConsecutiveFactors

variable {wanted number run start first : Nat}

def HasFactors (wanted number : Nat) : Prop := number.primeFactors.card = wanted

def Unbroken (wanted start number : Nat) : Prop :=
  ∀ other, start ≤ other → other < number → HasFactors wanted other

/-- Each of as many numbers in a row as wanted has as many distinct prime factors. -/
def IsRun (wanted start : Nat) : Prop := Unbroken wanted start (start + wanted)

instance : Decidable (HasFactors wanted number) :=
  inferInstanceAs (Decidable (number.primeFactors.card = wanted))

theorem not_hasFactors_of_lt_two (hwanted : 1 ≤ wanted) (hsmall : number < 2) :
    ¬ HasFactors wanted number := by
  have hnone : number.primeFactors = ∅ := Nat.primeFactors_eq_empty.mpr (by omega)
  rw [HasFactors, hnone, Finset.card_empty]
  omega

theorem unbroken_of_le (hend : number ≤ start) : Unbroken wanted start number := by
  intro other hother hinside
  omega

theorem unbroken_succ_iff (hstart : start ≤ number) :
    Unbroken wanted start (number + 1) ↔
      Unbroken wanted start number ∧ HasFactors wanted number := by
  constructor
  · intro hall
    exact ⟨fun other hother hinside => hall other hother (hinside.trans (Nat.lt_succ_self number)),
      hall number hstart (Nat.lt_succ_self number)⟩
  · rintro ⟨hbehind, hnumber⟩ other hother hinside
    rcases Nat.lt_succ_iff_lt_or_eq.mp hinside with hbefore | rfl
    · exact hbehind other hother hbefore
    · exact hnumber

/-! ## What is behind the search -/

/-- How many numbers are unbroken behind a number, if so many are in front of it. -/
def lengthened (wanted number run : Nat) : Nat := if HasFactors wanted number then run + 1 else 0

theorem lengthened_of_factors (hfactors : HasFactors wanted number) (run : Nat) :
    lengthened wanted number run = run + 1 :=
  if_pos hfactors

theorem lengthened_of_break (hbreak : ¬ HasFactors wanted number) (run : Nat) :
    lengthened wanted number run = 0 :=
  if_neg hbreak

/-- What the search knows in front of a number: how many numbers behind it have as many factors as
wanted without a break, fewer than wanted, and that no run as long as wanted ends behind it. -/
structure Scanned (wanted number run : Nat) : Prop where
  short : run < wanted
  unbroken_iff : ∀ start ≤ number, Unbroken wanted start number ↔ number ≤ start + run
  none_behind : ∀ start, start + wanted ≤ number → ¬ IsRun wanted start

namespace Scanned

theorem zero (hwanted : 1 ≤ wanted) : Scanned wanted 0 0 where
  short := hwanted
  unbroken_iff start hstart := iff_of_true (unbroken_of_le start.zero_le) (Nat.zero_le _)
  none_behind start hend := by omega

/-- The number at hand lengthens what is unbroken, or breaks it off. -/
theorem unbroken_next (hscanned : Scanned wanted number run) {start : Nat}
    (hstart : start ≤ number + 1) :
    Unbroken wanted start (number + 1) ↔
      number + 1 ≤ start + lengthened wanted number run := by
  rcases hstart.eq_or_lt with rfl | hbefore
  · exact iff_of_true (unbroken_of_le le_rfl) (Nat.le_add_right _ _)
  · rw [unbroken_succ_iff (by omega), hscanned.unbroken_iff start (by omega)]
    by_cases hfactors : HasFactors wanted number
    · rw [and_iff_left hfactors, lengthened_of_factors hfactors]
      omega
    · rw [lengthened_of_break hfactors]
      exact iff_of_false (fun hall => hfactors hall.2) (by omega)

/-- One number that does not complete a run takes the search on. -/
theorem next (hscanned : Scanned wanted number run)
    (hopen : ¬ (HasFactors wanted number ∧ lengthened wanted number run = wanted)) :
    Scanned wanted (number + 1) (lengthened wanted number run) := by
  have hshort : lengthened wanted number run < wanted := by
    have hbefore := hscanned.short
    by_cases hfactors : HasFactors wanted number
    · have hother : lengthened wanted number run ≠ wanted := fun hend => hopen ⟨hfactors, hend⟩
      rw [lengthened_of_factors hfactors] at hother ⊢
      omega
    · rw [lengthened_of_break hfactors]
      omega
  refine ⟨hshort, fun _ hstart => hscanned.unbroken_next hstart, ?_⟩
  intro start hend hrun
  rcases hend.eq_or_lt with hlast | hbehind
  · rw [IsRun, hlast, hscanned.unbroken_next (by omega)] at hrun
    omega
  · exact hscanned.none_behind start (by omega) hrun

theorem next_of_break (hscanned : Scanned wanted number run)
    (hbreak : ¬ HasFactors wanted number) : Scanned wanted (number + 1) 0 :=
  lengthened_of_break hbreak run ▸ hscanned.next fun hcomplete => hbreak hcomplete.1

theorem initial (hwanted : 1 ≤ wanted) : Scanned wanted 2 0 :=
  ((zero hwanted).next_of_break (not_hasFactors_of_lt_two hwanted (by decide))).next_of_break
    (not_hasFactors_of_lt_two hwanted (by decide))

/-- The unbroken numbers do not reach down to zero, which has no factors. -/
theorem run_lt (hscanned : Scanned wanted number run) (hpositive : 0 < number) : run < number := by
  by_contra hlong
  have hall : Unbroken wanted 0 number :=
    (hscanned.unbroken_iff 0 number.zero_le).mpr (by omega)
  exact not_hasFactors_of_lt_two (hscanned.short.trans_le' run.zero_le) Nat.two_pos
    (hall 0 le_rfl hpositive)

/-- A number that completes a run ends the first one of all. -/
theorem finish (hscanned : Scanned wanted number run) (hpositive : 0 < number)
    (hcomplete : HasFactors wanted number ∧ lengthened wanted number run = wanted) :
    wanted ≤ number + 1 ∧ IsLeast {start | IsRun wanted start} (number + 1 - wanted) := by
  have hle : wanted ≤ number + 1 := by
    have hlt := hscanned.run_lt hpositive
    rw [← hcomplete.2, lengthened_of_factors hcomplete.1]
    omega
  refine ⟨hle, ?_, ?_⟩
  · change Unbroken wanted _ _
    rw [Nat.sub_add_cancel hle, hscanned.unbroken_next (by omega), hcomplete.2]
    omega
  · intro start hrun
    by_contra hearlier
    exact hscanned.none_behind start (by omega) hrun

end Scanned

/-! ## The whole search -/

/-- The search counts the factors of a word without a fault. -/
theorem searchFrom_eq (hword : number < word) :
    searchFrom wanted number run =
      if HasFactors wanted number ∧ lengthened wanted number run = wanted then do
        Checked.sub (← Checked.add word number 1) wanted
      else if number + 1 < word then searchFrom wanted (number + 1) (lengthened wanted number run)
      else .error .add := by
  rw [searchFrom, distinctPrimeFactors_eq hword]
  simp only [Finset.length_sort, dite_eq_ite]
  rfl

/-- From a number on, the search ends with the first run of all, if that ends before the last word,
and fails otherwise. -/
theorem searchFrom_run (hscanned : Scanned wanted number run) (hpositive : 0 < number)
    (hword : number < word) :
    (∃ first, searchFrom wanted number run = .ok first ∧ first + wanted < word ∧
        IsLeast {start | IsRun wanted start} first) ∨
      searchFrom wanted number run = .error .add ∧
        ∀ start, IsRun wanted start → word ≤ start + wanted := by
  -- The induction is on how many words are left.
  induction hleft : word - number generalizing number run with
  | zero => omega
  | succ left ih =>
      rw [searchFrom_eq hword]
      by_cases hcomplete : HasFactors wanted number ∧ lengthened wanted number run = wanted
      · obtain ⟨hle, hleast⟩ := hscanned.finish hpositive hcomplete
        rw [if_pos hcomplete]
        by_cases hinside : number + 1 < word
        · refine .inl ⟨number + 1 - wanted, ?_, by omega, hleast⟩
          simp only [Checked.add, Checked.sub, if_pos hinside, if_pos hle, Checked.bind_ok]
        · refine .inr ⟨?_, ?_⟩
          · simp only [Checked.add, if_neg hinside, Checked.bind_error]
          · intro start hrun
            have hlater := hleast.2 hrun
            omega
      · have hnext := hscanned.next hcomplete
        rw [if_neg hcomplete]
        by_cases hinside : number + 1 < word
        · rw [if_pos hinside]
          exact ih hnext (by omega) hinside (by omega)
        · refine .inr ⟨if_neg hinside, ?_⟩
          intro start hrun
          by_contra hbehind
          exact hnext.none_behind start (by omega) hrun

/-- The search ends with a number exactly when that is the first of all natural numbers to start as
many in a row as wanted with as many distinct prime factors each, and the row ends before the last
word.  Whenever there is such a row at all that ends so early, the search ends with one; without
any, the number at hand leaves the words. -/
theorem first_run_found (hwanted : 1 ≤ wanted) :
    (∀ first, firstConsecutive wanted = .ok first ↔
      first + wanted < word ∧ IsLeast {start | IsRun wanted start} first) ∧
    ((∃ start, start + wanted < word ∧ IsRun wanted start) →
      ∃ first, firstConsecutive wanted = .ok first) ∧
    ((¬ ∃ start, start + wanted < word ∧ IsRun wanted start) →
      firstConsecutive wanted = .error .add) := by
  have hinitial := Scanned.initial hwanted
  have hword : 2 < word := by decide
  rcases searchFrom_run hinitial Nat.two_pos hword with
    ⟨found, hfound, hbelow, hleast⟩ | ⟨hfails, hnone⟩
  · refine ⟨?_, fun _ => ⟨found, hfound⟩, fun hnone => absurd ⟨found, hbelow, hleast.1⟩ hnone⟩
    intro first
    rw [firstConsecutive, hfound, Except.ok.injEq]
    constructor
    · rintro rfl
      exact ⟨hbelow, hleast⟩
    · rintro ⟨-, hfirst⟩
      exact hleast.unique hfirst
  · have hlong : ¬ ∃ start, start + wanted < word ∧ IsRun wanted start := by
      rintro ⟨start, hbelow, hrun⟩
      exact absurd hbelow (Nat.not_lt.mpr (hnone start hrun))
    refine ⟨?_, fun hsome => absurd hsome hlong, fun _ => hfails⟩
    intro first
    rw [firstConsecutive, hfails]
    exact iff_of_false nofun fun hfirst => hlong ⟨first, hfirst.1, hfirst.2.1⟩

/-- The first three neighbours with three distinct prime factors each start at 644. -/
theorem first_run_found_of_three :
    1 ≤ 3 ∧ (∃ start, start + 3 < word ∧ IsRun 3 start) ∧ firstConsecutive 3 = .ok 644 := by
  have hthree : 1 ≤ 3 := by decide
  have hrun : IsRun 3 644 := by
    change ∀ number, 644 ≤ number → number < 644 + 3 → number.primeFactors.card = 3
    decide +kernel
  have hnone : ∀ start < 644, ¬ IsRun 3 start := by
    change ∀ start < 644, ¬ ∀ number, start ≤ number → number < start + 3 →
      number.primeFactors.card = 3
    decide +kernel
  have hleast : IsLeast {start | IsRun 3 start} 644 :=
    ⟨hrun, fun start hstart => Nat.not_lt.mp fun hbefore => hnone start hbefore hstart⟩
  have hsmall : 644 + 3 < word := by decide
  exact ⟨hthree, ⟨644, hsmall, hrun⟩, ((first_run_found hthree).1 644).mpr ⟨hsmall, hleast⟩⟩

end NumberPuzzles.ConsecutiveFactors
