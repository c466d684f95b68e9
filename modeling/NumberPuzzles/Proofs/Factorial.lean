import Mathlib.Data.Finset.Powerset
import Mathlib.Data.Nat.Choose.Basic
import NumberPuzzles.Factorial
import NumberPuzzles.Proofs.Memo.Kept
import NumberPuzzles.Proofs.Progression

/-!
# A quotient of factorials counts subsets

The factorials kept from earlier questions are the ones that would be computed now, so a binomial
coefficient is the same quotient after any questions.  That quotient is exact: a subset and what
it leaves out can be put in order separately, and together they are the orders of all things.
-/

namespace NumberPuzzles

theorem factorial_succ (number : Nat) :
    factorial (number + 1) = factorial number * (number + 1) := by
  have hnumbers : (Progression.inclusive 1 (number + 1)).toList =
      (Progression.inclusive 1 number).toList ++ [number + 1] := by
    simp only [Progression.toList, Progression.inclusive, Nat.add_sub_cancel]
    rw [List.range'_1_concat, Nat.add_comm 1 number]
  rw [factorial, Progression.fold_eq, hnumbers, List.foldl_append, ← Progression.fold_eq]
  rfl

@[simp]
theorem factorial_eq (number : Nat) : factorial number = number.factorial := by
  induction number with
  | zero => rfl
  | succ number ih => rw [factorial_succ, ih, Nat.factorial_succ, Nat.mul_comm]

/-! ## Questions in sequence -/

namespace FactorialMemo

def Sound (memo : FactorialMemo) : Prop := Memo.IsTableOf factorial memo.kept

/-- The states that questions about factorials and binomial coefficients lead to, in any number
and order. -/
inductive Reachable : FactorialMemo → Prop where
  | initial : Reachable initial
  | factorial {memo : FactorialMemo} (reached : Reachable memo) (number : Nat) :
      Reachable ((factorialCached number).run.run memo).2
  | binomial {memo : FactorialMemo} (reached : Reachable memo) (number chosen : Nat) :
      Reachable ((binomial number chosen).run.run memo).2

theorem initial_sound : initial.Sound := Memo.isTableOf_empty NumberPuzzles.factorial

end FactorialMemo

variable {memo : FactorialMemo} {number chosen : Nat}

theorem factorialCached_run (number : Nat) (hsound : memo.Sound) :
    ∃ after, (factorialCached number).run.run memo = (.ok (factorial number), after) ∧
      after.Sound :=
  Memo.apply_function hsound number

/-- The things chosen and those left out are put in order separately. -/
theorem choose_mul_factorials (hle : chosen ≤ number) :
    number.choose chosen * (factorial chosen * factorial (number - chosen)) = factorial number := by
  rw [factorial_eq, factorial_eq, factorial_eq, ← Nat.mul_assoc,
    Nat.choose_mul_factorial_mul_factorial hle]

theorem factorials_pos (chosen left : Nat) : 0 < factorial chosen * factorial left := by
  rw [factorial_eq, factorial_eq]
  exact Nat.mul_pos chosen.factorial_pos left.factorial_pos

/-- In a sound state, three factorials are looked up or computed, and the state stays sound. -/
theorem binomial_run (number chosen : Nat) (hsound : memo.Sound) :
    ∃ after, (binomial number chosen).run.run memo = (.ok (number.choose chosen), after) ∧
      after.Sound := by
  by_cases hfew : number < chosen
  · refine ⟨memo, ?_, hsound⟩
    rw [binomial, if_pos hfew, Nat.choose_eq_zero_of_lt hfew]
    rfl
  · obtain ⟨first, hall, hfirst⟩ := factorialCached_run number hsound
    obtain ⟨second, hinside, hsecond⟩ := factorialCached_run chosen hfirst
    obtain ⟨after, houtside, hafter⟩ := factorialCached_run (number - chosen) hsecond
    have hquotient :
        factorial number / (factorial chosen * factorial (number - chosen)) =
          number.choose chosen := by
      rw [← choose_mul_factorials (Nat.not_lt.mp hfew)]
      exact Nat.mul_div_cancel _ (factorials_pos chosen (number - chosen))
    refine ⟨after, ?_, hafter⟩
    rw [binomial, if_neg hfew, Run.run_bind_ok hall, Run.run_bind_ok hinside,
      Run.run_bind_ok houtside, hquotient]
    rfl

theorem FactorialMemo.Reachable.sound (hreached : memo.Reachable) : memo.Sound := by
  induction hreached with
  | initial => exact initial_sound
  | factorial _ number ih =>
      obtain ⟨after, hrun, hafter⟩ := factorialCached_run number ih
      rw [hrun]
      exact hafter
  | binomial _ number chosen ih =>
      obtain ⟨after, hrun, hafter⟩ := binomial_run number chosen ih
      rw [hrun]
      exact hafter

/-- Whatever was asked before, a binomial coefficient is how many subsets of so many members a
set of that size has, the same as with no factorial kept.  The quotient is exact, by a divisor
that is not zero, and Pascal's rule holds between answers given at any three times. -/
theorem binomial_counts_subsets (hreached : memo.Reachable) (number chosen : Nat) :
    ∃ count, ((binomial number chosen).run.run memo).1 = .ok count ∧
      ((binomial number chosen).run.run FactorialMemo.initial).1 = .ok count ∧
      (∀ {α : Type} (things : Finset α), things.card = number →
        (things.powersetCard chosen).card = count) ∧
      (number < chosen → count = 0) ∧
      (chosen ≤ number → 0 < factorial chosen * factorial (number - chosen) ∧
        count * (factorial chosen * factorial (number - chosen)) = factorial number) ∧
      ∀ {later last : FactorialMemo}, later.Reachable → last.Reachable →
        ∃ more all, ((binomial number (chosen + 1)).run.run later).1 = .ok more ∧
          ((binomial (number + 1) (chosen + 1)).run.run last).1 = .ok all ∧
          all = count + more := by
  have hanswer {memo : FactorialMemo} (hreached : memo.Reachable) (number chosen : Nat) :
      ((binomial number chosen).run.run memo).1 = .ok (number.choose chosen) := by
    obtain ⟨after, hrun, -⟩ := binomial_run number chosen hreached.sound
    rw [hrun]
  refine ⟨number.choose chosen, hanswer hreached number chosen, hanswer .initial number chosen,
    ?_, Nat.choose_eq_zero_of_lt, ?_, ?_⟩
  · rintro α things rfl
    exact Finset.card_powersetCard chosen things
  · intro hle
    exact ⟨factorials_pos chosen (number - chosen), choose_mul_factorials hle⟩
  · intro later last hlater hlast
    exact ⟨_, _, hanswer hlater number (chosen + 1), hanswer hlast (number + 1) (chosen + 1),
      Nat.choose_succ_succ number chosen⟩

/-- After 7! and the pairs out of five were asked, the hands of five cards are counted. -/
theorem binomial_counts_hands :
    FactorialMemo.Reachable
        ((binomial 5 2).run.run ((factorialCached 7).run.run FactorialMemo.initial).2).2 ∧
      ((binomial 52 5).run.run
        ((binomial 5 2).run.run ((factorialCached 7).run.run FactorialMemo.initial).2).2).1 =
          .ok 2598960 := by
  have hreached : FactorialMemo.Reachable
      ((binomial 5 2).run.run ((factorialCached 7).run.run FactorialMemo.initial).2).2 :=
    .binomial (.factorial .initial 7) 5 2
  obtain ⟨count, hcount, -, hsubsets, -⟩ := binomial_counts_subsets hreached 52 5
  have hhands : ((Finset.range 52).powersetCard 5).card = 2598960 := by
    rw [Finset.card_powersetCard, Finset.card_range]
    decide
  rw [hsubsets (Finset.range 52) (Finset.card_range 52)] at hhands
  exact ⟨hreached, hhands ▸ hcount⟩

end NumberPuzzles
