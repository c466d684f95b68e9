import Mathlib.Algebra.Group.Nat.Defs
import Mathlib.Data.Nat.Sqrt
import NumberPuzzles.SquareRoot

/-!
# The settled root is the integer square root

The walk that settles an estimate first goes down to a root whose square fits, and then up
to the last such root.  Neither direction depends on where the walk started, so the estimate
never shows in the answer, and neither meets a fault as long as each square that it takes is
either exact or known to be past the number.  Squares in words always are, and squares in
double words are for roots that are words.
-/

namespace NumberPuzzles.SquareRoot

/-- The square of a root is exact, or past the number and known to be. -/
def Squares (square : Squaring) (number root : Nat) : Prop :=
  square root = .ok (some (root * root)) ∨ square root = .ok none ∧ number < root * root

theorem squares_squareWord {number : Nat} (hword : number < word) (root : Nat) :
    Squares squareWord number root := by
  by_cases hsquare : root * root < word
  · exact .inl (by rw [squareWord, if_pos hsquare])
  · exact .inr ⟨by rw [squareWord, if_neg hsquare], by omega⟩

theorem squares_squareDoubleWord {root : Nat} (hroot : root < word) (number : Nat) :
    Squares squareDoubleWord number root := by
  have hsquare : root * root < doubleWord := by
    calc root * root < word * word := Nat.mul_self_lt_mul_self hroot
      _ = doubleWord := by decide
  exact .inl (by rw [squareDoubleWord, Checked.mul, if_pos hsquare]; rfl)

/-! ## The walk -/

section Walk

variable {square : Squaring} {number : Nat}

/-- The way down ends at the integer square root, or stays at an estimate that is not past
it. -/
theorem lower_run {estimate : Nat} (hsquares : ∀ root ≤ estimate, Squares square number root) :
    lower square number estimate = .ok (min estimate (Nat.sqrt number)) := by
  induction estimate with
  | zero =>
      rw [Nat.zero_min]
      rcases hsquares 0 le_rfl with hsquare | ⟨-, hpast⟩
      · simp [lower, hsquare]
      · simp at hpast
  | succ root ih =>
      have hbelow := ih fun other hother => hsquares other (by omega)
      by_cases hfits : root + 1 ≤ Nat.sqrt number
      · have hsquare : square (root + 1) = .ok (some ((root + 1) * (root + 1))) := by
          refine (hsquares (root + 1) le_rfl).resolve_right ?_
          rintro ⟨-, hpast⟩
          exact hpast.not_ge (Nat.le_sqrt.mp hfits)
        rw [Nat.min_eq_left hfits]
        simp [lower, hsquare, Nat.not_lt.mpr (Nat.le_sqrt.mp hfits)]
      · -- Past the root the walk goes one down, whether the square is a word or not.
        have hlast : min (root + 1) (Nat.sqrt number) = min root (Nat.sqrt number) := by omega
        have hpast : number < (root + 1) * (root + 1) := Nat.sqrt_lt.mp (Nat.not_le.mp hfits)
        rw [hlast, ← hbelow]
        rcases hsquares (root + 1) le_rfl with hsquare | ⟨hsquare, -⟩
        · simp [lower, hsquare, hpast]
        · simp [lower, hsquare]

/-- The way up ends at the integer square root. -/
theorem raise_run {limit root : Nat} (hlimit : Nat.sqrt number + 1 < limit)
    (hsquares : ∀ other ≤ Nat.sqrt number + 1, Squares square number other)
    (hroot : root * root ≤ number) :
    raise limit square number root = .ok (Nat.sqrt number) := by
  have hle : root ≤ Nat.sqrt number := Nat.le_sqrt.mpr hroot
  -- The induction is on the distance to the square root.
  induction hdistance : Nat.sqrt number - root generalizing root with
  | zero =>
      have heq : root = Nat.sqrt number := by omega
      have hlarge : number < (root + 1) * (root + 1) := by
        rw [heq]
        exact Nat.lt_succ_sqrt number
      rw [raise, dif_pos (by omega), ← heq]
      rcases hsquares (root + 1) (by omega) with hsquare | ⟨hsquare, -⟩
      · simp [hsquare, Nat.not_le.mpr hlarge]
      · simp [hsquare]
  | succ distance ih =>
      have hnext : (root + 1) * (root + 1) ≤ number := Nat.le_sqrt.mp (by omega)
      rw [raise, dif_pos (by omega)]
      rcases hsquares (root + 1) (by omega) with hsquare | ⟨-, hpast⟩
      · simp only [hsquare, if_pos hnext, Checked.bind_ok]
        exact ih hnext (by omega) (by omega)
      · omega

/-- Every estimate settles to the integer square root. -/
theorem settle_run {limit estimate : Nat} (hlimit : Nat.sqrt number + 1 < limit)
    (hbelow : ∀ root ≤ estimate, Squares square number root)
    (hsquares : ∀ root ≤ Nat.sqrt number + 1, Squares square number root) :
    settle limit square number estimate = .ok (Nat.sqrt number) := by
  simp only [settle, lower_run hbelow, Checked.bind_ok]
  exact raise_run hlimit hsquares (Nat.le_sqrt.mp (Nat.min_le_right _ _))

end Walk

/-! ## Words and double words -/

/-- The square root of a machine word, and the number after it, are half words. -/
theorem sqrt_lt_halfWord {number : Nat} (hword : number < word) :
    Nat.sqrt number < halfWord := by
  rw [Nat.sqrt_lt]
  simpa [word, halfWord] using hword

theorem sqrt_succ_lt_word {number : Nat} (hword : number < word) :
    Nat.sqrt number + 1 < word := by
  have hroot := sqrt_lt_halfWord hword
  have hhalf : halfWord + 1 < word := by decide
  omega

/-- Every estimate of the root of a machine word settles to the integer square root. -/
theorem settle_squareWord {number : Nat} (hword : number < word) (estimate : Nat) :
    settle word squareWord number estimate = .ok (Nat.sqrt number) := by
  have hsquares : ∀ root, Squares squareWord number root := squares_squareWord hword
  exact settle_run (sqrt_succ_lt_word hword) (fun root _ => hsquares root)
    fun root _ => hsquares root

/-- Every estimate that is a word settles to the integer square root, if the number after
that root is a word too. -/
theorem settle_squareDoubleWord {number estimate : Nat} (hroot : Nat.sqrt number + 1 < word)
    (hestimate : estimate < word) :
    settle doubleWord squareDoubleWord number estimate = .ok (Nat.sqrt number) := by
  have hwider : word ≤ doubleWord := by decide
  refine settle_run (by omega) ?_ ?_
  · intro root hle
    exact squares_squareDoubleWord (by omega) number
  · intro root hle
    exact squares_squareDoubleWord (by omega) number

theorem improve_le (number steps estimate : Nat) : improve number steps estimate ≤ estimate := by
  induction steps generalizing estimate with
  | zero => exact le_rfl
  | succ steps ih =>
      simp only [improve]
      split
      · next hbetter => exact Nat.le_trans (ih _) (Nat.le_of_lt hbetter)
      · exact le_rfl

theorem estimate_lt_word {number : Nat} (hnumber : number < 2 ^ 126) : estimate number < word := by
  have hlog : Nat.log2 number / 2 + 1 < 64 := by
    by_cases hzero : number = 0
    · subst hzero
      decide
    · have := (Nat.log2_lt hzero).mpr hnumber
      omega
  exact Nat.lt_of_le_of_lt (improve_le _ _ _) (Nat.pow_lt_pow_right (by decide) hlog)

/-! ## Every estimate -/

/-- The root is the last one whose square is at most the number. -/
structure IsFloorRoot (number root : Nat) : Prop where
  square_le : root * root ≤ number
  lt_square : number < (root + 1) * (root + 1)

theorem isFloorRoot_iff {number root : Nat} :
    IsFloorRoot number root ↔ root = Nat.sqrt number := by
  rw [Nat.eq_sqrt]
  exact ⟨fun hroot => ⟨hroot.square_le, hroot.lt_square⟩, fun hroot => ⟨hroot.1, hroot.2⟩⟩

/-- A machine word has one floor root, and every estimate settles to it without a fault: the
way down ends at the root or stays at a smaller estimate, and the way up ends at the root.  So
the integer square root does not depend on how the estimate is made. -/
theorem every_estimate_settles {number : Nat} (hword : number < word) :
    ∃ root, IsFloorRoot number root ∧ (∀ other, IsFloorRoot number other → other = root) ∧
      (∀ estimate,
        lower squareWord number estimate = .ok (min estimate root) ∧
          raise word squareWord number (min estimate root) = .ok root ∧
          settle word squareWord number estimate = .ok root) ∧
      isqrt number = .ok root := by
  have hsquares : ∀ root, Squares squareWord number root := squares_squareWord hword
  refine ⟨Nat.sqrt number, isFloorRoot_iff.mpr rfl, fun _ => isFloorRoot_iff.mp, ?_,
    settle_squareWord hword _⟩
  intro estimate
  refine ⟨?_, ?_, settle_squareWord hword estimate⟩
  · exact lower_run fun root _ => hsquares root
  · exact raise_run (sqrt_succ_lt_word hword) (fun root _ => hsquares root)
      (Nat.le_sqrt.mp (Nat.min_le_right _ _))

/-- The root of the greatest word is found from zero, from a number whose square is no word,
and from the word itself. -/
theorem every_estimate_settles_for_greatest_word :
    word - 1 < word ∧ settle word squareWord (word - 1) 0 = .ok 4294967295 ∧
      squareWord 4294967296 = .ok none ∧
      lower squareWord (word - 1) 4294967296 = .ok 4294967295 ∧
      settle word squareWord (word - 1) (word - 1) = .ok 4294967295 ∧
      isqrt (word - 1) = .ok 4294967295 := by
  have hword : word - 1 < word := by decide
  obtain ⟨root, -, hunique, hsettled, hisqrt⟩ := every_estimate_settles hword
  obtain rfl : 4294967295 = root := hunique 4294967295 ⟨by decide, by decide⟩
  exact ⟨hword, (hsettled 0).2.2, by decide, (hsettled 4294967296).1, (hsettled (word - 1)).2.2,
    hisqrt⟩

end NumberPuzzles.SquareRoot

namespace NumberPuzzles

theorem isqrt_eq_sqrt {number : Nat} (hword : number < word) :
    isqrt number = .ok (Nat.sqrt number) :=
  SquareRoot.settle_squareWord hword _

theorem perfectRoot_eq_some_iff {number root : Nat} :
    (if Nat.sqrt number * Nat.sqrt number = number then some (Nat.sqrt number) else none) =
      some root ↔ root * root = number := by
  constructor
  · intro hroot
    split at hroot
    · next hsquare => rwa [← Option.some.inj hroot]
    · cases hroot
  · rintro rfl
    rw [Nat.sqrt_eq, if_pos rfl]

/-- The root of a perfect square is found, and only of one, from every estimate that is a
word. -/
theorem exactRootFrom?_eq {number estimate : Nat} (hnumber : number < 2 ^ 126)
    (hestimate : estimate < word) :
    exactRootFrom? number estimate =
      .ok (if Nat.sqrt number * Nat.sqrt number = number then some (Nat.sqrt number) else none) := by
  have hsmall : Nat.sqrt number < 2 ^ 63 := by
    rw [Nat.sqrt_lt]
    exact hnumber
  have hword : (2 : Nat) ^ 63 + 1 < word := by decide
  have hsquare : Nat.sqrt number * Nat.sqrt number < doubleWord :=
    Nat.lt_of_le_of_lt (Nat.sqrt_le number) (Nat.lt_trans hnumber (by decide))
  have hsettled := SquareRoot.settle_squareDoubleWord (show Nat.sqrt number + 1 < word by omega)
    hestimate
  simp only [exactRootFrom?, hsettled, Checked.mul, if_pos hsquare, Checked.bind_ok]
  rfl

theorem exactRoot?_eq {number : Nat} (hnumber : number < 2 ^ 126) :
    exactRoot? number =
      .ok (if Nat.sqrt number * Nat.sqrt number = number then some (Nat.sqrt number) else none) :=
  exactRootFrom?_eq hnumber (SquareRoot.estimate_lt_word hnumber)

end NumberPuzzles
