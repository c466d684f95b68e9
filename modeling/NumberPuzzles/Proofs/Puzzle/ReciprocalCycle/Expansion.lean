import Mathlib.Algebra.Order.Floor.Semifield
import Mathlib.Analysis.Real.OfDigits
import Mathlib.Data.Nat.Factorization.Basic
import Mathlib.FieldTheory.Finite.Basic
import Mathlib.GroupTheory.OrderOfElement

/-!
# When the powers of ten recur modulo a number

A power of ten has the remainder of an earlier one exactly when the earlier one takes up all
factors two and five of the number, and the order of ten modulo what is left divides the distance.
The digits of the unit fraction recur exactly when these remainders do: the digits behind a
position are determined by the remainder there, and determine it.
-/

namespace NumberPuzzles.ReciprocalCycle

variable {divisor first shift : Nat}

/-! ## The two parts of a number -/

/-- The number without its factors two and five. -/
def recurringPart (divisor : Nat) : Nat := ordCompl[5] (ordCompl[2] divisor)

/-- The factors two and five of the number. -/
def terminatingPart (divisor : Nat) : Nat :=
  ordProj[2] divisor * ordProj[5] (ordCompl[2] divisor)

@[simp]
theorem terminatingPart_mul_recurringPart (divisor : Nat) :
    terminatingPart divisor * recurringPart divisor = divisor := by
  rw [terminatingPart, recurringPart, Nat.mul_assoc, Nat.ordProj_mul_ordCompl_eq_self,
    Nat.ordProj_mul_ordCompl_eq_self]

theorem recurringPart_dvd (divisor : Nat) : recurringPart divisor ∣ divisor :=
  Dvd.intro_left _ (terminatingPart_mul_recurringPart divisor)

theorem recurringPart_pos (hpositive : 0 < divisor) : 0 < recurringPart divisor :=
  Nat.pos_of_dvd_of_pos (recurringPart_dvd divisor) hpositive

theorem coprime_recurringPart (hpositive : 0 < divisor) :
    Nat.Coprime 10 (recurringPart divisor) := by
  have hodd : ordCompl[2] divisor ≠ 0 := (Nat.ordCompl_pos 2 hpositive.ne').ne'
  have htwo : Nat.Coprime 2 (recurringPart divisor) :=
    (Nat.coprime_ordCompl Nat.prime_two hpositive.ne').coprime_dvd_right
      (Nat.ordCompl_dvd (ordCompl[2] divisor) 5)
  have hfive : Nat.Coprime 5 (recurringPart divisor) :=
    Nat.coprime_ordCompl Nat.prime_five hodd
  exact Nat.Coprime.mul_left htwo hfive

/-- A large power of ten has all factors two and five of a number. -/
theorem exists_terminatingPart_dvd_pow (divisor : Nat) :
    ∃ exponent, terminatingPart divisor ∣ 10 ^ exponent := by
  have htwo : 2 ^ divisor.factorization 2 ∣ 10 ^ divisor.factorization 2 :=
    pow_dvd_pow_of_dvd (by decide) _
  have hfive : ordProj[5] (ordCompl[2] divisor) ∣ 10 ^ (ordCompl[2] divisor).factorization 5 :=
    pow_dvd_pow_of_dvd (by decide) _
  refine ⟨divisor.factorization 2 + (ordCompl[2] divisor).factorization 5, ?_⟩
  rw [Nat.pow_add]
  exact Nat.mul_dvd_mul htwo hfive

/-- Nothing recurs in a number that only two and five divide. -/
theorem recurringPart_eq_one (hpositive : 0 < divisor)
    (hprimes : ∀ prime, prime.Prime → prime ∣ divisor → prime = 2 ∨ prime = 5) :
    recurringPart divisor = 1 := by
  by_contra hlarge
  obtain ⟨prime, hprime, hdvd⟩ := Nat.exists_prime_and_dvd hlarge
  have hten : prime ∣ 10 := by
    rcases hprimes prime hprime (hdvd.trans (recurringPart_dvd divisor)) with rfl | rfl
    · decide
    · decide
  exact Nat.not_coprime_of_dvd_of_dvd hprime.one_lt hten hdvd (coprime_recurringPart hpositive)

/-! ## Powers of ten with equal remainders -/

noncomputable def tenOrder (divisor : Nat) : Nat := orderOf (10 : ZMod (recurringPart divisor))

theorem pow_modEq_one_iff :
    10 ^ shift ≡ 1 [MOD recurringPart divisor] ↔ tenOrder divisor ∣ shift := by
  rw [tenOrder, orderOf_dvd_iff_pow_eq_one, ← ZMod.natCast_eq_natCast_iff]
  push_cast
  rfl

theorem tenOrder_pos (hpositive : 0 < divisor) : 0 < tenOrder divisor := by
  have hcoprime := coprime_recurringPart hpositive
  have hdvd : tenOrder divisor ∣ (recurringPart divisor).totient :=
    pow_modEq_one_iff.mp (Nat.ModEq.pow_totient hcoprime)
  exact Nat.pos_of_dvd_of_pos hdvd (Nat.totient_pos.mpr (recurringPart_pos hpositive))

/-- A power of ten has the remainder of an earlier one exactly when the earlier one has all
factors two and five of the number, and the order of ten divides the distance. -/
theorem pow_recurs_iff (hpositive : 0 < divisor) (hshift : 0 < shift) :
    10 ^ (first + shift) % divisor = 10 ^ first % divisor ↔
      terminatingPart divisor ∣ 10 ^ first ∧ tenOrder divisor ∣ shift := by
  obtain ⟨exponent, hterminating⟩ := exists_terminatingPart_dvd_pow divisor
  have hrecurring := coprime_recurringPart hpositive
  have hone : 1 ≤ 10 ^ shift := Nat.one_le_pow _ _ (by decide)
  have hten : Nat.Coprime 10 (10 ^ shift - 1) := by
    have hnext : Nat.Coprime (10 ^ shift) (10 ^ shift - 1) :=
      (Nat.coprime_self_sub_right hone).mpr (Nat.coprime_one_right _)
    exact hnext.coprime_dvd_left (dvd_pow_self 10 hshift.ne')
  have hdifference : 10 ^ (first + shift) - 10 ^ first = 10 ^ first * (10 ^ shift - 1) := by
    rw [Nat.pow_add, Nat.mul_sub_one]
  have hle : 10 ^ first ≤ 10 ^ (first + shift) := Nat.pow_le_pow_right (by decide) (by omega)
  rw [eq_comm, ← Nat.ModEq, Nat.modEq_iff_dvd' hle, hdifference, ← pow_modEq_one_iff,
    Nat.ModEq.comm, Nat.modEq_iff_dvd' hone]
  constructor
  · intro hdvd
    -- Each of the two parts is coprime to one of the two factors.
    have hparts := terminatingPart_mul_recurringPart divisor ▸ hdvd
    constructor
    · have hcoprime : Nat.Coprime (terminatingPart divisor) (10 ^ shift - 1) :=
        (hten.pow_left exponent).coprime_dvd_left hterminating
      exact hcoprime.dvd_of_dvd_mul_right (dvd_of_mul_right_dvd hparts)
    · have hcoprime : Nat.Coprime (recurringPart divisor) (10 ^ first) :=
        (hrecurring.pow_left first).symm
      exact hcoprime.dvd_of_dvd_mul_left (dvd_of_mul_left_dvd hparts)
  · rintro ⟨hleft, hright⟩
    rw [← terminatingPart_mul_recurringPart divisor]
    exact Nat.mul_dvd_mul hleft hright

/-! ## The digits of the unit fraction -/

/-- The digit at a position behind the point in the decimal expansion of one over a number. -/
noncomputable def expansionDigit (divisor position : Nat) : Fin 10 :=
  Real.digits (1 / (divisor : ℝ)) 10 position

/-- From some position on, the digits are the same after a shift. -/
def RecursAfter (divisor shift : Nat) : Prop :=
  ∃ first, ∀ position, first ≤ position →
    expansionDigit divisor (position + shift) = expansionDigit divisor position

/-- One step of the long division: the digit is the quotient. -/
theorem expansionDigit_val (hpositive : 0 < divisor) (position : Nat) :
    (expansionDigit divisor position : Nat) = 10 * (10 ^ position % divisor) / divisor := by
  have hfloor : ⌊1 / (divisor : ℝ) * (10 : ℕ) ^ (position + 1)⌋₊ =
      10 ^ (position + 1) / divisor := by
    rw [one_div_mul_eq_div, ← Nat.cast_pow, Nat.floor_div_eq_div]
  have hsplit : 10 ^ (position + 1) =
      divisor * (10 * (10 ^ position / divisor)) + 10 * (10 ^ position % divisor) := by
    have := Nat.div_add_mod (10 ^ position) divisor
    rw [Nat.pow_succ]
    nlinarith
  have hsmall : 10 * (10 ^ position % divisor) / divisor < 10 := by
    rw [Nat.div_lt_iff_lt_mul hpositive]
    exact Nat.mul_lt_mul_of_pos_left (Nat.mod_lt _ hpositive) (by decide)
  rw [expansionDigit, Real.digits, Fin.val_ofNat, hfloor, hsplit, Nat.mul_add_div hpositive,
    Nat.mul_add_mod, Nat.mod_eq_of_lt hsmall]

/-- One step of the long division: ten times a remainder is made of the digit and the next
remainder. -/
theorem ten_mul_remainder (hpositive : 0 < divisor) (position : Nat) :
    10 * (10 ^ position % divisor) =
      divisor * expansionDigit divisor position + 10 ^ (position + 1) % divisor := by
  have hnext : 10 ^ (position + 1) % divisor = 10 * (10 ^ position % divisor) % divisor := by
    rw [Nat.mul_mod_mod, Nat.pow_succ']
  rw [expansionDigit_val hpositive, hnext, Nat.div_add_mod]

/-- Remainders that are followed by the same digits stay apart as far as they were, scaled. -/
theorem remainders_of_digits (hpositive : 0 < divisor) {left right count : Nat}
    (hdigits : ∀ offset < count,
      expansionDigit divisor (left + offset) = expansionDigit divisor (right + offset)) :
    10 ^ count * (10 ^ left % divisor) + 10 ^ (right + count) % divisor =
      10 ^ count * (10 ^ right % divisor) + 10 ^ (left + count) % divisor := by
  induction count with
  | zero => simp [Nat.add_comm]
  | succ count ih =>
      have hearlier := ih fun offset hoffset => hdigits offset (by omega)
      have hleft := ten_mul_remainder hpositive (left + count)
      have hright := ten_mul_remainder hpositive (right + count)
      rw [hdigits count (by omega)] at hleft
      rw [← Nat.add_assoc, ← Nat.add_assoc, Nat.pow_succ]
      linarith

/-- The digits behind a position determine the remainder there. -/
theorem remainder_le_of_digits (hpositive : 0 < divisor) {left right : Nat}
    (hdigits : ∀ offset,
      expansionDigit divisor (left + offset) = expansionDigit divisor (right + offset)) :
    10 ^ left % divisor ≤ 10 ^ right % divisor := by
  by_contra hgreater
  -- After as many digits as the number says, two remainders would be further apart than it.
  have hapart := remainders_of_digits hpositive fun offset (_ : offset < divisor) =>
    hdigits offset
  have hfar : divisor < 10 ^ divisor := Nat.lt_pow_self (by decide)
  have hbound : 10 ^ (left + divisor) % divisor < divisor := Nat.mod_lt _ hpositive
  have hscaled : 10 ^ divisor * (10 ^ right % divisor + 1) ≤
      10 ^ divisor * (10 ^ left % divisor) := Nat.mul_le_mul_left _ (by omega)
  rw [Nat.mul_add_one] at hscaled
  omega

/-- The digits recur after a shift exactly when it is a multiple of the order of ten. -/
theorem recursAfter_iff (hpositive : 0 < divisor) (hshift : 0 < shift) :
    RecursAfter divisor shift ↔ tenOrder divisor ∣ shift := by
  constructor
  · rintro ⟨first, hdigits⟩
    have hsame : ∀ offset, expansionDigit divisor (first + shift + offset) =
        expansionDigit divisor (first + offset) := by
      intro offset
      rw [Nat.add_right_comm]
      exact hdigits (first + offset) (Nat.le_add_right first offset)
    have hequal : 10 ^ (first + shift) % divisor = 10 ^ first % divisor :=
      Nat.le_antisymm (remainder_le_of_digits hpositive hsame)
        (remainder_le_of_digits hpositive fun offset => (hsame offset).symm)
    exact ((pow_recurs_iff hpositive hshift).mp hequal).2
  · intro horder
    obtain ⟨first, hfirst⟩ := exists_terminatingPart_dvd_pow divisor
    refine ⟨first, ?_⟩
    intro position hposition
    have hterminating : terminatingPart divisor ∣ 10 ^ position :=
      hfirst.trans (pow_dvd_pow 10 hposition)
    have hequal := (pow_recurs_iff hpositive hshift).mpr ⟨hterminating, horder⟩
    apply Fin.ext
    rw [expansionDigit_val hpositive, expansionDigit_val hpositive, hequal]

/-- The order of ten is the least shift after which the digits recur. -/
theorem tenOrder_isLeast (hpositive : 0 < divisor) :
    IsLeast {shift | 0 < shift ∧ RecursAfter divisor shift} (tenOrder divisor) := by
  have horder := tenOrder_pos hpositive
  constructor
  · exact ⟨horder, (recursAfter_iff hpositive horder).mpr (Nat.dvd_refl _)⟩
  · rintro shift ⟨hshift, hrecurs⟩
    exact Nat.le_of_dvd hshift ((recursAfter_iff hpositive hshift).mp hrecurs)

end NumberPuzzles.ReciprocalCycle
