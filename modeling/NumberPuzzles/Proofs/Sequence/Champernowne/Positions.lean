import Mathlib.Algebra.BigOperators.Intervals
import Mathlib.Algebra.Order.BigOperators.Group.Finset
import NumberPuzzles.Proofs.Digits
import NumberPuzzles.Proofs.Source
import NumberPuzzles.Sequence.Champernowne

/-!
# Where the digits of Champernowne's constant come from

The digits of a number stand behind those of all smaller positive numbers.  The numbers of one
width are a block, in which each takes up as many positions as it has digits; so the number that
a position belongs to, and the place in that number, are a quotient and a remainder by the width.
The numbers that a word has room for fill more positions than there are words.
-/

namespace NumberPuzzles.Champernowne

open Source (answerAt after)

variable {number position width exponent : Nat} {pending : List Nat}

/-! ## The numbers one after the other -/

/-- How many digits the positive numbers in front of a number have together. -/
def digitsBefore (number : Nat) : Nat := ∑ earlier ∈ Finset.Ico 1 number, digitCount earlier

theorem digitsBefore_succ (hnumber : 1 ≤ number) :
    digitsBefore (number + 1) = digitsBefore number + digitCount number :=
  Finset.sum_Ico_succ_top hnumber digitCount

theorem digitsBefore_mono : Monotone digitsBefore := by
  intro first second hle
  exact Finset.sum_le_sum_of_subset (Finset.Ico_subset_Ico_right hle)

/-- A number that the stream has reached, and whose successor is a word, is as good as its
digits. -/
theorem next_reached (hword : number + 1 < word) :
    next.run.run ⟨[], number⟩ = next.run.run ⟨digits number, number + 1⟩ := by
  obtain ⟨first, rest, hdigits⟩ :=
    List.exists_cons_of_ne_nil (digits_isDecimalForm number).nonempty
  change (if number + 1 < word then _ else _) = _
  rw [if_pos hword, hdigits]
  rfl

@[simp]
theorem after_pending (pending : List Nat) (number : Nat) :
    after next pending.length ⟨pending, number⟩ = ⟨[], number⟩ := by
  induction pending with
  | nil => rfl
  | cons digit pending ih => exact ih

theorem answerAt_pending {place digit : Nat} (hdigit : pending[place]? = some digit) :
    answerAt next place ⟨pending, number⟩ = .ok (some digit) := by
  induction pending generalizing place with
  | nil => cases hdigit
  | cons first pending ih =>
      cases place with
      | zero =>
          cases hdigit
          rfl
      | succ place => exact ih hdigit

theorem after_digits (hword : number + 1 < word) :
    after next (digitCount number) ⟨[], number⟩ = ⟨[], number + 1⟩ := by
  obtain ⟨rest, hrest⟩ := Nat.exists_eq_succ_of_ne_zero (digitCount_pos number).ne'
  have hpending := after_pending (digits number) (number + 1)
  rw [length_digits, hrest, after] at hpending
  rw [hrest, after, next_reached hword, hpending]

theorem after_digitsBefore (hpositive : 1 ≤ number) (hword : number < word) :
    after next (digitsBefore number) initial = ⟨[], number⟩ := by
  induction number, hpositive using Nat.le_induction with
  | base => rfl
  | succ number hnumber ih =>
      rw [digitsBefore_succ hnumber, Source.after_add, ih (by omega), after_digits hword]

/-- Behind the digits of all smaller numbers, the stream hands out those of the number. -/
theorem answerAt_digitsBefore_add {place digit : Nat} (hpositive : 1 ≤ number)
    (hword : number + 1 < word) (hdigit : (digits number)[place]? = some digit) :
    answerAt next (digitsBefore number + place) initial = .ok (some digit) := by
  rw [Source.answerAt_add, after_digitsBefore hpositive (by omega)]
  cases place with
  | zero =>
      rw [Source.answerAt_zero, next_reached hword, ← Source.answerAt_zero]
      exact answerAt_pending hdigit
  | succ place =>
      rw [Source.answerAt_succ, next_reached hword, ← Source.answerAt_succ]
      exact answerAt_pending hdigit

/-! ## Blocks of one width -/

/-- How many digits the numbers have together that have fewer digits than the width. -/
def blockStart (width : Nat) : Nat :=
  ∑ shorter ∈ Finset.Ico 1 width, 9 * 10 ^ (shorter - 1) * shorter

theorem blockStart_succ (exponent : Nat) :
    blockStart (exponent + 1 + 1) =
      blockStart (exponent + 1) + 9 * 10 ^ exponent * (exponent + 1) :=
  Finset.sum_Ico_succ_top (Nat.le_add_left 1 exponent) _

/-- Inside the block, each number takes up as many positions as it has digits. -/
theorem digitsBefore_pow_add {count : Nat} (hcount : count ≤ 9 * 10 ^ exponent) :
    digitsBefore (10 ^ exponent + count) =
      digitsBefore (10 ^ exponent) + count * (exponent + 1) := by
  have hpositive : 0 < 10 ^ exponent := Nat.pow_pos (by decide)
  induction count with
  | zero => rw [Nat.add_zero, Nat.zero_mul, Nat.add_zero]
  | succ count ih =>
      have hcountDigits : digitCount (10 ^ exponent + count) = exponent + 1 := by
        apply digitCount_eq_of_block (Nat.le_add_right _ _)
        rw [Nat.pow_succ]
        omega
      rw [← Nat.add_assoc, digitsBefore_succ (by omega), ih (by omega), hcountDigits,
        Nat.succ_mul, Nat.add_assoc]

@[simp]
theorem digitsBefore_pow (exponent : Nat) :
    digitsBefore (10 ^ exponent) = blockStart (exponent + 1) := by
  induction exponent with
  | zero => rfl
  | succ exponent ih =>
      have hpow : 10 ^ (exponent + 1) = 10 ^ exponent + 9 * 10 ^ exponent := by
        rw [Nat.pow_succ]
        omega
      rw [hpow, digitsBefore_pow_add le_rfl, ih, blockStart_succ]

/-- The number that a position in the block of a width belongs to. -/
def numberAt (width position : Nat) : Nat :=
  10 ^ (width - 1) + (position - blockStart width) / width

/-- The place in that number, counted from the most significant digit. -/
def placeAt (width position : Nat) : Nat := (position - blockStart width) % width

/-- The position is one of those of the numbers with so many digits. -/
structure InBlock (width position : Nat) : Prop where
  pos : 1 ≤ width
  start_le : blockStart width ≤ position
  lt_end : position < blockStart width + 9 * 10 ^ (width - 1) * width

namespace InBlock

theorem quotient_lt (hblock : InBlock width position) :
    (position - blockStart width) / width < 9 * 10 ^ (width - 1) := by
  have hlt := hblock.lt_end
  have hle := hblock.start_le
  rw [Nat.div_lt_iff_lt_mul hblock.pos]
  omega

theorem placeAt_lt (hblock : InBlock width position) : placeAt width position < width :=
  Nat.mod_lt _ hblock.pos

theorem digitCount_numberAt (hblock : InBlock width position) :
    digitCount (numberAt width position) = width := by
  have hquotient := hblock.quotient_lt
  obtain ⟨exponent, rfl⟩ := Nat.exists_eq_add_of_le' hblock.pos
  apply digitCount_eq_of_block (Nat.le_add_right _ _)
  rw [Nat.add_sub_cancel] at hquotient
  change 10 ^ exponent + (position - blockStart (exponent + 1)) / (exponent + 1) <
    10 ^ (exponent + 1)
  rw [Nat.pow_succ]
  omega

/-- The position is that of the place in the number. -/
theorem position_eq (hblock : InBlock width position) :
    digitsBefore (numberAt width position) + placeAt width position = position := by
  have hquotient := hblock.quotient_lt
  have hle := hblock.start_le
  obtain ⟨exponent, rfl⟩ := Nat.exists_eq_add_of_le' hblock.pos
  rw [Nat.add_sub_cancel] at hquotient
  rw [numberAt, placeAt, Nat.add_sub_cancel, digitsBefore_pow_add hquotient.le, digitsBefore_pow,
    Nat.add_assoc, Nat.div_add_mod']
  omega

/-- The stream hands out the digit at the place in the number. -/
theorem answerAt_eq (hblock : InBlock width position)
    (hword : numberAt width position < word - 1) :
    answerAt next position initial =
      .ok (some (numberAt width position / 10 ^ (width - 1 - placeAt width position) % 10)) := by
  have hpositive : 1 ≤ numberAt width position :=
    (Nat.pow_pos (by decide)).trans_le (Nat.le_add_right _ _)
  have hdigit := getElem?_digits (hblock.digitCount_numberAt.symm ▸ hblock.placeAt_lt)
  rw [hblock.digitCount_numberAt] at hdigit
  have hanswer := answerAt_digitsBefore_add hpositive (by omega) hdigit
  rwa [hblock.position_eq] at hanswer

end InBlock

/-! ## Every position -/

theorem blockStart_mono : Monotone blockStart := by
  intro first second hle
  exact Finset.sum_le_sum_of_subset (Finset.Ico_subset_Ico_right hle)

theorem le_blockStart_succ (width : Nat) : width ≤ blockStart (width + 1) := by
  induction width with
  | zero => exact Nat.zero_le _
  | succ width ih =>
      have hpow : 0 < 10 ^ width := Nat.pow_pos (by decide)
      have hblock : 1 ≤ 9 * 10 ^ width * (width + 1) :=
        Nat.mul_pos (Nat.mul_pos (by decide) hpow) (Nat.succ_pos width)
      rw [blockStart_succ]
      omega

theorem InBlock.lt_blockStart (hblock : InBlock width position) :
    position < blockStart (width + 1) := by
  have hlt := hblock.lt_end
  obtain ⟨exponent, rfl⟩ := Nat.exists_eq_add_of_le' hblock.pos
  rwa [blockStart_succ]

theorem InBlock.width_le {other : Nat} (hblock : InBlock width position)
    (hother : InBlock other position) : width ≤ other := by
  by_contra hshorter
  have hstart := blockStart_mono (Nat.succ_le_of_lt (Nat.not_le.mp hshorter))
  exact (hother.lt_blockStart.trans_le hstart).not_ge hblock.start_le

/-- The blocks follow one another without a gap. -/
theorem existsUnique_inBlock (position : Nat) : ∃! width, InBlock width position := by
  have hexists : ∃ width, position < blockStart (width + 1) :=
    ⟨position + 1, le_blockStart_succ (position + 1)⟩
  have hend := Nat.find_spec hexists
  have hblock : InBlock (Nat.find hexists) position := by
    cases hfound : Nat.find hexists with
    | zero =>
        rw [hfound] at hend
        exact absurd hend (Nat.not_lt_zero position)
    | succ exponent =>
        rw [hfound, blockStart_succ] at hend
        have hbefore := Nat.find_min hexists (show exponent < Nat.find hexists by omega)
        exact ⟨Nat.le_add_left 1 exponent, Nat.not_lt.mp hbefore, hend⟩
  exact ⟨Nat.find hexists, hblock,
    fun other hother => Nat.le_antisymm (hother.width_le hblock) (hblock.width_le hother)⟩

/-- The digits in front of a number outnumber it twice, apart from the first ten. -/
theorem two_mul_le_digitsBefore (hnumber : 10 ≤ number) :
    2 * number ≤ digitsBefore number + 11 := by
  induction number, hnumber using Nat.le_induction with
  | base => decide +kernel
  | succ number hnumber ih =>
      have hdigits : 1 < digitCount number :=
        (pow_le_iff_lt_digitCount (by omega)).mp (by simpa using hnumber)
      rw [digitsBefore_succ (by omega)]
      omega

/-- A position that is a word belongs to a number that the stream reaches. -/
theorem InBlock.numberAt_lt (hblock : InBlock width position) (hword : position < word) :
    numberAt width position < word - 1 := by
  by_contra hpast
  have hmono := digitsBefore_mono (Nat.not_lt.mp hpast)
  have htwice := two_mul_le_digitsBefore (show 10 ≤ word - 1 by decide)
  have hposition := hblock.position_eq
  have hroom : word + 11 ≤ 2 * (word - 1) := by decide
  omega

end NumberPuzzles.Champernowne
