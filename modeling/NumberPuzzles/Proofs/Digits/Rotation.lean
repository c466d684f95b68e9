import Mathlib.Data.List.Rotate
import NumberPuzzles.Proofs.Digits
import NumberPuzzles.Proofs.Traversal

/-!
# Rotations of the digits

The digits of a number are shifted in a circle, and each shift is read as a number again.  What
is moved from the front to the back is the quotient by a power of ten, and what is left in front
is the remainder; a zero that comes to the front is lost in the reading.  A rotation has no more
digits than the number, so only a number of twenty digits can have one past the machine words.
If no digit is zero, then none is lost, and the rotations of a rotation are those of the number.
-/

namespace NumberPuzzles

variable {number places : Nat}

/-- The value of the digits of a number after some of them were moved from the front to the
back. -/
def rotatedValue (number places : Nat) : Nat :=
  number % 10 ^ (digitCount number - places) * 10 ^ places +
    number / 10 ^ (digitCount number - places)

def rotatedValues (number : Nat) : List Nat :=
  (List.range (digitCount number)).map (rotatedValue number)

@[simp]
theorem digits_ne_nil (number : Nat) : digits number ≠ [] :=
  (digits_isDecimalForm number).nonempty

/-! ## Shifts of a list -/

theorem shifts_eq {α : Type} (count : Nat) (entries : List α) :
    shifts count entries = (List.range count).map entries.rotate := by
  induction count generalizing entries with
  | zero => rfl
  | succ count ih =>
      have honce : entries.drop 1 ++ entries.take 1 = entries.rotate 1 := by
        cases entries with
        | nil => rfl
        | cons entry rest => simp
      rw [shifts, honce, ih, List.range_succ_eq_map, List.map_cons, List.map_map, List.rotate_zero]
      congr 1
      refine List.map_congr_left ?_
      intro places _
      rw [List.rotate_rotate, Nat.add_comm]
      rfl

theorem map_rotate_range {α : Type} {entries : List α} (hne : entries ≠ []) :
    (List.range entries.length).map entries.rotate = entries.cyclicPermutations := by
  have hlength := List.length_cyclicPermutations_of_ne_nil entries hne
  apply List.ext_getElem
  · rw [List.length_map, List.length_range, hlength]
  · intro places _ _
    rw [List.getElem_map, List.getElem_range, List.getElem_cyclicPermutations]

theorem rotations_eq_mapM (number : Nat) :
    rotations number = (digits number).cyclicPermutations.mapM ofDigits := by
  rw [← map_rotate_range (digits_ne_nil number), ← shifts_eq]
  rfl

/-! ## Their values -/

theorem positionalValue_rotate (hplaces : places ≤ digitCount number) :
    positionalValue ((digits number).rotate places) = rotatedValue number places := by
  have hlength := length_digits number
  have hcut := positionalValue_cut (digits_isDecimalForm number).digit places
  rw [positionalValue_digits, hlength] at hcut
  rw [List.rotate_eq_drop_append_take (hlength ▸ hplaces), positionalValue_append, hcut.1, hcut.2,
    List.length_take, hlength, Nat.min_eq_left hplaces, rotatedValue]

@[simp]
theorem rotatedValue_zero (number : Nat) : rotatedValue number 0 = number := by
  rw [← positionalValue_rotate (Nat.zero_le _), List.rotate_zero, positionalValue_digits]

theorem mem_rotatedValues_self (number : Nat) : number ∈ rotatedValues number := by
  refine List.mem_map.mpr ⟨0, ?_, rotatedValue_zero number⟩
  exact List.mem_range.mpr (digitCount_pos number)

theorem rotatedValues_eq (number : Nat) :
    rotatedValues number = (digits number).cyclicPermutations.map positionalValue := by
  rw [← map_rotate_range (digits_ne_nil number), length_digits, List.map_map, rotatedValues]
  refine List.map_congr_left ?_
  intro places hplaces
  exact (positionalValue_rotate (List.mem_range.mp hplaces).le).symm

theorem mem_rotatedValues_iff {value : Nat} :
    value ∈ rotatedValues number ↔
      ∃ entries, entries.IsRotated (digits number) ∧ positionalValue entries = value := by
  rw [rotatedValues_eq, List.mem_map]
  simp only [List.mem_cyclicPermutations_iff]

theorem le_nine_of_isRotated {entries : List Nat} (hrotated : entries.IsRotated (digits number)) :
    ∀ entry ∈ entries, entry ≤ 9 :=
  fun entry hentry => (digits_isDecimalForm number).digit entry (hrotated.mem_iff.mp hentry)

theorem lt_pow_of_mem_rotatedValues {value : Nat} (hvalue : value ∈ rotatedValues number) :
    value < 10 ^ digitCount number := by
  obtain ⟨entries, hrotated, rfl⟩ := mem_rotatedValues_iff.mp hvalue
  rw [← length_digits, ← hrotated.perm.length_eq]
  exact positionalValue_lt (le_nine_of_isRotated hrotated)

/-- The rotations of a number below a power of ten are below it as well. -/
theorem lt_of_mem_rotatedValues {value width : Nat} (hwidth : 0 < width)
    (hfits : number < 10 ^ width) (hvalue : value ∈ rotatedValues number) : value < 10 ^ width :=
  (lt_pow_of_mem_rotatedValues hvalue).trans_le
    (Nat.pow_le_pow_right (by norm_num) (digitCount_le hwidth hfits))

theorem lt_word_of_mem_rotatedValues {value : Nat} (hsmall : number < 10 ^ 19)
    (hvalue : value ∈ rotatedValues number) : value < word :=
  (lt_of_mem_rotatedValues (by norm_num) hsmall hvalue).trans (by decide)

/-! ## Reading the rotations -/

theorem rotations_eq (hfits : ∀ value ∈ rotatedValues number, value < word) :
    rotations number = .ok (rotatedValues number) := by
  rw [rotatedValues_eq] at hfits ⊢
  rw [rotations_eq_mapM, mapM_eq_ok_iff, List.forall₂_map_right_iff, List.forall₂_same]
  intro entries hentries
  exact ofDigits_eq (hfits _ (List.mem_map_of_mem hentries))

theorem rotations_fails_iff (number : Nat) :
    (∃ fault, rotations number = .error fault) ↔
      ∃ value ∈ rotatedValues number, word ≤ value := by
  constructor
  · rintro ⟨fault, hfault⟩
    by_contra hnone
    have hfits : ∀ value ∈ rotatedValues number, value < word := by
      intro value hvalue
      exact Nat.not_le.mp fun hpast => hnone ⟨value, hvalue, hpast⟩
    rw [rotations_eq hfits] at hfault
    cases hfault
  · rintro ⟨value, hvalue, hpast⟩
    rw [rotatedValues_eq, List.mem_map] at hvalue
    obtain ⟨entries, hentries, rfl⟩ := hvalue
    obtain ⟨first, hfirst⟩ := (ofDigits_fails_iff entries).mpr hpast
    cases hrotations : rotations number with
    | error fault => exact ⟨fault, rfl⟩
    | ok values =>
        rw [rotations_eq_mapM, mapM_eq_ok_iff] at hrotations
        obtain ⟨read, -, hread⟩ := exists_value_of_forall₂ hrotations entries hentries
        rw [hfirst] at hread
        cases hread

theorem rotations_eq_of_lt (hsmall : number < 10 ^ 19) :
    rotations number = .ok (rotatedValues number) :=
  rotations_eq fun _ => lt_word_of_mem_rotatedValues hsmall

/-- The rotations of a number are as many as it has digits, the number itself first, each with
the digits in front moved behind the others and without the zeros that come to the front.  Below
the nineteenth power of ten they are always read; from there on the reading is a fault exactly
when one of them is past the machine words. -/
theorem rotations_are_rotated_values (number : Nat) :
    (rotatedValues number).length = digitCount number ∧ rotatedValue number 0 = number ∧
    (number < 10 ^ 19 → rotations number = .ok (rotatedValues number)) ∧
    ((∀ value ∈ rotatedValues number, value < word) →
      rotations number = .ok (rotatedValues number)) ∧
    ((∃ fault, rotations number = .error fault) ↔
      ∃ value ∈ rotatedValues number, word ≤ value) :=
  ⟨by rw [rotatedValues, List.length_map, List.length_range], rotatedValue_zero number,
    rotations_eq_of_lt, rotations_eq, rotations_fails_iff number⟩

/-- The zero of 101 is lost when it comes to the front.  The last digit of a word of twenty
digits does not fit in front of the others. -/
theorem rotations_are_rotated_values_at_limits :
    101 < 10 ^ 19 ∧ rotations 101 = .ok [101, 11, 110] ∧
      10 ^ 19 + 9 < word ∧ ∃ fault, rotations (10 ^ 19 + 9) = .error fault := by
  have hsmall : 101 < 10 ^ 19 := by norm_num
  have hdigits : digits 101 = [1, 0, 1] := by
    rw [digits_eq_reverse (by decide)]
    norm_num
  have hvalues : rotatedValues 101 = [101, 11, 110] := by
    rw [rotatedValues_eq, hdigits]
    decide
  have htwenty : digitCount (10 ^ 19 + 9) = 20 := by
    rw [← length_digits, digits_eq_reverse (by decide)]
    norm_num
  refine ⟨hsmall, ?_, by decide, ?_⟩
  · rw [← hvalues]
    exact (rotations_are_rotated_values 101).2.2.1 hsmall
  · rw [(rotations_are_rotated_values (10 ^ 19 + 9)).2.2.2.2]
    have hlast : 19 ∈ List.range (digitCount (10 ^ 19 + 9)) := by
      rw [htwenty]
      decide
    refine ⟨rotatedValue (10 ^ 19 + 9) 19, List.mem_map_of_mem hlast, ?_⟩
    rw [rotatedValue, htwenty]
    decide

/-! ## Digits without a zero -/

/-- A rotation of digits that are all positive is the decimal form of its value. -/
theorem digits_positionalValue_of_isRotated {entries : List Nat}
    (hrotated : entries.IsRotated (digits number)) (hzero : 0 ∉ digits number) :
    digits (positionalValue entries) = entries := by
  refine digits_positionalValue ⟨?_, le_nine_of_isRotated hrotated, ?_⟩
  · rintro rfl
    exact digits_ne_nil number (List.isRotated_nil_iff'.mp hrotated).symm
  · intro hhead
    exact absurd (hrotated.mem_iff.mp (List.mem_of_mem_head? hhead)) hzero

/-- No digit is lost, so the rotations of a rotation are those of the number, from another one
of them on. -/
theorem rotatedValues_isRotated {value : Nat} (hvalue : value ∈ rotatedValues number)
    (hzero : 0 ∉ digits number) :
    digitCount value = digitCount number ∧
      (rotatedValues number).IsRotated (rotatedValues value) := by
  obtain ⟨entries, hrotated, rfl⟩ := mem_rotatedValues_iff.mp hvalue
  have hdigits := digits_positionalValue_of_isRotated hrotated hzero
  constructor
  · rw [← length_digits, hdigits, hrotated.perm.length_eq, length_digits]
  · rw [rotatedValues_eq, rotatedValues_eq, hdigits]
    exact hrotated.symm.cyclicPermutations.map positionalValue

end NumberPuzzles
