import Mathlib.Data.List.Find
import Mathlib.Data.Rat.Cast.Order
import NumberPuzzles.Proofs.Text.Numeral
import NumberPuzzles.Puzzle.CancellingFraction

/-!
# Striking a digit from both sides of a fraction

The text of a number without the first occurrence of a digit is read as the positional value
of the digits that are left, leading zeros included, and that is no larger than the number.
So the products across the two fractions of half words are words.  Their equality says that
the fractions are equal once neither denominator is zero: the given one has a digit other than
zero, and a struck one that is zero would make the struck numerator zero as well, which the
test refuses.
-/

namespace NumberPuzzles.CancellingFraction

variable {numerator denominator number digit : Nat}

/-- The digits that are left when the first occurrence of one is struck. -/
def struck (number digit : Nat) : List Nat := (digits number).erase digit

/-- The first digit of the numerator, other than zero, that the denominator has as well. -/
structure IsFirstShared (numerator denominator digit : Nat) : Prop where
  ne_zero : digit ≠ 0
  mem_denominator : digit ∈ digits denominator
  first : ∃ before after, digits numerator = before ++ digit :: after ∧
    ∀ earlier ∈ before, earlier = 0 ∨ earlier ∉ digits denominator

/-- Both sides have a digit left, and the fraction that is left has the same value. -/
structure Survives (numerator denominator digit : Nat) : Prop where
  above_left : struck numerator digit ≠ []
  below_left : struck denominator digit ≠ []
  below_ne_zero : positionalValue (struck denominator digit) ≠ 0
  same_value : (numerator : ℚ) / denominator =
    positionalValue (struck numerator digit) / positionalValue (struck denominator digit)

/-! ## Texts of digits -/

theorem strike?_eq (letter : Char) (text : List Char) :
    strike? letter text = if letter ∈ text then some (text.erase letter) else none := by
  induction text with
  | nil => rfl
  | cons first rest ih =>
      by_cases hfirst : first = letter
      · simp [strike?, hfirst]
      · have hother : letter ≠ first := Ne.symm hfirst
        rw [strike?, if_neg hfirst, ih, List.erase_cons_tail (by simpa using hfirst)]
        by_cases hletter : letter ∈ rest
        · simp [hletter]
        · simp [hletter, hother]

theorem map_digitChar_erase {entries : List Nat} (hentries : ∀ entry ∈ entries, entry ≤ 9)
    (hdigit : digit ≤ 9) :
    (entries.map Nat.digitChar).erase (Nat.digitChar digit) =
      (entries.erase digit).map Nat.digitChar := by
  induction entries with
  | nil => rfl
  | cons entry rest ih =>
      obtain ⟨hentry, hrest⟩ := List.forall_mem_cons.mp hentries
      by_cases hsame : entry = digit
      · rw [hsame, List.map_cons, List.erase_cons_head, List.erase_cons_head]
      · have hletter : Nat.digitChar entry ≠ Nat.digitChar digit :=
          fun hletters => hsame ((Text.digitChar_inj hentry hdigit).mp hletters)
        rw [List.map_cons, List.erase_cons_tail (by simpa using hletter),
          List.erase_cons_tail (by simpa using hsame), List.map_cons, ih hrest]

/-! ## Striking a digit -/

theorem positionalValue_erase_le (entries : List Nat) (digit : Nat) :
    positionalValue (entries.erase digit) ≤ positionalValue entries := by
  induction entries with
  | nil => exact Nat.le_refl 0
  | cons entry rest ih =>
      by_cases hsame : entry = digit
      · rw [hsame, List.erase_cons_head, positionalValue]
        exact Nat.le_add_left _ _
      · have hlength : 10 ^ (rest.erase digit).length ≤ 10 ^ rest.length :=
          Nat.pow_le_pow_right (by decide) List.length_erase_le
        rw [List.erase_cons_tail (by simpa using hsame), positionalValue, positionalValue]
        exact Nat.add_le_add (Nat.mul_le_mul_left entry hlength) ih

theorem positionalValue_struck_le (number digit : Nat) :
    positionalValue (struck number digit) ≤ number := by
  have hle := positionalValue_erase_le (digits number) digit
  rwa [positionalValue_digits] at hle

theorem struck_le_nine (number digit : Nat) : ∀ entry ∈ struck number digit, entry ≤ 9 :=
  fun entry hentry => (digits_isDecimalForm number).digit entry (List.mem_of_mem_erase hentry)

/-- A machine word without one of its digits has at most nineteen digits, so it is read as
their positional value. -/
theorem readWord_struck (hword : number < word) (hdigit : digit ∈ digits number)
    (hleft : struck number digit ≠ []) :
    Text.readWord ((struck number digit).map Nat.digitChar) =
      .ok (positionalValue (struck number digit)) := by
  have hentries := struck_le_nine number digit
  have hlength : ((struck number digit).map Nat.digitChar).length ≤ 19 := by
    rw [List.length_map, struck, List.length_erase_of_mem hdigit, length_digits]
    have := digitCount_le_of_word hword
    omega
  rw [Text.readWord_of_digits (by simpa using hleft)
    (fun _ => Text.isDigit_of_mem_digitChars hentries) hlength,
    Text.map_figureValue_digitChars hentries]

theorem withoutDigit?_eq (hword : number < word) (hdigit : digit ∈ digits number) :
    withoutDigit? number (Nat.digitChar digit) =
      if struck number digit = [] then none else some (positionalValue (struck number digit)) := by
  have hentries := (digits_isDecimalForm number).digit
  have hstrike : strike? (Nat.digitChar digit) (Text.decimal number) =
      some ((struck number digit).map Nat.digitChar) := by
    rw [strike?_eq, if_pos ((Text.mem_decimal_iff (hentries digit hdigit)).mpr hdigit), Text.decimal,
      map_digitChar_erase hentries (hentries digit hdigit), struck]
  rw [withoutDigit?, hstrike]
  by_cases hleft : struck number digit = []
  · rw [if_pos hleft, hleft]
    rfl
  · rw [if_neg hleft]
    simp only [Option.bind_eq_bind, Option.bind_some, readWord_struck hword hdigit hleft]

/-! ## The first shared digit -/

theorem isFirstShared_iff :
    IsFirstShared numerator denominator digit ↔
      (digits numerator).find? (fun other => other ≠ 0 ∧ other ∈ digits denominator) =
        some digit := by
  rw [List.find?_eq_some_iff_append]
  constructor
  · rintro ⟨hzero, hmem, before, after, hdigits, hbefore⟩
    refine ⟨by simp [hzero, hmem], before, after, hdigits, fun earlier hearlier => ?_⟩
    rcases hbefore earlier hearlier with hother | hother
    · simp [hother]
    · simp [hother]
  · rintro ⟨hshared, before, after, hdigits, hbefore⟩
    obtain ⟨hzero, hmem⟩ := of_decide_eq_true hshared
    refine ⟨hzero, hmem, before, after, hdigits, fun earlier hearlier => ?_⟩
    have hother := hbefore earlier hearlier
    simp only [Bool.not_eq_true', decide_eq_false_iff_not, not_and_or, not_not] at hother
    exact hother

theorem IsFirstShared.unique {other : Nat} (hdigit : IsFirstShared numerator denominator digit)
    (hother : IsFirstShared numerator denominator other) : digit = other :=
  Option.some.inj ((isFirstShared_iff.mp hdigit).symm.trans (isFirstShared_iff.mp hother))

theorem IsFirstShared.mem_numerator (hdigit : IsFirstShared numerator denominator digit) :
    digit ∈ digits numerator :=
  List.mem_of_find?_eq_some (isFirstShared_iff.mp hdigit)

/-- The texts of two numbers share the character of the first digit that the numbers share. -/
theorem sharedDigit?_decimal (numerator denominator : Nat) :
    sharedDigit? (Text.decimal numerator) (Text.decimal denominator) =
      ((digits numerator).find? fun other => other ≠ 0 ∧ other ∈ digits denominator).map
        Nat.digitChar := by
  have hsame : ∀ other ∈ digits numerator,
      (Nat.digitChar other ≠ '0' && (Text.decimal denominator).contains (Nat.digitChar other)) =
        decide (other ≠ 0 ∧ other ∈ digits denominator) := by
    intro other hother
    have hdigit := (digits_isDecimalForm numerator).digit other hother
    have hzero : Nat.digitChar other = '0' ↔ other = 0 := Text.digitChar_inj hdigit (Nat.zero_le 9)
    have hmem : Nat.digitChar other ∈ Text.decimal denominator ↔ other ∈ digits denominator :=
      Text.mem_decimal_iff hdigit
    simp [hzero, hmem]
  have hnumerator : Text.decimal numerator = (digits numerator).map Nat.digitChar := rfl
  rw [sharedDigit?, hnumerator, List.find?_map]
  exact congrArg (Option.map Nat.digitChar) (List.find?_congr hsame)

/-! ## The test -/

/-- Fractions whose denominators are not zero are equal if the products across them are. -/
theorem same_value_iff {above below : Nat} (hdenominator : denominator ≠ 0) (hbelow : below ≠ 0) :
    (numerator : ℚ) / denominator = above / below ↔
      numerator * below = denominator * above := by
  have hdenominator' : (denominator : ℚ) ≠ 0 := Nat.cast_ne_zero.mpr hdenominator
  have hbelow' : (below : ℚ) ≠ 0 := Nat.cast_ne_zero.mpr hbelow
  rw [div_eq_div_iff hdenominator' hbelow', Nat.mul_comm denominator]
  norm_cast

theorem IsFirstShared.denominator_ne_zero (hdigit : IsFirstShared numerator denominator digit) :
    denominator ≠ 0 := by
  rintro rfl
  have hmem := hdigit.mem_denominator
  rw [digits_zero, List.mem_singleton] at hmem
  exact hdigit.ne_zero hmem

/-- When both sides have a digit left and are not both zero, the products decide: a struck
denominator of zero would leave a struck numerator of zero. -/
theorem IsFirstShared.survives_iff (hdigit : IsFirstShared numerator denominator digit)
    (habove : struck numerator digit ≠ []) (hbelow : struck denominator digit ≠ [])
    (hzeros : ¬ (positionalValue (struck numerator digit) = 0 ∧
      positionalValue (struck denominator digit) = 0)) :
    Survives numerator denominator digit ↔
      numerator * positionalValue (struck denominator digit) =
        denominator * positionalValue (struck numerator digit) := by
  have hdenominator := hdigit.denominator_ne_zero
  constructor
  · intro hsurvives
    exact (same_value_iff hdenominator hsurvives.below_ne_zero).mp hsurvives.same_value
  · intro hproducts
    have hzero : positionalValue (struck denominator digit) ≠ 0 := by
      intro hzero
      rw [hzero, Nat.mul_zero, zero_eq_mul] at hproducts
      exact hzeros ⟨hproducts.resolve_left hdenominator, hzero⟩
    exact ⟨habove, hbelow, hzero, (same_value_iff hdenominator hzero).mpr hproducts⟩

/-- The product across two fractions of half words is a word. -/
theorem mul_struck_eq {other : Nat} (hnumber : number < halfWord) (hother : other < halfWord)
    (digit : Nat) :
    Checked.mul word number (positionalValue (struck other digit)) =
      .ok (number * positionalValue (struck other digit)) := by
  have hstruck := (positionalValue_struck_le other digit).trans_lt hother
  have hproduct : number * positionalValue (struck other digit) < word :=
    calc number * positionalValue (struck other digit)
        < halfWord * halfWord := Nat.mul_lt_mul'' hnumber hstruck
      _ = word := by decide
  exact if_pos hproduct

/-- With a shared digit the test ends without a fault, and tells whether the fraction survives
the striking of that digit. -/
theorem isCancelling_of_firstShared (hdigit : IsFirstShared numerator denominator digit)
    (hnumerator : numerator < halfWord) (hdenominator : denominator < halfWord) :
    ∃ answer, isCancelling numerator denominator = .ok answer ∧
      (answer = true ↔ Survives numerator denominator digit) := by
  have hwider : halfWord < word := by decide
  rw [isCancelling, sharedDigit?_decimal, isFirstShared_iff.mp hdigit, Option.map_some]
  simp only [withoutDigit?_eq (hnumerator.trans hwider) hdigit.mem_numerator,
    withoutDigit?_eq (hdenominator.trans hwider) hdigit.mem_denominator]
  by_cases habove : struck numerator digit = []
  · refine ⟨false, by rw [if_pos habove], ?_⟩
    exact iff_of_false Bool.false_ne_true fun hsurvives => hsurvives.above_left habove
  by_cases hbelow : struck denominator digit = []
  · refine ⟨false, by rw [if_neg habove, if_pos hbelow], ?_⟩
    exact iff_of_false Bool.false_ne_true fun hsurvives => hsurvives.below_left hbelow
  rw [if_neg habove, if_neg hbelow]
  by_cases hzeros : positionalValue (struck numerator digit) = 0 ∧
      positionalValue (struck denominator digit) = 0
  · refine ⟨false, if_pos hzeros, ?_⟩
    exact iff_of_false Bool.false_ne_true fun hsurvives => hsurvives.below_ne_zero hzeros.2
  · refine ⟨decide (numerator * positionalValue (struck denominator digit) =
      denominator * positionalValue (struck numerator digit)), ?_, ?_⟩
    · simp only [if_neg hzeros, mul_struck_eq hnumerator hdenominator,
        mul_struck_eq hdenominator hnumerator, Checked.bind_ok]
      rfl
    · rw [decide_eq_true_iff, hdigit.survives_iff habove hbelow hzeros]

/-- For a numerator and a denominator that are half words the test ends without a fault.  It
accepts them exactly when they share a digit other than zero and striking the first one of the
numerator from both leaves an equal fraction with a denominator other than zero; so a struck
denominator of zero is always refused. -/
theorem cancelling_iff_survives (hnumerator : numerator < halfWord)
    (hdenominator : denominator < halfWord) :
    (∃ answer, isCancelling numerator denominator = .ok answer ∧
      (answer = true ↔ ∃ digit, IsFirstShared numerator denominator digit ∧
        Survives numerator denominator digit)) ∧
    ∀ digit, IsFirstShared numerator denominator digit →
      positionalValue (struck denominator digit) = 0 →
        isCancelling numerator denominator = .ok false := by
  constructor
  · cases hshared : (digits numerator).find? fun other =>
      other ≠ 0 ∧ other ∈ digits denominator with
    | none =>
        refine ⟨false, ?_, iff_of_false Bool.false_ne_true ?_⟩
        · rw [isCancelling, sharedDigit?_decimal, hshared]
          rfl
        · rintro ⟨digit, hdigit, -⟩
          rw [isFirstShared_iff.mp hdigit] at hshared
          cases hshared
    | some digit =>
        have hdigit := isFirstShared_iff.mpr hshared
        obtain ⟨answer, hrun, hanswer⟩ :=
          isCancelling_of_firstShared hdigit hnumerator hdenominator
        refine ⟨answer, hrun, hanswer.trans ⟨fun hsurvives => ⟨digit, hdigit, hsurvives⟩, ?_⟩⟩
        rintro ⟨other, hother, hsurvives⟩
        rwa [hdigit.unique hother]
  · intro digit hdigit hzero
    obtain ⟨answer, hrun, hanswer⟩ :=
      isCancelling_of_firstShared hdigit hnumerator hdenominator
    have hfalse : answer = false :=
      Bool.eq_false_iff.mpr fun htrue => (hanswer.mp htrue).below_ne_zero hzero
    rw [hrun, hfalse]

/-- Forty-nine of ninety-eight is four of eight, so it is accepted; twelve of ten is refused,
because striking the one leaves two of nothing. -/
theorem cancelling_iff_survives_of_forty_nine :
    (49 < halfWord ∧ 98 < halfWord ∧ IsFirstShared 49 98 9 ∧ Survives 49 98 9 ∧
      isCancelling 49 98 = .ok true) ∧
    (12 < halfWord ∧ 10 < halfWord ∧ IsFirstShared 12 10 1 ∧
      positionalValue (struck 10 1) = 0 ∧ isCancelling 12 10 = .ok false) := by
  have hfortyNine : digits 49 = [4, 9] := by simp [digits, digitsOnto]
  have hninetyEight : digits 98 = [9, 8] := by simp [digits, digitsOnto]
  have htwelve : digits 12 = [1, 2] := by simp [digits, digitsOnto]
  have hten : digits 10 = [1, 0] := by simp [digits, digitsOnto]
  have hnine : IsFirstShared 49 98 9 :=
    ⟨by decide, by simp [hninetyEight], [4], [], hfortyNine, by simp [hninetyEight]⟩
  have hsurvives : Survives 49 98 9 := by
    have habove : struck 49 9 = [4] := by simp [struck, hfortyNine]
    have hbelow : struck 98 9 = [8] := by simp [struck, hninetyEight]
    constructor
    · simp [habove]
    · simp [hbelow]
    · simp [hbelow, positionalValue]
    · norm_num [habove, hbelow, positionalValue]
  have hone : IsFirstShared 12 10 1 :=
    ⟨by decide, by simp [hten], [], [2], htwelve, by simp⟩
  have hzero : positionalValue (struck 10 1) = 0 := by simp [struck, hten, positionalValue]
  refine ⟨⟨by decide, by decide, hnine, hsurvives, ?_⟩, by decide, by decide, hone, hzero, ?_⟩
  · obtain ⟨⟨answer, hrun, hanswer⟩, -⟩ :=
      cancelling_iff_survives (show 49 < halfWord by decide) (show 98 < halfWord by decide)
    rw [hrun, hanswer.mpr ⟨9, hnine, hsurvives⟩]
  · exact (cancelling_iff_survives (by decide) (by decide)).2 1 hone hzero

end NumberPuzzles.CancellingFraction
