import Mathlib.Data.Char
import NumberPuzzles.Proofs.Digits
import NumberPuzzles.Text.Lines
import NumberPuzzles.Text.Numeral

/-!
# What is read as a number

A numeral below a limit is made of digits, at least one, with at most one plus sign in
front; its value is the positional one, however many zeros it begins with, and is below
the limit.  The reader accepts these texts and no others, and the decimal form of a number
is one of them; without a limit, the decimal form of any number is read back as the number.
Filled with zeros to a width, it is the one text of so many digits for the number.
-/

namespace NumberPuzzles.Text

def figureValue (letter : Char) : Nat := letter.toNat - '0'.toNat

/-- Digits with at most one plus sign in front, and their positional value below a limit. -/
def IsNumeral (limit : Nat) (text : List Char) (value : Nat) : Prop :=
  ∃ figures : List Char, (text = figures ∨ text = '+' :: figures) ∧ figures ≠ [] ∧
    (∀ letter ∈ figures, letter.isDigit = true) ∧
    positionalValue (figures.map figureValue) = value ∧ value < limit

/-! ## Reading -/

theorem readDigits_cons (limit value : Nat) (letter : Char) (letters : List Char) :
    readDigits limit value (letter :: letters) =
      if letter.isDigit then
        if value * 10 + figureValue letter < limit then
          readDigits limit (value * 10 + figureValue letter) letters
        else .error .tooLarge
      else .error .invalidDigit := by
  rw [readDigits, digitValue?]
  by_cases hdigit : letter.isDigit = true
  · rw [if_pos hdigit, if_pos hdigit]
    rfl
  · rw [if_neg hdigit, if_neg hdigit]

/-- Reading goes on from a value in front, and passes only through smaller ones. -/
theorem readDigits_eq_ok_iff {limit value result : Nat} {letters : List Char}
    (hvalue : value < limit) :
    readDigits limit value letters = .ok result ↔
      (∀ letter ∈ letters, letter.isDigit = true) ∧
        value * 10 ^ letters.length + positionalValue (letters.map figureValue) = result ∧
        result < limit := by
  induction letters generalizing value with
  | nil =>
      simp only [readDigits, positionalValue, Except.ok.injEq, List.not_mem_nil, false_implies,
        implies_true, List.length_nil, List.map_nil, Nat.pow_zero, Nat.mul_one, Nat.add_zero,
        true_and]
      omega
  | cons letter letters ih =>
      have hsplit : value * 10 ^ (letter :: letters).length +
            positionalValue ((letter :: letters).map figureValue) =
          (value * 10 + figureValue letter) * 10 ^ letters.length +
            positionalValue (letters.map figureValue) := by
        rw [List.map_cons, positionalValue, List.length_cons, List.length_map]
        ring
      have hgrows : value * 10 + figureValue letter ≤
          (value * 10 + figureValue letter) * 10 ^ letters.length :=
        Nat.le_mul_of_pos_right _ (by positivity)
      rw [readDigits_cons, hsplit, List.forall_mem_cons]
      by_cases hdigit : letter.isDigit = true
      · rw [if_pos hdigit]
        by_cases hfits : value * 10 + figureValue letter < limit
        · rw [if_pos hfits, ih hfits]
          simp only [hdigit, true_and]
        · rw [if_neg hfits]
          refine iff_of_false (by simp) ?_
          rintro ⟨-, hresult, hbelow⟩
          omega
      · rw [if_neg hdigit]
        exact iff_of_false (by simp) fun haccepted => hdigit haccepted.1.1

theorem isNumeral_of_figures {limit value : Nat} {figures : List Char} (hne : figures ≠ [])
    (hplus : figures.head? ≠ some '+') :
    IsNumeral limit figures value ↔
      (∀ letter ∈ figures, letter.isDigit = true) ∧
        positionalValue (figures.map figureValue) = value ∧ value < limit := by
  constructor
  · rintro ⟨others, rfl | rfl, -, haccepted⟩
    · exact haccepted
    · exact absurd rfl hplus
  · intro haccepted
    exact ⟨figures, .inl rfl, hne, haccepted⟩

theorem isNumeral_plus {limit value : Nat} {figures : List Char} :
    IsNumeral limit ('+' :: figures) value ↔
      figures ≠ [] ∧ (∀ letter ∈ figures, letter.isDigit = true) ∧
        positionalValue (figures.map figureValue) = value ∧ value < limit := by
  constructor
  · rintro ⟨others, rfl | htext, hne, hdigits, haccepted⟩
    · exact absurd (hdigits '+' List.mem_cons_self) (by decide)
    · cases htext
      exact ⟨hne, hdigits, haccepted⟩
  · rintro ⟨hne, haccepted⟩
    exact ⟨figures, .inr rfl, hne, haccepted⟩

/-- The reader accepts the numerals below its limit and gives their values. -/
theorem readBelow_eq_ok_iff {limit value : Nat} (hlimit : 0 < limit) {text : List Char} :
    readBelow limit text = .ok value ↔ IsNumeral limit text value := by
  rw [readBelow.eq_def]
  split
  · refine iff_of_false (by simp) ?_
    rintro ⟨figures, htext | htext, hne, -⟩
    · exact hne htext.symm
    · cases htext
  · rw [isNumeral_plus]
    simp
  · next letters hmore =>
      have hne : letters ≠ [] := by
        rintro rfl
        exact hmore rfl
      rw [readDigits_eq_ok_iff hlimit, isNumeral_plus]
      simp [hne]
  · next hne hlone hplus =>
      have hhead : text.head? ≠ some '+' := by
        intro hhead
        obtain ⟨rest, htext⟩ := List.head?_eq_some_iff.mp hhead
        exact hplus rest htext
      rw [readDigits_eq_ok_iff hlimit, isNumeral_of_figures hne hhead]
      simp

@[simp]
theorem readWord_eq_ok_iff {value : Nat} {text : List Char} :
    readWord text = .ok value ↔ IsNumeral word text value :=
  readBelow_eq_ok_iff (by decide)

/-! ## The decimal form -/

theorem isDigit_digitChar {digit : Nat} (hdigit : digit ≤ 9) :
    (Nat.digitChar digit).isDigit = true ∧ figureValue (Nat.digitChar digit) = digit := by
  interval_cases digit <;> decide

theorem digitChar_inj {left right : Nat} (hleft : left ≤ 9) (hright : right ≤ 9) :
    Nat.digitChar left = Nat.digitChar right ↔ left = right := by
  constructor
  · intro hletters
    rw [← (isDigit_digitChar hleft).2, hletters, (isDigit_digitChar hright).2]
  · rintro rfl
    rfl

theorem isDigit_of_mem_digitChars {entries : List Nat} (hentries : ∀ entry ∈ entries, entry ≤ 9)
    {letter : Char} (hletter : letter ∈ entries.map Nat.digitChar) : letter.isDigit = true := by
  obtain ⟨digit, hdigit, rfl⟩ := List.mem_map.mp hletter
  exact (isDigit_digitChar (hentries digit hdigit)).1

theorem map_figureValue_digitChars {entries : List Nat}
    (hentries : ∀ entry ∈ entries, entry ≤ 9) :
    (entries.map Nat.digitChar).map figureValue = entries := by
  rw [List.map_map]
  refine (List.map_congr_left ?_).trans (List.map_id _)
  intro digit hdigit
  exact (isDigit_digitChar (hentries digit hdigit)).2

theorem isDigit_of_mem_decimal {number : Nat} {letter : Char} (hletter : letter ∈ decimal number) :
    letter.isDigit = true :=
  isDigit_of_mem_digitChars (digits_isDecimalForm number).digit hletter

@[simp]
theorem map_figureValue_decimal (number : Nat) :
    (decimal number).map figureValue = digits number :=
  map_figureValue_digitChars (digits_isDecimalForm number).digit

theorem mem_decimal_iff {number digit : Nat} (hdigit : digit ≤ 9) :
    Nat.digitChar digit ∈ decimal number ↔ digit ∈ digits number := by
  rw [decimal, List.mem_map]
  constructor
  · rintro ⟨other, hother, hletter⟩
    rwa [← (digitChar_inj ((digits_isDecimalForm number).digit other hother) hdigit).mp hletter]
  · intro hmem
    exact ⟨digit, hmem, rfl⟩

@[simp]
theorem length_decimal (number : Nat) : (decimal number).length = digitCount number := by
  rw [decimal, List.length_map, length_digits]

/-- The decimal form of a number is a numeral for it. -/
theorem isNumeral_decimal {limit number : Nat} (hlimit : number < limit) :
    IsNumeral limit (decimal number) number := by
  refine ⟨decimal number, .inl rfl, decimal_ne_nil number, ?_, ?_, hlimit⟩
  · intro letter hletter
    exact isDigit_of_mem_decimal hletter
  · rw [map_figureValue_decimal, positionalValue_digits]

theorem isDigit_iff {letter : Char} :
    letter.isDigit = true ↔ 48 ≤ letter.toNat ∧ letter.toNat ≤ 57 := by
  simp only [Char.isDigit, ge_iff_le, Bool.and_eq_true, decide_eq_true_eq,
    UInt32.le_iff_toNat_le]
  rfl

theorem utf8Size_of_isDigit {letter : Char} (hdigit : letter.isDigit = true) :
    letter.utf8Size = 1 :=
  Char.utf8Size_eq_one_iff.mpr ((isDigit_iff.mp hdigit).2.trans (by decide))

theorem figureValue_le {letter : Char} (hdigit : letter.isDigit = true) :
    figureValue letter ≤ 9 := by
  have hrange := isDigit_iff.mp hdigit
  change letter.toNat - 48 ≤ 9
  omega

/-- Digits are no blanks. -/
theorem isBlank_of_isDigit {letter : Char} (hdigit : letter.isDigit = true) :
    isBlank letter = false := by
  have hrange := isDigit_iff.mp hdigit
  rw [isBlank, Bool.eq_false_iff]
  intro hblank
  simp at hblank
  omega

theorem digitChar_figureValue {letter : Char} (hdigit : letter.isDigit = true) :
    Nat.digitChar (figureValue letter) = letter := by
  have hrange := isDigit_iff.mp hdigit
  apply Char.toNat_inj.mp
  rw [figureValue, Nat.toNat_digitChar_of_lt_ten]
  · change 48 + (letter.toNat - 48) = letter.toNat
    omega
  · change letter.toNat - 48 < 10
    omega

theorem map_digitChar_figureValue {text : List Char}
    (hdigits : ∀ letter ∈ text, letter.isDigit = true) :
    (text.map figureValue).map Nat.digitChar = text := by
  rw [List.map_map]
  refine (List.map_congr_left ?_).trans (List.map_id _)
  intro letter hletter
  exact digitChar_figureValue (hdigits letter hletter)

theorem forall_figureValue_le {text : List Char}
    (hdigits : ∀ letter ∈ text, letter.isDigit = true) :
    ∀ entry ∈ text.map figureValue, entry ≤ 9 := by
  intro entry hentry
  obtain ⟨letter, hletter, rfl⟩ := List.mem_map.mp hentry
  exact figureValue_le (hdigits letter hletter)

/-- Digits, at least one and at most nineteen, are read as their positional value. -/
theorem readWord_of_digits {text : List Char} (hne : text ≠ [])
    (hdigits : ∀ letter ∈ text, letter.isDigit = true) (hlength : text.length ≤ 19) :
    readWord text = .ok (positionalValue (text.map figureValue)) := by
  have hword : positionalValue (text.map figureValue) < word := by
    apply positionalValue_lt_word (forall_figureValue_le hdigits)
    rwa [List.length_map]
  exact readWord_eq_ok_iff.mpr ⟨text, .inl rfl, hne, hdigits, rfl, hword⟩

/-- Texts of digits are ordered as the lists of their values. -/
theorem map_figureValue_lt {left right : List Char}
    (hleft : ∀ letter ∈ left, letter.isDigit = true) (hlt : left < right) :
    left.map figureValue < right.map figureValue := by
  induction left generalizing right with
  | nil =>
      cases right with
      | nil => exact absurd hlt (List.not_lt_nil _)
      | cons other others => exact List.nil_lt_cons _ _
  | cons letter letters ih =>
      cases right with
      | nil => exact absurd hlt (List.not_lt_nil _)
      | cons other others =>
          obtain ⟨hletter, hletters⟩ := List.forall_mem_cons.mp hleft
          rw [List.map_cons, List.map_cons, List.cons_lt_cons_iff]
          rcases List.cons_lt_cons_iff.mp hlt with hbefore | ⟨rfl, hothers⟩
          · have hleast := (isDigit_iff.mp hletter).1
            have hcode : letter.toNat < other.toNat := hbefore
            apply Or.inl
            change letter.toNat - 48 < other.toNat - 48
            omega
          · exact .inr ⟨rfl, ih hletters hothers⟩

/-- Of two texts of digits with one length, the one that comes first has no larger value. -/
theorem positionalValue_figures_le {left right : List Char} (hlength : left.length = right.length)
    (hleft : ∀ letter ∈ left, letter.isDigit = true) (hle : left ≤ right) :
    positionalValue (left.map figureValue) ≤ positionalValue (right.map figureValue) := by
  rcases hle.lt_or_eq with hlt | rfl
  · have hlengths : (left.map figureValue).length = (right.map figureValue).length := by
      rw [List.length_map, List.length_map, hlength]
    exact (positionalValue_lt_of_lt hlengths (forall_figureValue_le hleft)
      (map_figureValue_lt hleft hlt)).le
  · exact le_rfl

/-! ## Numbers of any size -/

/-- Digits are read by Horner's rule, without a limit. -/
theorem readLongDigits_of_digits {letters : List Char}
    (hdigits : ∀ letter ∈ letters, letter.isDigit = true) (value : Nat) :
    readLongDigits value letters =
      .ok ((letters.map figureValue).foldl (fun value digit => value * 10 + digit) value) := by
  induction letters generalizing value with
  | nil => rfl
  | cons letter letters ih =>
      obtain ⟨hletter, hletters⟩ := List.forall_mem_cons.mp hdigits
      have hunderscore : letter ≠ '_' := by
        rintro rfl
        exact absurd hletter (by decide)
      rw [readLongDigits.eq_3 _ _ _ hunderscore, digitValue?, if_pos hletter, List.map_cons,
        List.foldl_cons]
      exact ih hletters _

/-- The decimal form of a number of any size is read back as the number. -/
@[simp]
theorem readNatural_decimal (number : Nat) : readNatural (decimal number) = .ok number := by
  have hdigits : ∀ letter ∈ decimal number, letter.isDigit = true :=
    fun letter hletter => isDigit_of_mem_decimal hletter
  obtain ⟨letter, letters, hdecimal⟩ := List.exists_cons_of_ne_nil (decimal_ne_nil number)
  have hfirst : letter.isDigit = true := hdigits letter (hdecimal ▸ List.mem_cons_self)
  have hplus : letter ≠ '+' := by
    rintro rfl
    exact absurd hfirst (by decide)
  have hunderscore : letter ≠ '_' := by
    rintro rfl
    exact absurd hfirst (by decide)
  have hread : readNatural (decimal number) = readLongDigits 0 (decimal number) := by
    rw [hdecimal, readNatural, dropPlus]
    · simp [hunderscore]
    · simp [hplus]
    · simp [hplus]
  rw [hread, readLongDigits_of_digits hdigits, foldl_horner_zero, map_figureValue_decimal,
    positionalValue_digits]

/-! ## Filled with zeros -/

/-- Digits, as many as the width, with the number as their positional value. -/
structure IsPaddedForm (width number : Nat) (text : List Char) : Prop where
  length_eq : text.length = width
  digits : ∀ letter ∈ text, letter.isDigit = true
  value : positionalValue (text.map figureValue) = number

/-- A number has one form of each width. -/
theorem IsPaddedForm.unique {width number : Nat} {left right : List Char}
    (hleft : IsPaddedForm width number left) (hright : IsPaddedForm width number right) :
    left = right := by
  have hentries {text : List Char} (htext : IsPaddedForm width number text) :
      ∀ entry ∈ (text.map figureValue).reverse, entry < 10 := by
    intro entry hentry
    exact Nat.lt_succ_of_le (forall_figureValue_le htext.digits entry (List.mem_reverse.mp hentry))
  have hvalue : positionalValue (left.map figureValue) = positionalValue (right.map figureValue) :=
    hleft.value.trans hright.value.symm
  rw [positionalValue_eq_ofDigits, positionalValue_eq_ofDigits] at hvalue
  have hlength : (left.map figureValue).reverse.length = (right.map figureValue).reverse.length := by
    simp only [List.length_reverse, List.length_map, hleft.length_eq, hright.length_eq]
  have hfigures : left.map figureValue = right.map figureValue :=
    List.reverse_injective
      (Nat.ofDigits_inj_of_len_eq (by decide) hlength (hentries hleft) (hentries hright) hvalue)
  rw [← map_digitChar_figureValue hleft.digits, hfigures, map_digitChar_figureValue hright.digits]

/-- A number that fits the width is written with as many digits. -/
theorem padded_isPaddedForm {width number : Nat} (hwidth : 0 < width)
    (hfits : number < 10 ^ width) : IsPaddedForm width number (padded width number) where
  length_eq := by
    rw [padded, List.length_append, List.length_replicate, length_decimal]
    exact Nat.sub_add_cancel (digitCount_le hwidth hfits)
  digits letter hletter := by
    rcases List.mem_append.mp hletter with hzero | hdigit
    · rw [List.eq_of_mem_replicate hzero]
      decide
    · exact isDigit_of_mem_decimal hdigit
  value := by
    have hzero : figureValue '0' = 0 := rfl
    rw [padded, List.map_append, map_figureValue_decimal, List.map_replicate, hzero,
      positionalValue_eq_ofDigits, List.reverse_append, List.reverse_replicate,
      Nat.ofDigits_append_replicate_zero, ← positionalValue_eq_ofDigits, positionalValue_digits]

end NumberPuzzles.Text
