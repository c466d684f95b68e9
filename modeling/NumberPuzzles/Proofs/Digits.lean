import Mathlib.Data.List.Lex
import Mathlib.Data.Nat.Digits.Lemmas
import NumberPuzzles.Digits
import NumberPuzzles.Proofs.Checked

/-!
# Digits and positional values

A list of entries has an exact value: each entry times its power of ten.  Horner's rule
passes only through values that are no larger, so it is stopped exactly when the whole
value is past the machine words.  Repeated division writes the one list of digits without
a leading zero that has a given value, and the integer logarithm counts that list.
-/

namespace NumberPuzzles

/-- The value of a list of entries by their positions: each entry times its power of ten. -/
def positionalValue : List Nat → Nat
  | [] => 0
  | entry :: rest => entry * 10 ^ rest.length + positionalValue rest

theorem positionalValue_eq_ofDigits (entries : List Nat) :
    positionalValue entries = Nat.ofDigits 10 entries.reverse := by
  induction entries with
  | nil => rfl
  | cons entry rest ih =>
      rw [positionalValue, ih, List.reverse_cons, Nat.ofDigits_append, Nat.ofDigits_singleton,
        List.length_reverse]
      ring

/-! ## Reading by Horner's rule -/

/-- One step of Horner's rule, if it is below the limit. -/
theorem appendDigit_isStep (limit digit : Nat) :
    Checked.IsStep limit (appendDigit limit) (fun value digit => value * 10 + digit) digit where
  below value hbelow := by
    have hscaled : value * 10 < limit := by omega
    simp [appendDigit, Checked.mul, Checked.add, hscaled, hbelow]
  past value hpast := by
    by_cases hscaled : value * 10 < limit
    · refine ⟨.add, ?_⟩
      simp [appendDigit, Checked.mul, Checked.add, hscaled, Nat.not_lt.mpr hpast]
    · refine ⟨.multiply, ?_⟩
      simp [appendDigit, Checked.mul, hscaled]
  grows value := by omega

theorem foldl_horner_eq (value : Nat) (entries : List Nat) :
    entries.foldl (fun value digit => value * 10 + digit) value =
      value * 10 ^ entries.length + positionalValue entries := by
  induction entries generalizing value with
  | nil => simp [positionalValue]
  | cons entry rest ih =>
      rw [List.foldl_cons, ih, positionalValue, List.length_cons]
      ring

@[simp]
theorem foldl_horner_zero (entries : List Nat) :
    entries.foldl (fun value digit => value * 10 + digit) 0 = positionalValue entries := by
  rw [foldl_horner_eq, Nat.zero_mul, Nat.zero_add]

theorem ofDigits_eq {entries : List Nat} (hbelow : positionalValue entries < word) :
    ofDigits entries = .ok (positionalValue entries) := by
  rw [← foldl_horner_zero] at hbelow ⊢
  exact Checked.foldlM_eq (fun entry _ => appendDigit_isStep word entry) hbelow

theorem ofDigits_fails_iff (entries : List Nat) :
    (∃ fault, ofDigits entries = .error fault) ↔ word ≤ positionalValue entries := by
  rw [← foldl_horner_zero]
  exact Checked.foldlM_fails_iff (fun entry _ => appendDigit_isStep word entry) (by decide)

/-! ## Writing by repeated division -/

theorem digitsOnto_eq {number : Nat} (hpositive : 0 < number) (tail : List Nat) :
    digitsOnto number tail = (Nat.digits 10 number).reverse ++ tail := by
  fun_induction digitsOnto number tail with
  | case1 number tail hsmall =>
      rw [Nat.digits_of_lt 10 number (by omega) hsmall]
      rfl
  | case2 number tail hlarge ih =>
      rw [ih (by omega), Nat.digits_def' (by norm_num) hpositive]
      simp

theorem digits_eq_reverse {number : Nat} (hpositive : 0 < number) :
    digits number = (Nat.digits 10 number).reverse := by
  rw [digits, digitsOnto_eq hpositive, List.append_nil]

@[simp]
theorem digits_zero : digits 0 = [0] := by
  rw [digits, digitsOnto, if_pos (by norm_num)]

/-- Digits only, at least one, and no zero in front of another digit. -/
structure IsDecimalForm (entries : List Nat) : Prop where
  nonempty : entries ≠ []
  digit : ∀ entry ∈ entries, entry ≤ 9
  leading : entries.head? = some 0 → entries = [0]

theorem digits_isDecimalForm (number : Nat) : IsDecimalForm (digits number) := by
  rcases Nat.eq_zero_or_pos number with rfl | hpositive
  · rw [digits_zero]
    exact ⟨by simp, by simp, by simp⟩
  · have hne : Nat.digits 10 number ≠ [] := Nat.digits_ne_nil_iff_ne_zero.mpr hpositive.ne'
    rw [digits_eq_reverse hpositive]
    refine ⟨by simpa using hne, ?_, ?_⟩
    · intro entry hentry
      have hbase : entry < 10 := Nat.digits_lt_base (by norm_num) (List.mem_reverse.mp hentry)
      omega
    · intro hhead
      rw [List.head?_reverse, List.getLast?_eq_some_getLast hne, Option.some.injEq] at hhead
      exact absurd hhead (Nat.getLast_digit_ne_zero 10 hpositive.ne')

@[simp]
theorem positionalValue_digits (number : Nat) : positionalValue (digits number) = number := by
  rcases Nat.eq_zero_or_pos number with rfl | hpositive
  · rw [digits_zero]
    rfl
  · rw [digits_eq_reverse hpositive, positionalValue_eq_ofDigits, List.reverse_reverse,
      Nat.ofDigits_digits]

/-- A decimal form is the one of its value. -/
theorem digits_positionalValue {entries : List Nat} (hform : IsDecimalForm entries) :
    digits (positionalValue entries) = entries := by
  by_cases hzero : entries.head? = some 0
  · rw [hform.leading hzero]
    exact digits_zero
  · have hlast : ∀ hne : entries.reverse ≠ [], entries.reverse.getLast hne ≠ 0 := by
      intro hne hlast
      rw [List.getLast_reverse] at hlast
      exact hzero (by rw [List.head?_eq_some_head hform.nonempty, hlast])
    have hdigits : Nat.digits 10 (positionalValue entries) = entries.reverse := by
      rw [positionalValue_eq_ofDigits]
      refine Nat.digits_ofDigits 10 (by norm_num) _ ?_ hlast
      intro entry hentry
      have := hform.digit entry (List.mem_reverse.mp hentry)
      omega
    have hpositive : 0 < positionalValue entries := by
      rw [Nat.pos_iff_ne_zero, ← Nat.digits_ne_nil_iff_ne_zero (b := 10), hdigits]
      simpa using hform.nonempty
    rw [digits_eq_reverse hpositive, hdigits, List.reverse_reverse]

/-! ## Counting digits -/

theorem log10?_eq {number : Nat} (hpositive : 0 < number) :
    log10? number = some (Nat.log 10 number) := by
  fun_induction log10? number with
  | case1 => omega
  | case2 number hzero hsmall => rw [Nat.log_of_lt hsmall]
  | case3 number hzero hlarge ih =>
      rw [ih (by omega), Nat.log_of_one_lt_of_le (by norm_num) (not_lt.mp hlarge)]
      rfl

@[simp]
theorem length_digits (number : Nat) : (digits number).length = digitCount number := by
  rcases Nat.eq_zero_or_pos number with rfl | hpositive
  · rw [digits_zero]
    simp [digitCount, log10?]
  · rw [digits_eq_reverse hpositive, List.length_reverse,
      Nat.length_digits 10 number (by norm_num) hpositive.ne', digitCount, log10?_eq hpositive]

@[simp]
theorem digitCount_pos (number : Nat) : 0 < digitCount number := by
  rw [← length_digits]
  exact List.length_pos_of_ne_nil (digits_isDecimalForm number).nonempty

theorem digitCount_eq_log {number : Nat} (hpositive : 0 < number) :
    digitCount number = Nat.log 10 number + 1 := by
  rw [digitCount, log10?_eq hpositive]

theorem pow_digitCount_le {number : Nat} (hpositive : 0 < number) :
    10 ^ (digitCount number - 1) ≤ number := by
  rw [digitCount_eq_log hpositive, Nat.add_sub_cancel]
  exact Nat.pow_log_le_self 10 hpositive.ne'

theorem lt_pow_digitCount {number : Nat} (hpositive : 0 < number) :
    number < 10 ^ digitCount number := by
  rw [digitCount_eq_log hpositive]
  exact Nat.lt_pow_succ_log_self (by norm_num) number

/-- A product has as many digits as its factors have together, or one less. -/
theorem digitCount_mul {left right : Nat} (hleft : 0 < left) (hright : 0 < right) :
    digitCount (left * right) = digitCount left + digitCount right ∨
      digitCount (left * right) + 1 = digitCount left + digitCount right := by
  have hproduct : 0 < left * right := Nat.mul_pos hleft hright
  have hleast : 10 ^ (digitCount left - 1 + (digitCount right - 1)) <
      10 ^ digitCount (left * right) :=
    calc 10 ^ (digitCount left - 1 + (digitCount right - 1))
        = 10 ^ (digitCount left - 1) * 10 ^ (digitCount right - 1) := Nat.pow_add ..
      _ ≤ left * right := Nat.mul_le_mul (pow_digitCount_le hleft) (pow_digitCount_le hright)
      _ < 10 ^ digitCount (left * right) := lt_pow_digitCount hproduct
  have hgreatest : 10 ^ (digitCount (left * right) - 1) <
      10 ^ (digitCount left + digitCount right) :=
    calc 10 ^ (digitCount (left * right) - 1) ≤ left * right := pow_digitCount_le hproduct
      _ < 10 ^ digitCount left * 10 ^ digitCount right :=
        Nat.mul_lt_mul'' (lt_pow_digitCount hleft) (lt_pow_digitCount hright)
      _ = 10 ^ (digitCount left + digitCount right) := (Nat.pow_add ..).symm
  rw [Nat.pow_lt_pow_iff_right (by norm_num)] at hleast hgreatest
  have := digitCount_pos left
  have := digitCount_pos right
  omega

/-- A power of ten is in reach exactly when the number has a digit for it. -/
theorem pow_le_iff_lt_digitCount {number exponent : Nat} (hpositive : 0 < number) :
    10 ^ exponent ≤ number ↔ exponent < digitCount number := by
  rw [digitCount_eq_log hpositive, Nat.lt_succ_iff, Nat.le_log_iff_pow_le (by norm_num)]
  exact hpositive.ne'

theorem digitCount_le {number width : Nat} (hwidth : 0 < width) (hfits : number < 10 ^ width) :
    digitCount number ≤ width := by
  rcases Nat.eq_zero_or_pos number with rfl | hpositive
  · rwa [digitCount, log10?, if_pos rfl]
  · exact Nat.not_lt.mp fun hlong =>
      hfits.not_ge ((pow_le_iff_lt_digitCount hpositive).mpr hlong)

theorem lt_pow_iff_digitCount_le {number width : Nat} (hwidth : 0 < width) :
    number < 10 ^ width ↔ digitCount number ≤ width := by
  refine ⟨digitCount_le hwidth, ?_⟩
  intro hle
  rcases Nat.eq_zero_or_pos number with rfl | hpositive
  · exact Nat.pow_pos (by decide)
  · exact (lt_pow_digitCount hpositive).trans_le (Nat.pow_le_pow_right (by decide) hle)

@[simp]
theorem hasFewerDigits_iff {count number : Nat} :
    hasFewerDigits count number = true ↔ digitCount number < count := by
  have hleast := digitCount_pos number
  by_cases hfew : count < 2
  · rw [hasFewerDigits, if_pos hfew]
    exact iff_of_false (by decide) (by omega)
  have hpower : number < 10 ^ (count - 1) ↔ digitCount number < count := by
    rw [lt_pow_iff_digitCount_le (by omega)]
    omega
  constructor
  · intro hfewer
    exact hpower.mp (lt_pow_of_hasFewerDigits hfewer)
  · intro hfewer
    rw [hasFewerDigits, if_neg hfew]
    split
    · rfl
    · exact decide_eq_true (hpower.mpr hfewer)

theorem digitCount_mono {left right : Nat} (hle : left ≤ right) :
    digitCount left ≤ digitCount right := by
  rcases Nat.eq_zero_or_pos left with rfl | hpositive
  · exact digitCount_le (digitCount_pos right) (Nat.pow_pos (by norm_num))
  · rw [digitCount_eq_log hpositive, digitCount_eq_log (hpositive.trans_le hle)]
    exact Nat.succ_le_succ (Nat.log_mono_right hle)

/-- No machine word has more than twenty digits. -/
theorem digitCount_le_of_word {number : Nat} (hword : number < word) : digitCount number ≤ 20 :=
  digitCount_le (by decide) (hword.trans (by decide))

theorem digitCount_eq_of_block {number exponent : Nat} (hleast : 10 ^ exponent ≤ number)
    (hgreatest : number < 10 ^ (exponent + 1)) : digitCount number = exponent + 1 := by
  have hpositive : 0 < number := (Nat.pow_pos (by norm_num)).trans_le hleast
  exact Nat.le_antisymm (digitCount_le (Nat.succ_pos exponent) hgreatest)
    ((pow_le_iff_lt_digitCount hpositive).mp hleast)

/-- The digit at a place, counted from the most significant one, by division. -/
theorem getElem?_digits {number place : Nat} (hplace : place < digitCount number) :
    (digits number)[place]? = some (number / 10 ^ (digitCount number - 1 - place) % 10) := by
  rcases Nat.eq_zero_or_pos number with rfl | hpositive
  · have hzero : digitCount 0 ≤ 1 := digitCount_le Nat.one_pos (by norm_num)
    obtain rfl : place = 0 := by omega
    rw [digits_zero, Nat.zero_div, Nat.zero_mod]
    rfl
  · have hlength : (Nat.digits 10 number).length = digitCount number := by
      rw [← length_digits, digits_eq_reverse hpositive, List.length_reverse]
    have hinside : digitCount number - 1 - place < (Nat.digits 10 number).length := by omega
    rw [digits_eq_reverse hpositive, List.getElem?_reverse (hlength ▸ hplace), hlength,
      ← Nat.getD_digits number _ (by norm_num), List.getElem?_eq_getElem hinside,
      List.getD_eq_getElem?_getD, List.getElem?_eq_getElem hinside, Option.getD_some]

/-! ## Cutting a list of digits -/

theorem positionalValue_append (front back : List Nat) :
    positionalValue (front ++ back) =
      positionalValue front * 10 ^ back.length + positionalValue back := by
  rw [← foldl_horner_zero, List.foldl_append, foldl_horner_zero, foldl_horner_eq]

theorem positionalValue_lt {entries : List Nat} (hdigits : ∀ entry ∈ entries, entry ≤ 9) :
    positionalValue entries < 10 ^ entries.length := by
  rw [positionalValue_eq_ofDigits, ← List.length_reverse]
  refine Nat.ofDigits_lt_base_pow_length (by norm_num) ?_
  intro entry hentry
  have := hdigits entry (List.mem_reverse.mp hentry)
  omega

/-- Nineteen digits always make a machine word. -/
theorem positionalValue_lt_word {entries : List Nat} (hdigits : ∀ entry ∈ entries, entry ≤ 9)
    (hlength : entries.length ≤ 19) : positionalValue entries < word :=
  (positionalValue_lt hdigits).trans
    ((Nat.pow_le_pow_right (by norm_num) hlength).trans_lt (by decide))

/-- The digits up to a place are the quotient by the power of ten for that place, and the
digits behind it, inner zeros among them, are the remainder. -/
theorem positionalValue_cut {entries : List Nat} (hdigits : ∀ entry ∈ entries, entry ≤ 9)
    (kept : Nat) :
    positionalValue (entries.take kept) =
        positionalValue entries / 10 ^ (entries.length - kept) ∧
      positionalValue (entries.drop kept) =
        positionalValue entries % 10 ^ (entries.length - kept) := by
  have hwhole := positionalValue_append (entries.take kept) (entries.drop kept)
  rw [List.take_append_drop, List.length_drop] at hwhole
  have hbehind : positionalValue (entries.drop kept) < 10 ^ (entries.length - kept) := by
    rw [← List.length_drop]
    exact positionalValue_lt fun entry hentry => hdigits entry (List.mem_of_mem_drop hentry)
  have hsum : positionalValue (entries.drop kept) +
      10 ^ (entries.length - kept) * positionalValue (entries.take kept) =
        positionalValue entries := by
    rw [hwhole, Nat.mul_comm, Nat.add_comm]
  obtain ⟨hquotient, hremainder⟩ :=
    (Nat.div_mod_unique (Nat.pow_pos (by norm_num))).mpr ⟨hsum, hbehind⟩
  exact ⟨hquotient.symm, hremainder.symm⟩

/-! ## The order of values -/

/-- Of two lists of digits with one length, the one that comes first as a word is smaller. -/
theorem positionalValue_lt_of_lt {left right : List Nat} (hlength : left.length = right.length)
    (hleft : ∀ entry ∈ left, entry ≤ 9) (hlt : left < right) :
    positionalValue left < positionalValue right := by
  induction left generalizing right with
  | nil =>
      rw [List.length_eq_zero_iff.mp hlength.symm] at hlt
      exact absurd hlt (List.not_lt_nil _)
  | cons entry rest ih =>
      obtain ⟨other, others, rfl⟩ := List.exists_cons_of_length_eq_add_one hlength.symm
      obtain ⟨-, hrest⟩ := List.forall_mem_cons.mp hleft
      have hlengths : rest.length = others.length := Nat.succ.inj hlength
      rw [positionalValue, positionalValue, ← hlengths]
      rcases List.cons_lt_cons_iff.mp hlt with hentry | ⟨rfl, hothers⟩
      · -- A smaller first digit outweighs whatever follows it.
        have hbelow := positionalValue_lt hrest
        calc entry * 10 ^ rest.length + positionalValue rest
            < (entry + 1) * 10 ^ rest.length := by
              rw [Nat.succ_mul]
              exact Nat.add_lt_add_left hbelow _
          _ ≤ other * 10 ^ rest.length := Nat.mul_le_mul_right _ hentry
          _ ≤ other * 10 ^ rest.length + positionalValue others := Nat.le_add_right _ _
      · exact Nat.add_lt_add_left (ih hlengths hrest hothers) _

theorem positionalValue_le_iff {left right : List Nat} (hlength : left.length = right.length)
    (hleft : ∀ entry ∈ left, entry ≤ 9) (hright : ∀ entry ∈ right, entry ≤ 9) :
    positionalValue left ≤ positionalValue right ↔ left ≤ right := by
  constructor
  · intro hle
    exact not_lt.mp fun hlt => hle.not_gt (positionalValue_lt_of_lt hlength.symm hright hlt)
  · intro hle
    rcases hle.lt_or_eq with hlt | rfl
    · exact (positionalValue_lt_of_lt hlength hleft hlt).le
    · exact le_rfl

/-! ## Leading zeros -/

/-- The entries behind the leading zeros, or a single zero if nothing is left. -/
def withoutLeadingZeros (entries : List Nat) : List Nat :=
  match entries.dropWhile (· = 0) with
  | [] => [0]
  | first :: rest => first :: rest

@[simp]
theorem positionalValue_withoutLeadingZeros (entries : List Nat) :
    positionalValue (withoutLeadingZeros entries) = positionalValue entries := by
  induction entries with
  | nil => rfl
  | cons entry rest ih =>
      by_cases hzero : entry = 0
      · subst hzero
        rw [show withoutLeadingZeros (0 :: rest) = withoutLeadingZeros rest by
          simp [withoutLeadingZeros], ih, positionalValue]
        simp
      · simp [withoutLeadingZeros, hzero]

theorem withoutLeadingZeros_isDecimalForm {entries : List Nat}
    (hdigits : ∀ entry ∈ entries, entry ≤ 9) : IsDecimalForm (withoutLeadingZeros entries) := by
  rw [withoutLeadingZeros]
  split
  · exact ⟨by simp, by simp, by simp⟩
  · next first rest hdrop =>
      have hfirst : first ≠ 0 := by
        have hstop := List.head?_dropWhile_not (fun entry => decide (entry = 0)) entries
        simpa [hdrop] using hstop
      refine ⟨by simp, ?_, ?_⟩
      · intro entry hentry
        exact hdigits entry ((List.dropWhile_suffix _).subset (hdrop ▸ hentry))
      · intro hhead
        exact absurd (Option.some.inj hhead) hfirst

/-! ## Both ways round -/

/-- The digits of a machine word are its decimal form, as many as are counted, and are read
back as the word.  A list of entries of any size is read as its positional value if that is
a machine word, and is a fault otherwise; and a list of digits is, behind its leading zeros,
the decimal form of what it is read as. -/
theorem decimal_round_trips :
    (∀ number < word,
      ofDigits (digits number) = .ok number ∧
        (digits number).length = digitCount number ∧ digitCount number ≤ 20 ∧
        IsDecimalForm (digits number)) ∧
    (∀ entries : List Nat,
      ((∃ fault, ofDigits entries = .error fault) ↔ word ≤ positionalValue entries) ∧
        (positionalValue entries < word → ofDigits entries = .ok (positionalValue entries))) ∧
    ∀ entries : List Nat, (∀ entry ∈ entries, entry ≤ 9) → positionalValue entries < word →
      ∃ number, ofDigits entries = .ok number ∧ digits number = withoutLeadingZeros entries := by
  refine ⟨?_, ?_, ?_⟩
  · intro number hword
    have hread : ofDigits (digits number) = .ok number := by
      have hfits : positionalValue (digits number) < word := by
        rwa [positionalValue_digits]
      rw [ofDigits_eq hfits, positionalValue_digits]
    exact ⟨hread, length_digits number, digitCount_le_of_word hword,
      digits_isDecimalForm number⟩
  · intro entries
    exact ⟨ofDigits_fails_iff entries, ofDigits_eq⟩
  · intro entries hdigits hfits
    refine ⟨positionalValue entries, ofDigits_eq hfits, ?_⟩
    rw [← positionalValue_withoutLeadingZeros]
    exact digits_positionalValue (withoutLeadingZeros_isDecimalForm hdigits)

/-- The greatest word has twenty digits and is read back, an entry above nine counts with its
full size, and leading zeros are dropped. -/
theorem decimal_round_trips_at_limits :
    (word - 1 < word ∧ ofDigits (digits (word - 1)) = .ok (word - 1)) ∧
      (positionalValue [1, 255] < word ∧ ofDigits [1, 255] = .ok (positionalValue [1, 255])) ∧
      (∀ entry ∈ [0, 4, 2], entry ≤ 9) ∧ positionalValue [0, 4, 2] < word ∧
      ∃ number, ofDigits [0, 4, 2] = .ok number ∧
        digits number = withoutLeadingZeros [0, 4, 2] :=
  ⟨⟨by decide, (decimal_round_trips.1 (word - 1) (by decide)).1⟩,
    ⟨by decide, (decimal_round_trips.2.1 [1, 255]).2 (by decide)⟩, by decide, by decide,
    decimal_round_trips.2.2 [0, 4, 2] (by decide) (by decide)⟩

end NumberPuzzles
