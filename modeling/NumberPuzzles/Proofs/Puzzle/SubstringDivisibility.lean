import NumberPuzzles.Proofs.Arrangement.Search
import NumberPuzzles.Proofs.Prime.Trial
import NumberPuzzles.Proofs.Text.Pandigital
import NumberPuzzles.Puzzle.SubstringDivisibility

/-!
# Numbers with divisible sub-strings

The arrangements of the ten digits that do not begin with a zero are the decimal forms of the
pandigital numbers.  The walk through them is ascending and the forms have one length, so the
numbers that are kept are ascending too, and none that has the property is left out.
-/

namespace NumberPuzzles.SubstringDivisibility

open scoped List

variable {entries : List Nat}

/-! ## The property -/

/-- Three neighbouring digits as a number. -/
theorem positionalValue_three {position : Nat} (hlast : position + 2 < entries.length) :
    positionalValue ((entries.drop position).take 3) =
      100 * entries[position] + 10 * entries[position + 1] + entries[position + 2] := by
  rw [List.drop_eq_getElem_cons (Nat.lt_of_le_of_lt (Nat.le_add_right position 2) hlast),
    List.drop_eq_getElem_cons (Nat.lt_of_succ_lt hlast), List.drop_eq_getElem_cons hlast]
  simp only [List.take_succ_cons, List.take_zero, positionalValue, List.length_cons,
    List.length_nil]
  omega

/-- The divisors are the first seven primes. -/
theorem divisors_eq : divisors = (List.range 7).map (Nat.nth Nat.Prime) := by
  have hprimes := primesUnder_eq_map_nth 18
  have hcount : Nat.count Nat.Prime 18 = 7 := by decide
  rw [hcount] at hprimes
  rw [← hprimes]
  decide

def AllDivide (divisors entries : List Nat) : Prop :=
  ∀ position divisor, divisors[position]? = some divisor →
    divisor ∣ positionalValue ((entries.drop position).take 3)

@[simp]
theorem allDivide_cons {divisor : Nat} {divisors : List Nat} :
    AllDivide (divisor :: divisors) entries ↔
      divisor ∣ positionalValue (entries.take 3) ∧ AllDivide divisors (entries.drop 1) := by
  constructor
  · intro hall
    refine ⟨hall 0 divisor rfl, ?_⟩
    intro position other hother
    rw [List.drop_drop, Nat.add_comm]
    exact hall (position + 1) other hother
  · rintro ⟨hfirst, hrest⟩ position other hother
    cases position with
    | zero =>
        cases hother
        exact hfirst
    | succ position =>
        have hlater := hrest position other hother
        rwa [List.drop_drop, Nat.add_comm] at hlater

/-- The test goes along the divisors and the digits together. -/
theorem allDivisible_run {divisors : List Nat} (hpositive : 0 ∉ divisors)
    (hdigits : ∀ entry ∈ entries, entry ≤ 9) :
    ∃ answer, allDivisible divisors entries = .ok answer ∧
      (answer = true ↔ AllDivide divisors entries) := by
  induction divisors generalizing entries with
  | nil => exact ⟨true, rfl, iff_of_true rfl nofun⟩
  | cons divisor divisors ih =>
      obtain ⟨hdivisor, hrest⟩ := not_or.mp (mt List.mem_cons.mpr hpositive)
      have hthree : positionalValue (entries.take 3) < word := by
        apply positionalValue_lt_word
        · exact fun entry hentry => hdigits entry (List.mem_of_mem_take hentry)
        · exact (List.length_take_le 3 entries).trans (by decide)
      have hrem : Checked.rem (positionalValue (entries.take 3)) divisor =
          .ok (positionalValue (entries.take 3) % divisor) := if_neg (Ne.symm hdivisor)
      rw [allDivisible, Checked.bind_of_ok (ofDigits_eq hthree), Checked.bind_of_ok hrem, allDivide_cons]
      by_cases hfirst : divisor ∣ positionalValue (entries.take 3)
      · rw [if_pos (Nat.mod_eq_zero_of_dvd hfirst), and_iff_right hfirst]
        exact ih hrest fun entry hentry => hdigits entry (List.mem_of_mem_drop hentry)
      · rw [if_neg (mt Nat.dvd_of_mod_eq_zero hfirst)]
        exact ⟨false, rfl, iff_of_false Bool.false_ne_true fun hall => hfirst hall.1⟩

/-- The three digits from each one on, beginning with the second, are divisible by the next
prime. -/
def HasDivisibleSubstrings (entries : List Nat) : Prop :=
  ∀ position, ∀ _ : position + 3 < entries.length,
    Nat.nth Nat.Prime position ∣
      100 * entries[position + 1] + 10 * entries[position + 2] + entries[position + 3]

theorem allDivide_divisors_iff (hlength : entries.length = 10) :
    AllDivide divisors (entries.drop 1) ↔ HasDivisibleSubstrings entries := by
  have hdivisor : ∀ position < 7, divisors[position]? = some (Nat.nth Nat.Prime position) := by
    intro position hposition
    rw [divisors_eq, List.getElem?_map, List.getElem?_range hposition]
    rfl
  have hvalue : ∀ position, ∀ _ : position + 3 < entries.length,
      positionalValue (((entries.drop 1).drop position).take 3) =
        100 * entries[position + 1] + 10 * entries[position + 2] + entries[position + 3] := by
    intro position hlast
    rw [List.drop_drop, Nat.add_comm]
    exact positionalValue_three hlast
  constructor
  · intro hall position hlast
    rw [← hvalue position hlast]
    exact hall position _ (hdivisor position (by omega))
  · intro hall position divisor hother
    have hposition : position < 7 := (List.getElem?_eq_some_iff.mp hother).1
    have hlast : position + 3 < entries.length := by omega
    rw [hdivisor position hposition] at hother
    cases hother
    rw [hvalue position hlast]
    exact hall position hlast

theorem hasProperty_run (hlength : entries.length = 10) (hdigits : ∀ entry ∈ entries, entry ≤ 9) :
    ∃ answer, hasProperty entries = .ok answer ∧
      (answer = true ↔ HasDivisibleSubstrings entries) := by
  rw [hasProperty, if_pos hlength, ← allDivide_divisors_iff hlength]
  apply allDivisible_run (by decide)
  exact fun entry hentry => hdigits entry (List.mem_of_mem_drop hentry)

/-! ## The walk through the arrangements of the ten digits -/

/-- The number that an arrangement is the decimal form of, if it has the property. -/
def divisibleValue? (entries : List Nat) : Option Nat :=
  if entries.head? ≠ some 0 ∧ hasProperty entries = .ok true then some (positionalValue entries)
  else none

theorem divisibleValue?_eq_some {number : Nat} :
    divisibleValue? entries = some number ↔
      (entries.head? ≠ some 0 ∧ hasProperty entries = .ok true) ∧
        positionalValue entries = number := by
  rw [divisibleValue?, Option.ite_none_right_eq_some, Option.some.injEq]

theorem forall_le_nine_of_perm (hperm : entries ~ tenDigits) : ∀ entry ∈ entries, entry ≤ 9 := by
  intro entry hentry
  exact Nat.le_of_lt_succ (List.mem_range.mp (hperm.mem_iff.mp hentry))

theorem length_of_perm (hperm : entries ~ tenDigits) : entries.length = 10 := by
  rw [hperm.length_eq, tenDigits, List.length_range]

theorem isDecimalForm_of_perm (hperm : entries ~ tenDigits) (hhead : entries.head? ≠ some 0) :
    IsDecimalForm entries where
  nonempty := List.ne_nil_of_length_pos (by rw [length_of_perm hperm]; decide)
  digit := forall_le_nine_of_perm hperm
  leading := fun hzero => absurd hzero hhead

/-- The decimal forms that use each of the ten digits once are the arrangements of them. -/
theorem isPandigitalText_iff {number : Nat} :
    isPandigitalText (Text.decimalString number) 0 9 = .ok true ↔ digits number ~ tenDigits := by
  rw [Text.isPandigitalText_decimalString_iff, tenDigits, List.range_eq_range']
  exact ⟨fun haccepted => haccepted.2.2, fun hperm => ⟨by decide, by decide, hperm⟩⟩

/-- The walk keeps the numbers of the arrangements that have the property, in their order. -/
theorem divisiblePandigitals_eq {listing : List (List Nat)}
    (hlists : Walk.Lists .ascending tenDigits listing) :
    divisiblePandigitals tenDigits = .ok (listing.filterMap divisibleValue?) := by
  apply Walk.collectM_pure divisibleValue? hlists
  intro entries hperm
  have hdigits := forall_le_nine_of_perm hperm
  have hlength := length_of_perm hperm
  have hvalue : positionalValue entries < word :=
    positionalValue_lt_word hdigits (by omega)
  obtain ⟨answer, hrun, -⟩ := hasProperty_run hlength hdigits
  rw [Checked.bind_of_ok hrun, divisibleValue?, hrun]
  by_cases hhead : entries.head? = some 0
  · rw [if_pos hhead, if_neg fun hkept => hkept.1 hhead]
  · rw [if_neg hhead]
    cases answer with
    | true => rw [if_pos rfl, Checked.bind_of_ok (ofDigits_eq hvalue), if_pos ⟨hhead, rfl⟩]
    | false => rw [if_neg Bool.false_ne_true, if_neg (by simp)]

/-- The arrangements come in ascending order and have one length, so their values ascend. -/
theorem divisibleValues_pairwise {listing : List (List Nat)}
    (hlists : Walk.Lists .ascending tenDigits listing) :
    (listing.filterMap divisibleValue?).Pairwise (· < ·) := by
  have hvalues : listing.Pairwise fun left right =>
      positionalValue left < positionalValue right := by
    apply hlists.ordered.imp_of_mem
    intro left right hleft hright hprecedes
    have hleft := (hlists.complete left).mp hleft
    have hright := (hlists.complete right).mp hright
    exact positionalValue_lt_of_lt (hleft.length_eq.trans hright.length_eq.symm)
      (forall_le_nine_of_perm hleft) hprecedes
  apply hvalues.filterMap
  intro left right hlt value hvalue other hother
  rw [← (divisibleValue?_eq_some.mp hvalue).2, ← (divisibleValue?_eq_some.mp hother).2]
  exact hlt

theorem mem_divisibleValues_iff {listing : List (List Nat)}
    (hlists : Walk.Lists .ascending tenDigits listing) {number : Nat} :
    number ∈ listing.filterMap divisibleValue? ↔
      digits number ~ tenDigits ∧ hasProperty (digits number) = .ok true := by
  rw [List.mem_filterMap]
  constructor
  · rintro ⟨entries, hentries, hvalue⟩
    obtain ⟨⟨hhead, hproperty⟩, rfl⟩ := divisibleValue?_eq_some.mp hvalue
    have hperm := (hlists.complete entries).mp hentries
    rw [digits_positionalValue (isDecimalForm_of_perm hperm hhead)]
    exact ⟨hperm, hproperty⟩
  · rintro ⟨hperm, hproperty⟩
    refine ⟨digits number, (hlists.complete _).mpr hperm, divisibleValue?_eq_some.mpr ?_⟩
    refine ⟨⟨?_, hproperty⟩, positionalValue_digits number⟩
    intro hhead
    -- Only zero begins with a zero, and it does not have ten digits.
    have hzero := (digits_isDecimalForm number).leading hhead
    have hlength := length_of_perm hperm
    rw [hzero] at hlength
    exact absurd hlength (by decide)

/-- The walk ends with ascending numbers.  They are those whose decimal forms use each of the ten
digits once and have the property; and ten digits have it when their sub-strings are divisible
by the primes. -/
theorem finds_divisible_pandigitals :
    ∃ found, divisiblePandigitals tenDigits = .ok found ∧ found.Pairwise (· < ·) ∧
      (∀ number, number ∈ found ↔
        isPandigitalText (Text.decimalString number) 0 9 = .ok true ∧
          hasProperty (digits number) = .ok true) ∧
      ∀ entries : List Nat, entries.length = 10 → (∀ entry ∈ entries, entry ≤ 9) →
        ∃ answer, hasProperty entries = .ok answer ∧
          (answer = true ↔ HasDivisibleSubstrings entries) := by
  obtain ⟨listing, hlists⟩ := Walk.exists_lists .ascending tenDigits
  refine ⟨_, divisiblePandigitals_eq hlists, divisibleValues_pairwise hlists, ?_, ?_⟩
  · intro number
    rw [mem_divisibleValues_iff hlists, isPandigitalText_iff]
  · intro entries hlength hdigits
    exact hasProperty_run hlength hdigits

/-- The number 1406357289 is among them, and so 728 is divisible by the sixth prime. -/
theorem finds_divisible_pandigitals_among_them_1406357289 :
    (∃ found, divisiblePandigitals tenDigits = .ok found ∧ 1406357289 ∈ found) ∧
      [1, 4, 0, 6, 3, 5, 7, 2, 8, 9].length = 10 ∧
      (∀ entry ∈ [1, 4, 0, 6, 3, 5, 7, 2, 8, 9], entry ≤ 9) ∧
      Nat.nth Nat.Prime 5 ∣ 728 := by
  have hdigits : digits 1406357289 = [1, 4, 0, 6, 3, 5, 7, 2, 8, 9] := by decide +kernel
  have hproperty : hasProperty [1, 4, 0, 6, 3, 5, 7, 2, 8, 9] = .ok true := by decide +kernel
  have hperm : [1, 4, 0, 6, 3, 5, 7, 2, 8, 9] ~ tenDigits := by decide
  have hlength : [1, 4, 0, 6, 3, 5, 7, 2, 8, 9].length = 10 := rfl
  have hnine : ∀ entry ∈ [1, 4, 0, 6, 3, 5, 7, 2, 8, 9], entry ≤ 9 := by decide
  obtain ⟨found, hrun, -, hmember, hmeaning⟩ := finds_divisible_pandigitals
  obtain ⟨answer, hanswer, hdivisible⟩ := hmeaning _ hlength hnine
  rw [hproperty] at hanswer
  cases hanswer
  refine ⟨⟨found, hrun, (hmember _).mpr ⟨isPandigitalText_iff.mpr ?_, ?_⟩⟩, hlength, hnine,
    hdivisible.mp rfl 5 (by decide)⟩
  · rw [hdigits]
    exact hperm
  · rw [hdigits]
    exact hproperty

end NumberPuzzles.SubstringDivisibility
