import Mathlib.Data.Finset.Sort
import Mathlib.NumberTheory.FactorisationProperties
import NumberPuzzles.Divisor
import NumberPuzzles.Proofs.Checked
import NumberPuzzles.Proofs.Progression
import NumberPuzzles.Proofs.SquareRoot

/-!
# Trial division up to the root finds every divisor

A divisor past the root is the quotient by one below it.  The quotients descend while the
small divisors ascend, and the root itself is taken once, so both together are the divisors in
ascending order.  The proper ones are each less than the number and there are fewer of them
than that, so their sum is a machine word for every half word; for larger words it may be none,
and then the partial sums pass the words at some divisor.
-/

namespace NumberPuzzles

variable {number divisor : Nat}

/-! ## The divisors on the two sides of the root -/

def smallDivisors (number : Nat) : List Nat :=
  (Progression.inclusive 1 (Nat.sqrt number)).toList.filter fun divisor => number % divisor = 0

/-- The quotients by the divisors up to the root, the root itself left out; they descend. -/
def largeDivisors (number : Nat) : List Nat :=
  ((smallDivisors number).filter fun divisor => divisor * divisor ≠ number).map (number / ·)

@[simp]
theorem mem_smallDivisors :
    divisor ∈ smallDivisors number ↔
      0 < divisor ∧ divisor * divisor ≤ number ∧ divisor ∣ number := by
  rw [smallDivisors, List.mem_filter, Progression.mem_toList_inclusive, decide_eq_true_eq,
    Nat.le_sqrt, Nat.dvd_iff_mod_eq_zero, and_assoc, Nat.succ_le_iff]

@[simp]
theorem mem_largeDivisors (hpositive : 0 < number) :
    divisor ∈ largeDivisors number ↔ number < divisor * divisor ∧ divisor ∣ number := by
  simp only [largeDivisors, List.mem_map, List.mem_filter, mem_smallDivisors, decide_eq_true_eq]
  constructor
  · rintro ⟨small, ⟨⟨hsmall, hle, hdvd⟩, hother⟩, rfl⟩
    obtain ⟨large, rfl⟩ := hdvd
    rw [Nat.mul_div_cancel_left large hsmall]
    have hless : small < large := by
      refine Nat.lt_of_le_of_ne (Nat.le_of_mul_le_mul_left hle hsmall) ?_
      rintro rfl
      exact hother rfl
    exact ⟨Nat.mul_lt_mul_of_pos_right hless (by omega), Nat.dvd_mul_left large small⟩
  · rintro ⟨hpast, small, rfl⟩
    have hless : small < divisor := Nat.lt_of_mul_lt_mul_left hpast
    have hsmall : 0 < small := Nat.pos_of_mul_pos_left hpositive
    refine ⟨small, ⟨⟨hsmall, ?_, Nat.dvd_mul_left small divisor⟩, ?_⟩,
      Nat.mul_div_cancel divisor hsmall⟩
    · exact Nat.mul_le_mul_right small hless.le
    · exact (Nat.mul_lt_mul_of_pos_right hless hsmall).ne

theorem smallDivisors_pairwise (number : Nat) : (smallDivisors number).Pairwise (· < ·) :=
  (Progression.pairwise_toList Nat.one_pos).filter _

theorem largeDivisors_pairwise (hpositive : 0 < number) :
    (largeDivisors number).Pairwise (· > ·) := by
  rw [largeDivisors, List.pairwise_map]
  refine ((smallDivisors_pairwise number).filter _).imp_of_mem ?_
  intro first second hfirst hsecond hless
  have hfirstDvd := (mem_smallDivisors.mp (List.mem_of_mem_filter hfirst)).2.2
  have hsecondDvd := (mem_smallDivisors.mp (List.mem_of_mem_filter hsecond)).2.2
  exact (Nat.div_lt_div_left hpositive.ne' hsecondDvd hfirstDvd).mpr hless

theorem mem_sort_divisors : divisor ∈ number.divisors.sort ↔ 0 < number ∧ divisor ∣ number := by
  rw [Finset.mem_sort, Nat.mem_divisors, and_comm, Nat.pos_iff_ne_zero]

/-- Small divisors and then large ones: all divisors, ascending. -/
theorem divisors_sort (hpositive : 0 < number) :
    number.divisors.sort = smallDivisors number ++ (largeDivisors number).reverse := by
  have hascending :
      (smallDivisors number ++ (largeDivisors number).reverse).Pairwise (· < ·) := by
    refine List.pairwise_append.mpr ⟨smallDivisors_pairwise number,
      List.pairwise_reverse.mpr (largeDivisors_pairwise hpositive), ?_⟩
    intro small hsmall large hlarge
    have hle := (mem_smallDivisors.mp hsmall).2.1
    have hpast := ((mem_largeDivisors hpositive).mp (List.mem_reverse.mp hlarge)).1
    exact Nat.mul_self_lt_mul_self_iff.mp (Nat.lt_of_le_of_lt hle hpast)
  refine List.Pairwise.eq_of_mem_iff number.divisors.sortedLT_sort.pairwise hascending ?_
  intro divisor
  rw [List.mem_append, List.mem_reverse, mem_smallDivisors, mem_largeDivisors hpositive,
    mem_sort_divisors]
  constructor
  · rintro ⟨-, hdvd⟩
    rcases Nat.lt_or_ge number (divisor * divisor) with hpast | hle
    · exact .inr ⟨hpast, hdvd⟩
    · exact .inl ⟨Nat.pos_of_dvd_of_pos hdvd hpositive, hle, hdvd⟩
  · rintro (⟨-, -, hdvd⟩ | ⟨-, hdvd⟩)
    · exact ⟨hpositive, hdvd⟩
    · exact ⟨hpositive, hdvd⟩

/-! ## What the searches answer -/

theorem factors_eq (hword : number < word) : factors number = .ok number.divisors.sort := by
  rcases Nat.eq_zero_or_pos number with rfl | hpositive
  · rw [Nat.divisors_zero, Finset.sort_empty]
    rfl
  · rw [divisors_sort hpositive]
    simp only [factors, if_neg hpositive.ne', isqrt_eq_sqrt hword, Progression.filter_eq]
    rfl

/-- A divisor is paired with the exact quotient by it. -/
theorem mem_sort_divisors_iff_partner : divisor ∈ number.divisors.sort ↔
    ∃ partner ∈ number.divisors.sort, divisor * partner = number := by
  constructor
  · intro hdivisor
    obtain ⟨hpositive, partner, rfl⟩ := mem_sort_divisors.mp hdivisor
    exact ⟨partner, mem_sort_divisors.mpr ⟨hpositive, Nat.dvd_mul_left partner divisor⟩, rfl⟩
  · rintro ⟨partner, hpartner, rfl⟩
    have hpositive := (mem_sort_divisors.mp hpartner).1
    exact mem_sort_divisors.mpr ⟨hpositive, Nat.dvd_mul_right divisor partner⟩

theorem mem_sort_properDivisors : divisor ∈ number.properDivisors.sort ↔
    divisor ∈ number.divisors.sort ∧ divisor ≠ number := by
  rw [Finset.mem_sort, Nat.mem_properDivisors, mem_sort_divisors]
  constructor
  · rintro ⟨hdvd, hless⟩
    exact ⟨⟨by omega, hdvd⟩, hless.ne⟩
  · rintro ⟨⟨hpositive, hdvd⟩, hother⟩
    exact ⟨hdvd, (Nat.le_of_dvd hpositive hdvd).lt_of_ne hother⟩

theorem properDivisors_eq (hword : number < word) :
    properDivisors number = .ok number.properDivisors.sort := by
  have hproper : number.divisors.sort.filter (· ≠ number) = number.properDivisors.sort := by
    refine List.Pairwise.eq_of_mem_iff (number.divisors.sortedLT_sort.pairwise.filter _)
      number.properDivisors.sortedLT_sort.pairwise fun divisor => ?_
    rw [List.mem_filter, decide_eq_true_eq, mem_sort_properDivisors]
  rw [properDivisors, factors_eq hword, ← hproper]
  rfl

/-! ## Sums of divisors -/

/-- Different positive numbers up to a half word add up to a machine word. -/
theorem sum_lt_word {numbers : Finset Nat} {limit : Nat} (hhalf : limit < halfWord)
    (hinside : numbers ⊆ Finset.Icc 1 limit) : ∑ member ∈ numbers, member < word := by
  have hcard : numbers.card ≤ limit := by
    simpa using Finset.card_le_card hinside
  calc ∑ member ∈ numbers, member ≤ numbers.card • limit :=
        Finset.sum_le_card_nsmul _ _ _ fun _ hmember => (Finset.mem_Icc.mp (hinside hmember)).2
    _ ≤ limit * limit := Nat.mul_le_mul_right limit hcard
    _ < halfWord * halfWord := Nat.mul_self_lt_mul_self hhalf
    _ = word := by decide

@[simp]
theorem sum_sort (divisors : Finset Nat) : divisors.sort.sum = ∑ divisor ∈ divisors, divisor := by
  rw [← Multiset.sum_coe, Finset.sort_eq, Finset.sum_val]
  rfl

theorem sumOfDivisors_eq (hword : number < word)
    (hsum : ∑ divisor ∈ number.properDivisors, divisor < word) :
    sumOfDivisors number = .ok (∑ divisor ∈ number.properDivisors, divisor) := by
  rw [sumOfDivisors, properDivisors_eq hword]
  rw [← sum_sort] at hsum ⊢
  exact Checked.sum_eq hsum

theorem sumOfDivisors_past (hword : number < word)
    (hpast : word ≤ ∑ divisor ∈ number.properDivisors, divisor) :
    sumOfDivisors number = .error .add := by
  rw [sumOfDivisors, properDivisors_eq hword]
  rw [← sum_sort] at hpast
  exact Checked.sum_past (by decide) hpast

/-- The divisors of every word are found without a fault, each once, ascending and together with
the exact quotient by it; the proper ones are those other than the number itself.  Their sum is
returned if it is a word, and otherwise an addition overflows. -/
theorem divisors_found_and_summed (hword : number < word) :
    ∃ divisors proper, factors number = .ok divisors ∧ properDivisors number = .ok proper ∧
      divisors.Pairwise (· < ·) ∧
      (∀ divisor, divisor ∈ divisors ↔ 0 < number ∧ divisor ∣ number) ∧
      (∀ divisor, divisor ∈ divisors ↔ ∃ partner ∈ divisors, divisor * partner = number) ∧
      proper.Pairwise (· < ·) ∧
      (∀ divisor, divisor ∈ proper ↔ divisor ∈ divisors ∧ divisor ≠ number) ∧
      sumOfDivisors number = if proper.sum < word then .ok proper.sum else .error .add := by
  refine ⟨number.divisors.sort, number.properDivisors.sort, factors_eq hword,
    properDivisors_eq hword, number.divisors.sortedLT_sort.pairwise,
    fun divisor => mem_sort_divisors, fun divisor => mem_sort_divisors_iff_partner,
    number.properDivisors.sortedLT_sort.pairwise, fun divisor => mem_sort_properDivisors, ?_⟩
  rw [sum_sort]
  split
  next hsum => exact sumOfDivisors_eq hword hsum
  next hpast => exact sumOfDivisors_past hword (Nat.not_lt.mp hpast)

/-- A half, a third and a quarter of the greatest word but three already add up to more than
every word. -/
theorem divisors_found_and_summed_past_words :
    word - 4 < word ∧ sumOfDivisors (word - 4) = .error .add := by
  have hword : word - 4 < word := by decide
  obtain ⟨divisors, proper, -, -, -, hdivisor, -, hascending, hproper, hsum⟩ :=
    divisors_found_and_summed hword
  have hparts : [(word - 4) / 4, (word - 4) / 3, (word - 4) / 2] ⊆ proper := by
    simp only [List.cons_subset, List.nil_subset, hproper, hdivisor]
    decide
  obtain ⟨parts, hperm, hsublist⟩ := List.subperm_of_subset (by decide) hparts
  have hpast : word ≤ proper.sum := by
    calc word ≤ [(word - 4) / 4, (word - 4) / 3, (word - 4) / 2].sum := by decide
      _ = parts.sum := hperm.sum_eq.symm
      _ ≤ proper.sum := hsublist.sum_le_sum (fun _ _ => Nat.zero_le _)
  exact ⟨hword, by rw [hsum, if_neg (Nat.not_lt.mpr hpast)]⟩

/-- The test for abundance answers for every half word. -/
theorem isAbundant_eq (hhalf : number < halfWord) :
    isAbundant number = .ok (decide number.Abundant) := by
  have hword : number < word := hhalf.trans (by decide)
  have hinside : number.properDivisors ⊆ Finset.Icc 1 number := by
    intro divisor hdivisor
    have hless := (Nat.mem_properDivisors.mp hdivisor).2
    exact Finset.mem_Icc.mpr ⟨Nat.pos_of_mem_properDivisors hdivisor, hless.le⟩
  rw [isAbundant, sumOfDivisors_eq hword (sum_lt_word hhalf hinside)]
  rfl

end NumberPuzzles
