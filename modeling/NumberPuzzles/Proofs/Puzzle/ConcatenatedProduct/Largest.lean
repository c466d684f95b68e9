import Mathlib.Data.String.Basic
import NumberPuzzles.Proofs.Arrangement.Search
import NumberPuzzles.Proofs.Puzzle.ConcatenatedProduct.Search
import NumberPuzzles.Proofs.Text.Pandigital

/-!
# The largest pandigital multiple

Only texts that begin with a nine are searched, the greatest first.  One of them is a
concatenated product, so the search ends with one; those after it are smaller, and so is every
pandigital text that begins with another digit.  All of them have nine digits, so the order of
the texts is the order of the numbers.
-/

namespace NumberPuzzles.ConcatenatedProduct

open scoped List

variable {text : List Char}

def candidate? (lead : Char) (rest : List Char) : Option String :=
  if isConcatenatedProduct (lead :: rest) = .ok true then some (String.ofList (lead :: rest))
  else none

/-- The search for the largest text behind a leading digit ends, with the first answer from the
greatest arrangement down. -/
theorem largestMultiple_run {lead : Char} {others : List Char}
    (hdigits : ∀ letter ∈ lead :: others, letter.isDigit = true) (hlength : others.length ≤ 18) :
    ∃ found, largestMultiple lead others = .ok found ∧
      Walk.IsFirstAnswer .descending others (candidate? lead) found := by
  apply Walk.findM?_pure
  intro rest hrest
  have hperm : lead :: rest ~ lead :: others := hrest.cons lead
  have hrestDigits : ∀ letter ∈ lead :: rest, letter.isDigit = true :=
    fun letter hletter => hdigits letter (hperm.mem_iff.mp hletter)
  have hrestLength : (lead :: rest).length ≤ 19 := by
    rw [hperm.length_eq]
    exact Nat.succ_le_succ hlength
  obtain ⟨answer, hrun, -⟩ := isConcatenatedProduct_run hrestDigits hrestLength
  rw [Checked.bind_of_ok hrun, candidate?, hrun]
  cases answer with
  | true => rfl
  | false => rfl

/-! ## Texts that use each digit once -/

/-- A pandigital text that begins with a nine is one of those that are searched; any other one
comes before all of them. -/
theorem lt_or_arranged_of_isPandigital (hpandigital : isPandigital text 1 9 = true) :
    (∀ rest, text < '9' :: rest) ∨ ∃ rest, text = '9' :: rest ∧ rest ~ otherDigits := by
  obtain ⟨-, -, hperm⟩ := Text.isPandigital_iff.mp hpandigital
  have hrange : Text.digitRange 1 9 ~ '9' :: otherDigits := by decide
  have hall : text ~ '9' :: otherDigits := hperm.trans hrange
  cases text with
  | nil => exact absurd hall.symm.eq_nil (List.cons_ne_nil _ _)
  | cons lead rest =>
      by_cases hnine : lead = '9'
      · subst hnine
        exact .inr ⟨rest, rfl, hall.cons_inv⟩
      · have hdigit := Text.isDigit_of_isPandigital hpandigital lead List.mem_cons_self
        have hlead : lead < '9' := lt_of_le_of_ne (Text.isDigit_iff.mp hdigit).2 hnine
        exact .inl fun _ => List.cons_lt_cons_iff.mpr (.inl hlead)

/-- Pandigital texts are read as numbers in the order of the texts. -/
theorem readWord_le_of_isPandigital {other : List Char} (htext : isPandigital text 1 9 = true)
    (hother : isPandigital other 1 9 = true) (hle : text ≤ other) :
    ∃ number larger, Text.readWord text = .ok number ∧ Text.readWord other = .ok larger ∧
      number ≤ larger := by
  have hread : ∀ {figures : List Char}, isPandigital figures 1 9 = true →
      Text.readWord figures = .ok (positionalValue (figures.map Text.figureValue)) := by
    intro figures hfigures
    have hlength : figures.length = 9 := Text.length_of_isPandigital hfigures
    apply Text.readWord_of_digits
    · exact List.ne_nil_of_length_pos (by omega)
    · exact Text.isDigit_of_isPandigital hfigures
    · omega
  have hlength : text.length = other.length :=
    (Text.length_of_isPandigital htext).trans (Text.length_of_isPandigital hother).symm
  exact ⟨_, _, hread htext, hread hother, Text.positionalValue_figures_le hlength
    (Text.isDigit_of_isPandigital htext) hle⟩

/-! ## The search -/

theorem productRow_nine :
    productRow 9 5 = ['9', '1', '8', '2', '7', '3', '6', '4', '5'] := by decide +kernel

/-- The products of nine, from one to five times, are a pandigital text that begins with a nine.
So the search ends with one, and none of those before it is a concatenated product. -/
theorem largestPandigitalMultiple_run :
    ∃ rest, largestPandigitalMultiple otherDigits = .ok (some (String.ofList ('9' :: rest))) ∧
      rest ~ otherDigits ∧ isConcatenatedProduct ('9' :: rest) = .ok true ∧
      ∀ other, other ~ otherDigits → isConcatenatedProduct ('9' :: other) = .ok true →
        other ≤ rest := by
  have hdigits : ∀ letter ∈ '9' :: otherDigits, letter.isDigit = true :=
    Text.isDigit_of_isPandigital (show isPandigital ('9' :: otherDigits) 1 9 = true by decide)
  obtain ⟨found, hrun, hfirst⟩ := largestMultiple_run hdigits (by decide)
  have hnine : isConcatenatedProduct (productRow 9 5) = .ok true :=
    isConcatenatedProduct_productRow (by decide) (by decide) (by rw [productRow_nine]; decide)
  rw [productRow_nine] at hnine
  have hanswer : candidate? '9' ['1', '8', '2', '7', '3', '6', '4', '5'] ≠ none := by
    rw [candidate?, if_pos hnine]
    exact Option.some_ne_none _
  cases found with
  | none => exact absurd (hfirst _ (by decide)) hanswer
  | some found =>
      obtain ⟨rest, hrest, hfound, hbefore⟩ := hfirst
      rw [candidate?] at hfound
      split at hfound
      next hproduct =>
        cases hfound
        refine ⟨rest, hrun, hrest, hproduct, ?_⟩
        intro other hother hmultiple
        apply not_lt.mp
        intro hlt
        have hnone := hbefore other hother hlt
        rw [candidate?, if_pos hmultiple] at hnone
        cases hnone
      next => cases hfound

/-- The search of the texts that begin with a nine ends with a pandigital concatenated product.
Every text that is one, whatever digit it begins with, comes no later in the order of words and
is read as no larger a number. -/
theorem leading_nine_finds_largest :
    ∃ found, largestPandigitalMultiple otherDigits = .ok (some found) ∧
      isPandigitalText found 1 9 = .ok true ∧ isConcatenatedProduct found.toList = .ok true ∧
      ∀ text : String, isPandigitalText text 1 9 = .ok true →
        isConcatenatedProduct text.toList = .ok true →
        text ≤ found ∧ ∃ number largest, Text.readWord text.toList = .ok number ∧
          Text.readWord found.toList = .ok largest ∧ number ≤ largest := by
  obtain ⟨rest, hrun, hrest, hproduct, hlargest⟩ := largestPandigitalMultiple_run
  have hfound : isPandigital ('9' :: rest) 1 9 = true := by
    rw [Text.isPandigital_congr (hrest.cons '9')]
    decide
  refine ⟨_, hrun, ?_, by rwa [String.toList_ofList], ?_⟩
  · rw [Text.isPandigitalText_eq, String.toList_ofList, hfound]
  intro text hpandigital hmultiple
  rw [Text.isPandigitalText_eq, Except.ok.injEq] at hpandigital
  have hle : text.toList ≤ '9' :: rest := by
    rcases lt_or_arranged_of_isPandigital hpandigital with hbelow | ⟨other, htext, hother⟩
    · exact (hbelow rest).le
    · rw [htext] at hmultiple ⊢
      exact List.cons_le_cons '9' (hlargest other hother hmultiple)
  constructor
  · rw [String.le_iff_toList_le, String.toList_ofList]
    exact hle
  · rw [String.toList_ofList]
    exact readWord_le_of_isPandigital hpandigital hfound hle

/-- The text of 192, 384 and 576 is found to be smaller, although it begins with a one. -/
theorem leading_nine_finds_largest_past_192384576 :
    isPandigitalText "192384576" 1 9 = .ok true ∧
      isConcatenatedProduct "192384576".toList = .ok true ∧
      ∃ found, largestPandigitalMultiple otherDigits = .ok (some found) ∧
        "192384576" ≤ found := by
  have hpandigital : isPandigitalText "192384576" 1 9 = .ok true := by
    rw [Text.isPandigitalText_eq]
    decide
  have hrow : "192384576".toList = productRow 192 3 := by decide +kernel
  have hmultiple : isConcatenatedProduct "192384576".toList = .ok true := by
    rw [hrow]
    exact isConcatenatedProduct_productRow (by decide) (by decide) (by rw [← hrow]; decide)
  obtain ⟨found, hrun, -, -, hlargest⟩ := leading_nine_finds_largest
  exact ⟨hpandigital, hmultiple, found, hrun, (hlargest _ hpandigital hmultiple).1⟩

end NumberPuzzles.ConcatenatedProduct
