import NumberPuzzles.Proofs.Progression
import NumberPuzzles.Proofs.Text.Pandigital
import NumberPuzzles.Puzzle.PandigitalProduct

/-!
# The shapes of a pandigital product

Nine digits, none of them zero, are shared by two factors and a product that has as many
digits as the factors have together, or one less.  So the factors have five digits together
and the product has four, which leaves the two shapes that are searched, in either order of
the factors.
-/

namespace NumberPuzzles.PandigitalProduct

variable {left right number : Nat}

/-! ## The digits of an identity -/

theorem isIdentity_eq (hword : left * right < word) :
    isIdentity left right =
      .ok (isPandigital
        (Text.decimal left ++ Text.decimal right ++ Text.decimal (left * right)) 1 9) := by
  rw [isIdentity, Checked.mul, if_pos hword]
  rfl

theorem lt_word_of_isIdentity (hidentity : isIdentity left right = .ok true) :
    left * right < word := by
  by_contra hpast
  rw [isIdentity, Checked.mul, if_neg hpast] at hidentity
  cases hidentity

/-- The order of the factors does not matter. -/
theorem isIdentity_comm (hword : left * right < word) :
    isIdentity left right = isIdentity right left := by
  rw [isIdentity_eq hword, isIdentity_eq (Nat.mul_comm left right ▸ hword), Nat.mul_comm right]
  exact congrArg Except.ok (Text.isPandigital_congr (List.perm_append_comm.append_right _))

theorem perm_of_isIdentity (hidentity : isIdentity left right = .ok true) :
    (Text.decimal left ++ Text.decimal right ++ Text.decimal (left * right)).Perm
      (Text.digitRange 1 9) := by
  rw [isIdentity_eq (lt_word_of_isIdentity hidentity), Except.ok.injEq,
    Text.isPandigital_iff] at hidentity
  exact hidentity.2.2

theorem zero_not_mem_digitRange : '0' ∉ Text.digitRange 1 9 := by decide

/-- A zero among the factors would be written with a digit that is not allowed. -/
theorem pos_of_isIdentity (hidentity : isIdentity left right = .ok true) :
    0 < left ∧ 0 < right := by
  have hperm := perm_of_isIdentity hidentity
  have hzero : '0' ∉ Text.decimal left ∧ '0' ∉ Text.decimal right := by
    have hnone := mt hperm.mem_iff.mp zero_not_mem_digitRange
    simp only [List.mem_append, not_or] at hnone
    exact hnone.1
  have hwritten : '0' ∈ Text.decimal 0 := by
    rw [Text.decimal, digits_zero]
    decide
  constructor
  · refine Nat.pos_of_ne_zero ?_
    rintro rfl
    exact hzero.1 hwritten
  · refine Nat.pos_of_ne_zero ?_
    rintro rfl
    exact hzero.2 hwritten

theorem digitCount_of_isIdentity (hidentity : isIdentity left right = .ok true) :
    digitCount left + digitCount right = 5 := by
  obtain ⟨hleft, hright⟩ := pos_of_isIdentity hidentity
  have hlength := (perm_of_isIdentity hidentity).length_eq
  rw [List.length_append, List.length_append, Text.length_decimal, Text.length_decimal,
    Text.length_decimal, show (Text.digitRange 1 9).length = 9 by decide] at hlength
  have hproduct := digitCount_mul hleft hright
  omega

/-! ## The shapes that are left -/

def Fits (shape : Shape) (left right : Nat) : Prop :=
  left ∈ shape.small.toList ∧ right ∈ shape.large.toList

theorem exists_fits_iff :
    (∃ shape ∈ shapes, Fits shape left right) ↔
      (1 ≤ left ∧ left ≤ 9) ∧ (1000 ≤ right ∧ right ≤ 9999) ∨
        (10 ≤ left ∧ left ≤ 99) ∧ 100 ≤ right ∧ right ≤ 999 := by
  simp only [shapes, Fits, List.mem_cons, List.not_mem_nil, or_false, exists_eq_or_imp,
    exists_eq_left, Progression.mem_toList_inclusive]

/-- The factors of an identity fit into a shape, in the one order or in the other. -/
theorem exists_fits_of_isIdentity (hidentity : isIdentity left right = .ok true) :
    (∃ shape ∈ shapes, Fits shape left right) ∨ ∃ shape ∈ shapes, Fits shape right left := by
  obtain ⟨hleft, hright⟩ := pos_of_isIdentity hidentity
  have hsum := digitCount_of_isIdentity hidentity
  have hleftPos := digitCount_pos left
  have hrightPos := digitCount_pos right
  have hleftLeast := pow_digitCount_le hleft
  have hleftBelow := lt_pow_digitCount hleft
  have hrightLeast := pow_digitCount_le hright
  have hrightBelow := lt_pow_digitCount hright
  have hcases : digitCount left = 1 ∧ digitCount right = 4 ∨
      digitCount left = 2 ∧ digitCount right = 3 ∨
      digitCount left = 3 ∧ digitCount right = 2 ∨
      digitCount left = 4 ∧ digitCount right = 1 := by omega
  rw [exists_fits_iff, exists_fits_iff]
  rcases hcases with ⟨hcount, hother⟩ | ⟨hcount, hother⟩ | ⟨hcount, hother⟩ | ⟨hcount, hother⟩
  all_goals
    rw [hcount] at hleftLeast hleftBelow
    rw [hother] at hrightLeast hrightBelow
    omega

theorem lt_word_of_fits (hfits : ∃ shape ∈ shapes, Fits shape left right) :
    left * right < word := by
  rw [exists_fits_iff] at hfits
  have hproduct : left * right ≤ 99 * 9999 := Nat.mul_le_mul (by omega) (by omega)
  exact Nat.lt_of_le_of_lt hproduct (by decide)

/-! ## The search -/

/-- The list after is ascending, and has the members of the list before and those added. -/
structure Adds (added : Nat → Prop) (before after : List Nat) : Prop where
  ascending : after.Pairwise (· < ·)
  members : ∀ number, number ∈ after ↔ number ∈ before ∨ added number

theorem insertNew_adds (number : Nat) {before : List Nat} (hascending : before.Pairwise (· < ·)) :
    Adds (· = number) before (insertNew number before) := by
  induction before with
  | nil => exact ⟨List.pairwise_singleton .., by simp [insertNew]⟩
  | cons first rest ih =>
      obtain ⟨hfirst, hrest⟩ := List.pairwise_cons.mp hascending
      rw [insertNew]
      split
      next hbelow =>
        refine ⟨List.pairwise_cons.mpr ⟨?_, hascending⟩, by simp [or_comm]⟩
        intro member hmember
        rcases List.mem_cons.mp hmember with rfl | hmember
        · exact hbelow
        · exact hbelow.trans (hfirst member hmember)
      next hnot =>
        split
        next hsame => exact ⟨hascending, by simp [hsame]⟩
        next hother =>
          have hadds := ih hrest
          refine ⟨List.pairwise_cons.mpr ⟨?_, hadds.ascending⟩, ?_⟩
          · intro member hmember
            rcases (hadds.members member).mp hmember with hmember | rfl
            · exact hfirst member hmember
            · omega
          · intro member
            rw [List.mem_cons, List.mem_cons, hadds.members, or_assoc]

/-- Steps that each add some members add, one after the other, the members of them all. -/
theorem foldlM_adds {α : Type} {step : List Nat → α → Checked (List Nat)}
    {added : α → Nat → Prop} {entries : List α}
    (hstep : ∀ entry ∈ entries, ∀ before : List Nat, before.Pairwise (· < ·) →
      ∃ after, step before entry = .ok after ∧ Adds (added entry) before after)
    {before : List Nat} (hascending : before.Pairwise (· < ·)) :
    ∃ after, entries.foldlM step before = .ok after ∧
      Adds (fun number => ∃ entry ∈ entries, added entry number) before after := by
  induction entries generalizing before with
  | nil => exact ⟨before, rfl, hascending, by simp⟩
  | cons entry entries ih =>
      obtain ⟨hentry, hrest⟩ := List.forall_mem_cons.mp hstep
      obtain ⟨middle, hmiddle, hfirst⟩ := hentry before hascending
      obtain ⟨after, hafter, hlater⟩ := ih hrest hfirst.ascending
      refine ⟨after, ?_, hlater.ascending, ?_⟩
      · rw [List.foldlM_cons, hmiddle]
        exact hafter
      · intro number
        rw [hlater.members, hfirst.members, or_assoc]
        simp

/-- A pair of factors adds its product if it is an identity. -/
theorem addPair_adds (hword : left * right < word) {before : List Nat}
    (hascending : before.Pairwise (· < ·)) :
    ∃ after, (do
        if ← isIdentity left right then
          return insertNew (← Checked.mul word left right) before
        else return before : Checked (List Nat)) = .ok after ∧
      Adds (fun number => isIdentity left right = .ok true ∧ number = left * right)
        before after := by
  obtain ⟨holds, hholds⟩ : ∃ holds, isIdentity left right = .ok holds :=
    ⟨_, isIdentity_eq hword⟩
  rw [hholds, Checked.mul, if_pos hword]
  cases holds with
  | false => exact ⟨before, rfl, hascending, by simp⟩
  | true =>
      have hadds := insertNew_adds (left * right) hascending
      exact ⟨_, rfl, hadds.ascending, fun number => by simp [hadds.members]⟩

theorem addShape_adds {shape : Shape} (hshape : shape ∈ shapes) {before : List Nat}
    (hascending : before.Pairwise (· < ·)) :
    ∃ after, addShape before shape = .ok after ∧
      Adds (fun number => ∃ left ∈ shape.small.toList, ∃ right ∈ shape.large.toList,
        isIdentity left right = .ok true ∧ number = left * right) before after := by
  rw [addShape, Progression.foldM_eq_foldlM]
  refine foldlM_adds ?_ hascending
  intro left hleft before hascending
  rw [Progression.foldM_eq_foldlM]
  refine foldlM_adds ?_ hascending
  intro right hright before hascending
  exact addPair_adds (lt_word_of_fits ⟨shape, hshape, hleft, hright⟩) hascending

/-- The search ends, with the products of the identities whose factors fit into a shape. -/
theorem products_run :
    ∃ found, products shapes = .ok found ∧ found.Pairwise (· < ·) ∧
      ∀ number, number ∈ found ↔ ∃ left right,
        (∃ shape ∈ shapes, Fits shape left right) ∧ isIdentity left right = .ok true ∧
          number = left * right := by
  obtain ⟨found, hfound, hadds⟩ :=
    foldlM_adds (fun _ hshape _ hascending => addShape_adds hshape hascending)
      List.Pairwise.nil
  refine ⟨found, hfound, hadds.ascending, ?_⟩
  intro number
  rw [hadds.members]
  simp only [List.not_mem_nil, false_or, Fits]
  constructor
  · rintro ⟨shape, hshape, left, hleft, right, hright, hidentity⟩
    exact ⟨left, right, ⟨shape, hshape, hleft, hright⟩, hidentity⟩
  · rintro ⟨left, right, ⟨shape, hshape, hleft, hright⟩, hidentity⟩
    exact ⟨shape, hshape, left, hleft, right, hright, hidentity⟩

/-- The search of the two shapes ends with an ascending list.  It has the product of every two
machine words that are the factors of an identity, whatever their sizes and their order, and
every number on it is the product of two such words. -/
theorem shapes_find_all_products :
    ∃ found, products shapes = .ok found ∧ found.Pairwise (· < ·) ∧
      (∀ left right, left < word → right < word → left * right < word →
        isIdentity left right = .ok true → left * right ∈ found) ∧
      ∀ number ∈ found, ∃ left right, left < word ∧ right < word ∧ left * right < word ∧
        isIdentity left right = .ok true ∧ number = left * right := by
  obtain ⟨found, hfound, hascending, hmembers⟩ := products_run
  refine ⟨found, hfound, hascending, ?_, ?_⟩
  · intro left right _ _ hword hidentity
    rw [hmembers]
    rcases exists_fits_of_isIdentity hidentity with hfits | hfits
    · exact ⟨left, right, hfits, hidentity, rfl⟩
    · refine ⟨right, left, hfits, ?_, Nat.mul_comm left right⟩
      rwa [← isIdentity_comm hword]
  · intro number hnumber
    obtain ⟨left, right, hfits, hidentity, hproduct⟩ := (hmembers number).mp hnumber
    refine ⟨left, right, ?_, ?_, lt_word_of_fits hfits, hidentity, hproduct⟩
    · rw [exists_fits_iff] at hfits
      exact Nat.lt_of_le_of_lt (show left ≤ 99 by omega) (by decide)
    · rw [exists_fits_iff] at hfits
      exact Nat.lt_of_le_of_lt (show right ≤ 9999 by omega) (by decide)

/-- The product of 186 and 39, the larger factor first, is found; it is on the list only
because 39 and 186 are searched. -/
theorem shapes_find_all_products_swapped :
    186 < word ∧ 39 < word ∧ 186 * 39 < word ∧ isIdentity 186 39 = .ok true ∧
      ∃ found, products shapes = .ok found ∧ 186 * 39 ∈ found := by
  have hleft : 186 < word := by decide
  have hright : 39 < word := by decide
  have hword : 186 * 39 < word := by decide
  have hidentity : isIdentity 186 39 = .ok true := by
    rw [isIdentity_eq hword]
    decide +kernel
  obtain ⟨found, hfound, -, hcomplete, -⟩ := shapes_find_all_products
  exact ⟨hleft, hright, hword, hidentity, found, hfound,
    hcomplete 186 39 hleft hright hword hidentity⟩

end NumberPuzzles.PandigitalProduct
