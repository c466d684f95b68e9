import Mathlib.Algebra.BigOperators.Ring.Finset
import Mathlib.Data.List.Permutation
import Mathlib.Data.Nat.Factorial.BigOperators

/-!
# How many arrangements there are

The arrangements of a list are split by their first entry: behind it stands an
arrangement of the other entries.  Summed over the distinct entries this gives the
factorial of the length, divided by the factorial of every multiplicity.
-/

namespace NumberPuzzles.Arrangement

open scoped List

variable {α : Type} [DecidableEq α]

def arrangements (entries : List α) : Finset (List α) := entries.permutations.toFinset

@[simp]
theorem mem_arrangements {entries other : List α} :
    other ∈ arrangements entries ↔ other ~ entries := by
  simp [arrangements, List.mem_permutations]

def arrangementsFrom (entries : List α) (first : α) : Finset (List α) :=
  (arrangements (entries.erase first)).map
    ⟨List.cons first, List.cons_injective⟩

theorem mem_arrangementsFrom {entries other : List α} {first : α} (hfirst : first ∈ entries) :
    other ∈ arrangementsFrom entries first ↔ other ~ entries ∧ other.head? = some first := by
  simp only [arrangementsFrom, Finset.mem_map, mem_arrangements, Function.Embedding.coeFn_mk]
  constructor
  · rintro ⟨rest, hrest, rfl⟩
    exact ⟨(hrest.cons first).trans (List.perm_cons_erase hfirst).symm, rfl⟩
  · rintro ⟨hperm, hhead⟩
    obtain ⟨rest, rfl⟩ := List.head?_eq_some_iff.mp hhead
    exact ⟨rest, (hperm.trans (List.perm_cons_erase hfirst)).cons_inv, rfl⟩

/-- Every arrangement of a list with entries begins with one of them. -/
theorem arrangements_eq_biUnion {entries : List α} (hentries : entries ≠ []) :
    arrangements entries = entries.toFinset.biUnion (arrangementsFrom entries) := by
  ext other
  simp only [mem_arrangements, Finset.mem_biUnion, List.mem_toFinset]
  constructor
  · intro hperm
    cases other with
    | nil => exact absurd hperm.symm.eq_nil hentries
    | cons first rest =>
        have hfirst : first ∈ entries := hperm.mem_iff.mp List.mem_cons_self
        exact ⟨first, hfirst, (mem_arrangementsFrom hfirst).mpr ⟨hperm, rfl⟩⟩
  · rintro ⟨first, hfirst, hother⟩
    exact ((mem_arrangementsFrom hfirst).mp hother).1

/-- Arrangements with different first entries are different. -/
theorem arrangementsFrom_pairwiseDisjoint (entries : List α) (firsts : Set α) :
    firsts.PairwiseDisjoint (arrangementsFrom entries) := by
  intro left _ right _ hdistinct
  refine Finset.disjoint_left.mpr ?_
  intro other hleft hright
  obtain ⟨rest, -, rfl⟩ := Finset.mem_map.mp hleft
  obtain ⟨again, -, hsame⟩ := Finset.mem_map.mp hright
  exact hdistinct (List.cons.inj hsame).1.symm

theorem card_arrangements_eq_sum {entries : List α} (hentries : entries ≠ []) :
    (arrangements entries).card =
      ∑ first ∈ entries.toFinset, (arrangements (entries.erase first)).card := by
  rw [arrangements_eq_biUnion hentries,
    Finset.card_biUnion (arrangementsFrom_pairwiseDisjoint entries _)]
  apply Finset.sum_congr rfl
  intro first hfirst
  exact Finset.card_map _

def multiplicityFactor (entries : List α) : Nat :=
  ∏ entry ∈ entries.toFinset, (entries.count entry).factorial

/-- Taking out one entry takes its multiplicity out of the product. -/
theorem multiplicityFactor_erase {entries : List α} {first : α} (hfirst : first ∈ entries) :
    multiplicityFactor entries =
      entries.count first * multiplicityFactor (entries.erase first) := by
  have hmember : first ∈ entries.toFinset := List.mem_toFinset.mpr hfirst
  have hrest : multiplicityFactor (entries.erase first) =
      ∏ entry ∈ entries.toFinset, ((entries.erase first).count entry).factorial := by
    apply Finset.prod_subset
    · intro entry hentry
      exact List.mem_toFinset.mpr (List.mem_of_mem_erase (List.mem_toFinset.mp hentry))
    · intro entry _ hentry
      rw [List.count_eq_zero_of_not_mem (mt List.mem_toFinset.mpr hentry), Nat.factorial_zero]
  have hothers : ∏ entry ∈ entries.toFinset.erase first,
        ((entries.erase first).count entry).factorial =
      ∏ entry ∈ entries.toFinset.erase first, (entries.count entry).factorial := by
    apply Finset.prod_congr rfl
    intro entry hentry
    rw [List.count_erase_of_ne (Finset.ne_of_mem_erase hentry)]
  have hpositive : entries.count first ≠ 0 := (List.count_pos_iff.mpr hfirst).ne'
  rw [hrest, multiplicityFactor, ← Finset.mul_prod_erase _ _ hmember,
    ← Finset.mul_prod_erase _ _ hmember, hothers, List.count_erase_self, ← Nat.mul_assoc,
    Nat.mul_factorial_pred hpositive]

/-- The number of arrangements, times the factorials of the multiplicities, is the
factorial of the length. -/
theorem card_arrangements_mul (entries : List α) :
    (arrangements entries).card * multiplicityFactor entries = entries.length.factorial := by
  induction hlength : entries.length generalizing entries with
  | zero =>
      have hempty : entries = [] := List.eq_nil_of_length_eq_zero hlength
      subst hempty
      simp [arrangements, multiplicityFactor]
  | succ length ih =>
      have hentries : entries ≠ [] := List.ne_nil_of_length_eq_add_one hlength
      -- Behind each first entry the list is one shorter, and its multiplicity is one less.
      calc
        (arrangements entries).card * multiplicityFactor entries =
            ∑ first ∈ entries.toFinset,
              (arrangements (entries.erase first)).card * multiplicityFactor entries := by
          rw [card_arrangements_eq_sum hentries, Finset.sum_mul]
        _ = ∑ first ∈ entries.toFinset, entries.count first * length.factorial := by
          apply Finset.sum_congr rfl
          intro first hfirst
          have hmember : first ∈ entries := List.mem_toFinset.mp hfirst
          have hrest : (entries.erase first).length = length := by
            rw [List.length_erase_of_mem hmember, hlength, Nat.add_sub_cancel]
          rw [multiplicityFactor_erase hmember, ← ih (entries.erase first) hrest]
          ring
        _ = (length + 1) * length.factorial := by
          rw [← Finset.sum_mul, List.sum_toFinset_count_eq_length, hlength]
        _ = (length + 1).factorial := (Nat.factorial_succ length).symm

end NumberPuzzles.Arrangement
