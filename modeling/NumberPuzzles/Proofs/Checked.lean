import Mathlib.Algebra.GroupWithZero.Nat
import NumberPuzzles.Word

/-!
# Checked steps and their folds

A table that holds the values of a function is read without a fault.  The results of checked
steps only get larger on the way through a list.  So a fold of them has the exact result if
that is below the limit, and is a fault otherwise: no value on the way is past the limit
before the last one is.
-/

namespace NumberPuzzles.Checked

variable {α : Type}

theorem bind_of_ok {β : Type} {first : Checked α} {value : α} (hfirst : first = .ok value)
    (next : α → Checked β) : first >>= next = next value := by
  rw [hfirst, bind_ok]

/-- The entry at a position that the table has is read without a fault. -/
theorem entry_eq {table : Array α} {index : Nat} {value : α}
    (hvalue : table.toList[index]? = some value) : entry table index = .ok value := by
  obtain ⟨hinside, hentry⟩ := List.getElem?_eq_some_iff.mp hvalue
  rw [entry, dif_pos (by simpa using hinside), ← Array.getElem_toList, hentry]

/-- The table has so many entries, at each position the value there. -/
structure Tabulates (size : Nat) (value : Nat → α) (table : Array α) : Prop where
  size_eq : table.size = size
  getElem_eq : ∀ position < size, table[position]? = some (value position)

namespace Tabulates

variable {size position : Nat} {value after : Nat → α} {table : Array α}

theorem read (htable : Tabulates size value table) (hposition : position < size) :
    entry table position = .ok (value position) := by
  refine entry_eq ?_
  rw [Array.getElem?_toList]
  exact htable.getElem_eq position hposition

theorem push (htable : Tabulates size value table) :
    Tabulates (size + 1) value (table.push (value size)) where
  size_eq := by rw [Array.size_push, htable.size_eq]
  getElem_eq position hposition := by
    rw [Array.getElem?_push, htable.size_eq]
    by_cases hlast : position = size
    · rw [if_pos hlast, hlast]
    · rw [if_neg hlast]
      exact htable.getElem_eq position (by omega)

/-- Writing one entry changes the value at its position only. -/
theorem set (htable : Tabulates size value table) (hinside : position < table.size)
    (hother : ∀ other, other ≠ position → after other = value other) :
    Tabulates size after (table.set position (after position) hinside) where
  size_eq := by rw [Array.size_set, htable.size_eq]
  getElem_eq other hposition := by
    rw [Array.getElem?_set]
    by_cases hhere : position = other
    · rw [if_pos hhere, hhere]
    · rw [if_neg hhere, htable.getElem_eq other hposition, hother other (Ne.symm hhere)]

end Tabulates

/-! ## Folds -/

variable {limit value : Nat} {step : Nat → α → Checked Nat} {result : Nat → α → Nat}
  {entries : List α}

/-- A step has the exact result if that is below the limit, and is a fault otherwise; the
result is no smaller than the value before it. -/
structure IsStep (limit : Nat) (step : Nat → α → Checked Nat) (result : Nat → α → Nat)
    (entry : α) : Prop where
  below : ∀ value, result value entry < limit → step value entry = .ok (result value entry)
  past : ∀ value, limit ≤ result value entry → ∃ fault, step value entry = .error fault
  grows : ∀ value, value ≤ result value entry

theorem le_foldl (hsteps : ∀ entry ∈ entries, IsStep limit step result entry) :
    value ≤ entries.foldl result value := by
  induction entries generalizing value with
  | nil => exact Nat.le_refl value
  | cons entry rest ih =>
      obtain ⟨hentry, hrest⟩ := List.forall_mem_cons.mp hsteps
      exact Nat.le_trans (hentry.grows value) (ih hrest)

theorem foldlM_eq (hsteps : ∀ entry ∈ entries, IsStep limit step result entry)
    (hbelow : entries.foldl result value < limit) :
    entries.foldlM step value = .ok (entries.foldl result value) := by
  induction entries generalizing value with
  | nil => rfl
  | cons entry rest ih =>
      obtain ⟨hentry, hrest⟩ := List.forall_mem_cons.mp hsteps
      -- The next value is on the way to the last one, so it is below the limit with it.
      have hnext : result value entry < limit := Nat.lt_of_le_of_lt (le_foldl hrest) hbelow
      rw [List.foldlM_cons, hentry.below value hnext]
      exact ih hrest hbelow

theorem foldlM_past (hsteps : ∀ entry ∈ entries, IsStep limit step result entry)
    (hvalue : value < limit) (hpast : limit ≤ entries.foldl result value) :
    ∃ fault, entries.foldlM step value = .error fault := by
  induction entries generalizing value with
  | nil => exact absurd hvalue (Nat.not_lt.mpr hpast)
  | cons entry rest ih =>
      obtain ⟨hentry, hrest⟩ := List.forall_mem_cons.mp hsteps
      rw [List.foldlM_cons]
      by_cases hnext : result value entry < limit
      · rw [hentry.below value hnext]
        exact ih hrest hnext hpast
      · obtain ⟨fault, hfault⟩ := hentry.past value (Nat.not_lt.mp hnext)
        exact ⟨fault, by rw [hfault]; rfl⟩

/-- The fold is a fault exactly when its result is past the limit. -/
theorem foldlM_fails_iff (hsteps : ∀ entry ∈ entries, IsStep limit step result entry)
    (hvalue : value < limit) :
    (∃ fault, entries.foldlM step value = .error fault) ↔
      limit ≤ entries.foldl result value := by
  constructor
  · rintro ⟨fault, hfault⟩
    refine Nat.not_lt.mp fun hbelow => ?_
    rw [foldlM_eq hsteps hbelow] at hfault
    cases hfault
  · exact foldlM_past hsteps hvalue

/-- A fold whose steps all fail in one way fails in that way. -/
theorem foldlM_fault {fault other : Fault}
    (hfault : ∀ entry ∈ entries, ∀ value other, step value entry = .error other → other = fault)
    (hfold : entries.foldlM step value = .error other) : other = fault := by
  induction entries generalizing value with
  | nil => cases hfold
  | cons entry rest ih =>
      obtain ⟨hentry, hrest⟩ := List.forall_mem_cons.mp hfault
      rw [List.foldlM_cons] at hfold
      cases hstep : step value entry with
      | error first =>
          rw [hstep] at hfold
          cases hfold
          exact hentry value other hstep
      | ok next =>
          rw [hstep] at hfold
          exact ih hrest hfold

/-! ## Sums -/

theorem add_isStep (limit entry : Nat) : IsStep limit (add limit) (· + ·) entry where
  below _ hbelow := if_pos hbelow
  past _ hpast := ⟨.add, if_neg (Nat.not_lt.mpr hpast)⟩
  grows value := Nat.le_add_right value entry

theorem sum_eq {values : List Nat} (hbelow : values.sum < limit) :
    sum limit values = .ok values.sum := by
  rw [List.sum_eq_foldl] at hbelow ⊢
  exact foldlM_eq (fun entry _ => add_isStep limit entry) hbelow

theorem eq_add_of_add_error {left right : Nat} {fault : Fault}
    (hadd : add limit left right = .error fault) : fault = .add := by
  rw [add] at hadd
  split at hadd
  · cases hadd
  · exact (Except.error.inj hadd).symm

theorem sum_past {values : List Nat} (hlimit : 0 < limit) (hpast : limit ≤ values.sum) :
    sum limit values = .error .add := by
  rw [List.sum_eq_foldl] at hpast
  obtain ⟨fault, hfault⟩ := foldlM_past (fun entry _ => add_isStep limit entry) hlimit hpast
  rw [sum, hfault, foldlM_fault (fun _ _ _ _ => eq_add_of_add_error) hfault]

end NumberPuzzles.Checked
