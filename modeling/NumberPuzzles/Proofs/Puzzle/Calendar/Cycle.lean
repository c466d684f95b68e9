import Mathlib.Algebra.BigOperators.Group.Finset.Basic
import Mathlib.Algebra.Ring.Periodic
import Mathlib.Data.Int.ConditionallyCompleteOrder
import Mathlib.Data.Int.Interval
import NumberPuzzles.Puzzle.Calendar

/-!
# The cycle of four centuries

The days before a year grow from one year to the next by the lengths of its months.  Four
centuries have the same leap years wherever they begin, and their days are whole weeks; so each
month begins on the weekday on which it began four centuries before.  The Sundays among the firsts
are therefore counted alike in years that are whole cycles apart, and all stretches of one cycle
have as many.
-/

namespace NumberPuzzles.Calendar

variable {year first last : Int}

def IsYear (year : Int) : Prop := firstYear ≤ year ∧ year ≤ lastYear

instance : Decidable (IsYear year) := inferInstanceAs (Decidable (_ ∧ _))

/-! ## Days and months -/

/-- The days before a year and those of its months are the days before the next year. -/
theorem daysBeforeYear_succ (year : Int) :
    daysBeforeYear (year + 1) = daysBeforeYear year + (monthLengths year).sum := by
  have hlength : (monthLengths year).sum = if isLeapYear year then 366 else 365 := by
    rw [monthLengths]
    split <;> rfl
  rw [hlength, daysBeforeYear, daysBeforeYear]
  by_cases hleap : isLeapYear year = true
  · rw [if_pos hleap]
    simp only [isLeapYear, decide_eq_true_eq] at hleap
    omega
  · rw [if_neg hleap]
    simp only [isLeapYear, decide_eq_true_eq] at hleap
    omega

@[simp]
theorem isLeapYear_add_cycle (year : Int) : isLeapYear (year + 400) = isLeapYear year := by
  rw [isLeapYear, isLeapYear, decide_eq_decide]
  omega

@[simp]
theorem daysBeforeYear_add_cycle (year : Int) :
    daysBeforeYear (year + 400) = daysBeforeYear year + 7 * 20871 := by
  rw [daysBeforeYear, daysBeforeYear]
  omega

/-- Months that are whole weeks later begin on Sundays alike. -/
@[simp]
theorem sundaysFrom_add_weeks (daysBefore weeks : Int) (months : List Int) :
    sundaysFrom (daysBefore + 7 * weeks) months = sundaysFrom daysBefore months := by
  induction months generalizing daysBefore with
  | nil => rfl
  | cons month months ih =>
      have hday : isSunday (daysBefore + 7 * weeks) = isSunday daysBefore := by
        rw [isSunday, isSunday, Int.add_mul_emod_self_left]
      rw [sundaysFrom, sundaysFrom, hday, Int.add_right_comm, ih]

theorem sundaysInYear_periodic : Function.Periodic sundaysInYear 400 := by
  intro year
  have hmonths : monthLengths (year + 400) = monthLengths year := by
    rw [monthLengths, monthLengths, isLeapYear_add_cycle]
  rw [sundaysInYear, sundaysInYear, hmonths, daysBeforeYear_add_cycle, sundaysFrom_add_weeks]

/-! ## Stretches of years -/

theorem sundaysOver_eq (sundays : Nat) (year : Int) (years : Nat) :
    sundaysOver sundays year years =
      sundays + ∑ past ∈ Finset.range years, sundaysInYear (year + past) := by
  induction years generalizing sundays year with
  | zero => exact (Nat.add_zero sundays).symm
  | succ years ih =>
      have hlater : ∀ past : Nat, year + 1 + past = year + (past + 1 : Nat) := by
        intro past
        omega
      rw [sundaysOver, ih, Finset.sum_range_succ', Nat.cast_zero, Int.add_zero]
      simp only [hlater]
      omega

/-- The Sundays among the firsts of so many years are those of each year. -/
theorem sundaysOver_zero (year : Int) (years : Nat) :
    sundaysOver 0 year years = ∑ other ∈ Finset.Ico year (year + years), sundaysInYear other := by
  have hcount : (year + years - year).toNat = years := by omega
  rw [sundaysOver_eq, Nat.zero_add, Int.Ico_eq_finset_map, Finset.sum_map, hcount]
  rfl

/-- The count over some years is the sum over those of them that the calendar has. -/
theorem sundaysOnFirst_eq_sum (first last : Int) :
    sundaysOnFirst first last =
      ∑ year ∈ Finset.Icc first last with IsYear year, sundaysInYear year := by
  rw [sundaysOnFirst, sundaysOver_zero]
  refine Finset.sum_congr ?_ fun _ _ => rfl
  ext year
  rw [Finset.mem_Ico, Finset.mem_filter, Finset.mem_Icc, IsYear]
  omega

/-- Every stretch of one cycle has as many Sundays among the firsts. -/
theorem sundaysOver_cycle (year : Int) : sundaysOver 0 year 400 = 688 := by
  have hperiodic : Function.Periodic (fun year => sundaysOver 0 year 400) 1 := by
    intro year
    -- The stretch that begins a year later has a year less in front and the same one behind.
    have hfront := Finset.sum_range_succ' (fun past : Nat => sundaysInYear (year + past)) 400
    have hback := Finset.sum_range_succ (fun past : Nat => sundaysInYear (year + past)) 400
    have hsame : sundaysInYear (year + (400 : Nat)) = sundaysInYear year :=
      sundaysInYear_periodic year
    have hlater : ∀ past : Nat, year + 1 + past = year + (past + 1 : Nat) := by
      intro past
      omega
    simp only [sundaysOver_eq, hlater]
    rw [hback, hsame, Nat.cast_zero, Int.add_zero] at hfront
    omega
  have hfirst : sundaysOver 0 0 400 = 688 := by decide +kernel
  calc
    sundaysOver 0 year 400 = sundaysOver 0 (year * 1) 400 := by rw [Int.mul_one]
    _ = sundaysOver 0 0 400 := hperiodic.int_mul_eq year
    _ = 688 := hfirst

theorem sundaysOnFirst_cycle (hfirst : IsYear year) (hlast : IsYear (year + 399)) :
    sundaysOnFirst year (year + 399) = 688 := by
  have hcount : (year + 399 - year + 1).toNat = 400 := by omega
  rw [sundaysOnFirst, max_eq_left hfirst.1, min_eq_left hlast.2, hcount, sundaysOver_cycle]

/-- Years that are whole cycles later have the same count. -/
theorem sundaysOnFirst_add_cycles (cycles : Int) (hfirst : IsYear first) (hlast : IsYear last)
    (hlaterFirst : IsYear (first + 400 * cycles)) (hlaterLast : IsYear (last + 400 * cycles)) :
    sundaysOnFirst (first + 400 * cycles) (last + 400 * cycles) = sundaysOnFirst first last := by
  have hcount : last + 400 * cycles - (first + 400 * cycles) = last - first := by omega
  rw [sundaysOnFirst, sundaysOnFirst, max_eq_left hfirst.1, max_eq_left hlaterFirst.1,
    min_eq_left hlast.2, min_eq_left hlaterLast.2, hcount, sundaysOver_eq, sundaysOver_eq,
    Nat.zero_add, Nat.zero_add]
  refine Finset.sum_congr rfl ?_
  intro past _
  have hyear : first + 400 * cycles + past = first + past + cycles * 400 := by omega
  rw [hyear]
  exact sundaysInYear_periodic.int_mul cycles (first + past)

end NumberPuzzles.Calendar
