import Mathlib.Data.Int.Range
import Mathlib.Data.ZMod.Basic
import NumberPuzzles.Proofs.Puzzle.Calendar.Cycle

/-!
# Counting with a library of dates

A library of dates hands out days and tells their weekdays.  If it has the first days of the
months in its range, and their weekdays follow from one month to the next by the lengths of the
months, then the weekday of every first is that of the days counted here, before the known one as
after it; and the Sundays among the firsts are counted as they are here.
-/

namespace NumberPuzzles.Calendar

variable {year : Int} {index : Nat}

/-- A weekday, as the number of days since Monday. -/
abbrev Weekday := ZMod 7

def sunday : Weekday := 6

/-- The days that a library of dates has, and their weekdays. -/
structure DateLibrary where
  Day : Type
  day? : (year : Int) → (month day : Nat) → Option Day
  weekday : Day → Weekday

/-- What lies between two years of the range is in it. -/
theorem IsYear.of_between {other between : Int} (hyear : IsYear year) (hother : IsYear other)
    (hle : other ≤ between) (hbetween : between ≤ year) : IsYear between :=
  ⟨hother.1.trans hle, hbetween.trans hyear.2⟩

namespace DateLibrary

def firsts (library : DateLibrary) (year : Int) : List library.Day :=
  (List.range' 1 12).filterMap fun month => library.day? year month 1

/-- How many first days of months are Sundays from one year to another, both included. -/
def sundaysOnFirst (library : DateLibrary) (first last : Int) : Nat :=
  ((Int.range first (last + 1)).flatMap library.firsts).countP fun day =>
    library.weekday day = sunday

/-- The library is one of the Gregorian calendar: it has the first days of all months in the range
of years and of no others, the year 2001 begins on a Monday, and the weekdays follow from the first
of a month to that of the next by the length of the month. -/
structure IsGregorian (library : DateLibrary) : Prop where
  exists_first : ∀ {year month}, IsYear year → 1 ≤ month → month ≤ 12 →
    ∃ day, library.day? year month 1 = some day
  no_first : ∀ {year} (month), ¬ IsYear year → library.day? year month 1 = none
  monday : ∀ {day}, library.day? 2001 1 1 = some day → library.weekday day = 0
  next_month : ∀ {year index day next} {length : Int}, (monthLengths year)[index]? = some length →
    library.day? year (index + 1) 1 = some day → library.day? year (index + 2) 1 = some next →
      library.weekday next = library.weekday day + length
  next_year : ∀ {year day next}, library.day? year 12 1 = some day →
    library.day? (year + 1) 1 1 = some next → library.weekday next = library.weekday day + 31

variable {library : DateLibrary}

/-! ## The weekday of every first -/

@[simp]
theorem length_monthLengths (year : Int) : (monthLengths year).length = 12 := rfl

theorem sum_monthLengths (year : Int) :
    (monthLengths year).sum = ((monthLengths year).take 11).sum + 31 :=
  List.sum_take_succ (monthLengths year) 11 (by rw [length_monthLengths]; decide)

namespace IsGregorian

/-- Within a year the weekdays move on by the months that have passed. -/
theorem weekday_first (hgregorian : library.IsGregorian) (hyear : IsYear year) (hindex : index < 12)
    {start day : library.Day} (hstart : library.day? year 1 1 = some start)
    (hday : library.day? year (index + 1) 1 = some day) :
    library.weekday day = library.weekday start + ((monthLengths year).take index).sum := by
  induction index generalizing day with
  | zero =>
      rw [hstart] at hday
      cases hday
      simp
  | succ index ih =>
      obtain ⟨before, hbefore⟩ :=
        hgregorian.exists_first hyear (Nat.succ_pos index) (by omega : index + 1 ≤ 12)
      have hinside : index < (monthLengths year).length := by
        rw [length_monthLengths]
        omega
      rw [hgregorian.next_month (List.getElem?_eq_getElem hinside) hbefore hday,
        ih (by omega) hbefore, List.sum_take_succ _ _ hinside, Int.cast_add, add_assoc]

/-- From one new year to the next the weekdays move on by the months of the year. -/
theorem weekday_new_year_succ (hgregorian : library.IsGregorian) (hyear : IsYear year)
    {start next : library.Day} (hstart : library.day? year 1 1 = some start)
    (hnext : library.day? (year + 1) 1 1 = some next) :
    library.weekday next = library.weekday start + (monthLengths year).sum := by
  obtain ⟨december, hdecember⟩ := hgregorian.exists_first hyear (by decide : 1 ≤ 12) le_rfl
  rw [hgregorian.next_year hdecember hnext,
    hgregorian.weekday_first hyear (by decide) hstart hdecember, sum_monthLengths, Int.cast_add,
    add_assoc]
  rfl

/-- Every year begins on the weekday of the days before it. -/
theorem weekday_new_year (hgregorian : library.IsGregorian) (hyear : IsYear year)
    {start : library.Day} (hstart : library.day? year 1 1 = some start) :
    library.weekday start = daysBeforeYear year := by
  -- The known Monday is carried on year by year, and back in the same way.
  rcases le_total 2001 year with hlater | hearlier
  · induction year, hlater using Int.leInduction generalizing start with
    | base => exact hgregorian.monday hstart
    | succ year hlater ih =>
        have hbefore : IsYear year :=
          IsYear.of_between hyear (by decide) hlater (Int.le_add_one le_rfl)
        obtain ⟨before, hfirst⟩ := hgregorian.exists_first hbefore le_rfl (by decide)
        rw [hgregorian.weekday_new_year_succ hbefore hfirst hstart, ih hbefore hfirst,
          daysBeforeYear_succ, Int.cast_add]
  · induction year, hearlier using Int.leInductionDown generalizing start with
    | base => exact hgregorian.monday hstart
    | pred year hearlier ih =>
        have hafter : IsYear year :=
          IsYear.of_between (by decide : IsYear 2001) hyear (Int.sub_le_self year (by decide))
            hearlier
        obtain ⟨after, hfirst⟩ := hgregorian.exists_first hafter le_rfl (by decide)
        have hdays := daysBeforeYear_succ (year - 1)
        rw [Int.sub_add_cancel] at hdays
        have hnext := hgregorian.weekday_new_year_succ hyear hstart (by rwa [Int.sub_add_cancel])
        rw [ih hafter hfirst, hdays, Int.cast_add] at hnext
        exact (add_right_cancel hnext).symm

/-- Every first falls on the weekday of the days before it. -/
theorem weekday_eq (hgregorian : library.IsGregorian) (hyear : IsYear year) (hindex : index < 12)
    {day : library.Day} (hday : library.day? year (index + 1) 1 = some day) :
    library.weekday day =
      (daysBeforeYear year + ((monthLengths year).take index).sum : Int) := by
  obtain ⟨start, hstart⟩ := hgregorian.exists_first hyear le_rfl (by decide : 1 ≤ 12)
  rw [hgregorian.weekday_first hyear hindex hstart hday, hgregorian.weekday_new_year hyear hstart,
    Int.cast_add]

end IsGregorian

/-! ## The Sundays among the firsts -/

theorem isSunday_iff (day : Int) : isSunday day = true ↔ (day : Weekday) = sunday := by
  have hsunday : sunday = ((6 : Int) : Weekday) := rfl
  rw [isSunday, decide_eq_true_iff, hsunday, ZMod.intCast_eq_intCast_iff]
  rfl

/-- Month by month, the days before each are those before the first and of the months between. -/
theorem sundaysFrom_eq_countP (daysBefore : Int) (months : List Int) :
    sundaysFrom daysBefore months =
      (List.range months.length).countP fun index =>
        isSunday (daysBefore + (months.take index).sum) := by
  induction months generalizing daysBefore with
  | nil => rfl
  | cons month months ih =>
      rw [sundaysFrom, ih, List.length_cons, List.range_succ_eq_map, List.countP_cons,
        List.countP_map, Nat.add_comm]
      simp [Function.comp_def, Int.add_assoc]

/-- In a year of its range, a Gregorian library has as many Sundays among the firsts. -/
theorem countP_firsts (hgregorian : library.IsGregorian) (hyear : IsYear year) :
    (library.firsts year).countP (fun day => library.weekday day = sunday) =
      sundaysInYear year := by
  rw [firsts, List.countP_filterMap, List.range'_eq_map_range, List.countP_map, sundaysInYear,
    sundaysFrom_eq_countP, length_monthLengths]
  refine List.countP_congr ?_
  intro index hindex
  have hinside : index < 12 := List.mem_range.mp hindex
  obtain ⟨day, hday⟩ := hgregorian.exists_first hyear (Nat.succ_pos index) hinside
  have hweekday := hgregorian.weekday_eq hyear hinside hday
  rw [Function.comp_apply, Nat.add_comm 1, hday, Option.map_some, Option.getD_some, isSunday_iff,
    ← hweekday, decide_eq_true_iff]

theorem countP_firsts_of_not_isYear (hgregorian : library.IsGregorian) (hyear : ¬ IsYear year) :
    (library.firsts year).countP (fun day => library.weekday day = sunday) = 0 := by
  have hnone : library.firsts year = [] := by
    rw [firsts, List.filterMap_eq_nil_iff]
    intro month _
    exact hgregorian.no_first month hyear
  rw [hnone, List.countP_nil]

theorem sum_map_range (count : Int → Nat) (first last : Int) :
    ((Int.range first (last + 1)).map count).sum = ∑ year ∈ Finset.Icc first last, count year := by
  rw [Int.Icc_eq_finset_map, Finset.sum_map, Int.range, List.map_map]
  rfl

theorem sundaysOnFirst_eq (hgregorian : library.IsGregorian) (first last : Int) :
    library.sundaysOnFirst first last = Calendar.sundaysOnFirst first last := by
  rw [sundaysOnFirst_eq_sum, Finset.sum_filter, sundaysOnFirst, List.countP_flatMap, sum_map_range]
  refine Finset.sum_congr rfl ?_
  intro year _
  rw [Function.comp_apply]
  split
  · next hyear => exact countP_firsts hgregorian hyear
  · next hyear => exact countP_firsts_of_not_isYear hgregorian hyear

/-! ## A library -/

/-- The library whose days are numbered by the days before them. -/
def gregorian : DateLibrary where
  Day := Int
  day? year month day :=
    if IsYear year ∧ 1 ≤ month ∧ month ≤ 12 ∧ 1 ≤ day ∧
        day ≤ (monthLengths year).getD (month - 1) 0 then
      some (daysBeforeYear year + ((monthLengths year).take (month - 1)).sum + (day - 1))
    else none
  weekday day := (day : Weekday)

theorem one_le_getD_monthLengths (year : Int) (hindex : index < 12) :
    1 ≤ (monthLengths year).getD index 0 := by
  have hall : ∀ length ∈ monthLengths year, 1 ≤ length := by
    rw [monthLengths]
    split <;> decide
  have hinside : index < (monthLengths year).length := hindex
  rw [List.getD_eq_getElem?_getD, List.getElem?_eq_getElem hinside]
  exact hall _ (List.getElem_mem hinside)

theorem gregorian_first_iff {day : Int} :
    gregorian.day? year (index + 1) 1 = some day ↔
      IsYear year ∧ index < 12 ∧
        daysBeforeYear year + ((monthLengths year).take index).sum = day := by
  simp only [gregorian, Nat.add_sub_cancel]
  constructor
  · intro hday
    split at hday
    · next hinside =>
        rw [← Option.some.inj hday]
        exact ⟨hinside.1, hinside.2.2.1, (Int.add_zero _).symm⟩
    · cases hday
  · rintro ⟨hyear, hindex, rfl⟩
    have hlength := one_le_getD_monthLengths year hindex
    rw [if_pos ⟨hyear, Nat.succ_pos index, hindex, le_rfl, hlength⟩]
    simp

theorem isGregorian_gregorian : gregorian.IsGregorian where
  exists_first {year month} hyear hfirst hlast := by
    obtain ⟨index, rfl⟩ := Nat.exists_eq_add_of_le' hfirst
    exact ⟨_, gregorian_first_iff.mpr ⟨hyear, hlast, rfl⟩⟩
  no_first month hyear := if_neg fun hinside => hyear hinside.1
  monday hday := by
    obtain ⟨-, -, rfl⟩ := gregorian_first_iff.mp hday
    decide
  next_month {year index day next length} hlength hday hnext := by
    obtain ⟨hinside, rfl⟩ := List.getElem?_eq_some_iff.mp hlength
    obtain ⟨-, -, rfl⟩ := gregorian_first_iff.mp hday
    obtain ⟨-, -, rfl⟩ := gregorian_first_iff.mp hnext
    change ((_ : Int) : Weekday) = ((_ : Int) : Weekday) + _
    rw [List.sum_take_succ _ _ hinside, ← Int.cast_add, Int.add_assoc]
  next_year {year day next} hday hnext := by
    obtain ⟨-, -, rfl⟩ := gregorian_first_iff.mp hday
    obtain ⟨-, -, rfl⟩ := gregorian_first_iff.mp hnext
    change ((_ : Int) : Weekday) = ((_ : Int) : Weekday) + (31 : Int)
    rw [daysBeforeYear_succ, sum_monthLengths, ← Int.cast_add, List.take_zero, List.sum_nil,
      Int.add_zero, Int.add_assoc]

/-- By any library of the Gregorian calendar, every stretch of 400 years of the range has 688
months that begin on a Sunday, and a stretch as long whole cycles of 400 years away has as many as
the stretch itself.  The count over any years is the one counted here. -/
theorem sundays_recur_every_four_centuries (hgregorian : library.IsGregorian) :
    (∀ year, firstYear ≤ year → year + 399 ≤ lastYear →
      library.sundaysOnFirst year (year + 399) = 688) ∧
    (∀ first last cycles, IsYear first → IsYear last → IsYear (first + 400 * cycles) →
      IsYear (last + 400 * cycles) →
        library.sundaysOnFirst (first + 400 * cycles) (last + 400 * cycles) =
          library.sundaysOnFirst first last) ∧
    ∀ first last, library.sundaysOnFirst first last = Calendar.sundaysOnFirst first last := by
  refine ⟨?_, ?_, sundaysOnFirst_eq hgregorian⟩
  · intro year hfirst hlast
    rw [sundaysOnFirst_eq hgregorian]
    exact sundaysOnFirst_cycle ⟨hfirst, by omega⟩ ⟨by omega, hlast⟩
  · intro first last cycles hfirst hlast hlaterFirst hlaterLast
    rw [sundaysOnFirst_eq hgregorian, sundaysOnFirst_eq hgregorian]
    exact sundaysOnFirst_add_cycles cycles hfirst hlast hlaterFirst hlaterLast

/-- The first cycle of the range has 688 of them, and the hundred years that lie 655 cycles before
those from 1901 to 2000 have 171 like them. -/
theorem sundays_recur_of_gregorian :
    gregorian.IsGregorian ∧ (firstYear ≤ -262143 ∧ -262143 + 399 ≤ lastYear) ∧
      gregorian.sundaysOnFirst (-262143) (-262143 + 399) = 688 ∧
      (IsYear 1901 ∧ IsYear 2000 ∧ IsYear (1901 + 400 * -655) ∧ IsYear (2000 + 400 * -655)) ∧
      gregorian.sundaysOnFirst (1901 + 400 * -655) (2000 + 400 * -655) = 171 := by
  have hrange : firstYear ≤ -262143 ∧ -262143 + 399 ≤ lastYear := by decide
  have hyears : IsYear 1901 ∧ IsYear 2000 ∧ IsYear (1901 + 400 * -655) ∧
      IsYear (2000 + 400 * -655) := by decide
  have hcentury : Calendar.sundaysOnFirst 1901 2000 = 171 := by decide +kernel
  obtain ⟨hcycle, hlater, hcount⟩ := sundays_recur_every_four_centuries isGregorian_gregorian
  refine ⟨isGregorian_gregorian, hrange, hcycle _ hrange.1 hrange.2, hyears, ?_⟩
  rw [hlater _ _ _ hyears.1 hyears.2.1 hyears.2.2.1 hyears.2.2.2, hcount]
  exact hcentury

end DateLibrary

end NumberPuzzles.Calendar
