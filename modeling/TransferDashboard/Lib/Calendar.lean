/-
The Gregorian calendar without end in either direction, by days since
1970-01-01.

Years are counted from March, so that the leap day is a year's last and the
lengths of the months follow one formula. A day is a year of this count and
a day in it (`firstDay_yearDay`), and that is a month and a day of the month
(`toDays_ofDays`).
-/
import Mathlib

namespace Calendar

structure Date where
  year : Int
  month : Int
  day : Int
  deriving DecidableEq, Repr

/-- The first day of a year counted from March, since 1 March of year 0. -/
def firstDay (year : Int) : Int :=
  146097 * (year / 400) + 36524 * (year % 400 / 100) + 1461 * (year % 100 / 4) + 365 * (year % 4)

/-- The year counted from March of a day, and the day in it. -/
def yearDay (days : Int) : Int × Int :=
  let dayOfEra := days % 146097
  let century := min (dayOfEra / 36524) 3
  let dayOfCentury := dayOfEra - 36524 * century
  let dayOfLeap := dayOfCentury % 1461
  let year := min (dayOfLeap / 365) 3
  (400 * (days / 146097) + 100 * century + 4 * (dayOfCentury / 1461) + year, dayOfLeap - 365 * year)

/-- The day of a year counted from March on which a month begins. -/
def monthStart (month : Int) : Int := (153 * month + 2) / 5

def ofDays (days : Int) : Date :=
  let (year, day) := yearDay (days + 719468)
  let month := (5 * day + 2) / 153
  { year := if month < 10 then year else year + 1
    month := if month < 10 then month + 3 else month - 9
    day := day - monthStart month + 1 }

def toDays (d : Date) : Int :=
  let year := if d.month ≤ 2 then d.year - 1 else d.year
  let month := if d.month ≤ 2 then d.month + 9 else d.month - 3
  firstDay year + monthStart month + d.day - 1 - 719468

theorem firstDay_eq {era century leap year : Int} (hc : 0 ≤ century ∧ century ≤ 3) (hl : 0 ≤ leap ∧ leap ≤ 24)
    (hy : 0 ≤ year ∧ year ≤ 3) : firstDay (400 * era + 100 * century + 4 * leap + year) =
      146097 * era + 36524 * century + 1461 * leap + 365 * year := by
  unfold firstDay
  omega

theorem firstDay_yearDay (days : Int) : firstDay (yearDay days).1 + (yearDay days).2 = days := by
  have hlo := Int.emod_nonneg days (show (146097 : Int) ≠ 0 by decide)
  have hhi := Int.emod_lt_of_pos days (show (0 : Int) < 146097 by decide)
  have hdiv := Int.mul_ediv_add_emod days 146097
  simp only [yearDay]
  rw [firstDay_eq (by omega) (by omega) (by omega)]
  omega

theorem yearDay_bounds (days : Int) : 0 ≤ (yearDay days).2 ∧ (yearDay days).2 ≤ 365 := by
  have hlo := Int.emod_nonneg days (show (146097 : Int) ≠ 0 by decide)
  have hhi := Int.emod_lt_of_pos days (show (0 : Int) < 146097 by decide)
  simp only [yearDay]
  omega

/-- A date is written with two digits for the month and the day. -/
theorem ofDays_bounds (days : Int) :
    (1 ≤ (ofDays days).month ∧ (ofDays days).month ≤ 12) ∧ 1 ≤ (ofDays days).day ∧ (ofDays days).day ≤ 31 := by
  have hb := yearDay_bounds (days + 719468)
  simp only [ofDays, monthStart]
  split <;> omega

theorem toDays_ofDays (days : Int) : toDays (ofDays days) = days := by
  have hb := yearDay_bounds (days + 719468)
  have hfirst := firstDay_yearDay (days + 719468)
  simp only [ofDays, toDays]
  by_cases h : (5 * (yearDay (days + 719468)).2 + 2) / 153 < 10
  · have hmonth : ¬ (5 * (yearDay (days + 719468)).2 + 2) / 153 + 3 ≤ 2 := by omega
    simp only [h, hmonth, if_true, if_false, Int.add_sub_cancel]
    omega
  · have hmonth : (5 * (yearDay (days + 719468)).2 + 2) / 153 - 9 ≤ 2 := by omega
    simp only [h, hmonth, if_true, if_false, Int.sub_add_cancel, Int.add_sub_cancel]
    omega

example : ofDays 17167 = ⟨2017, 1, 1⟩ := by decide

end Calendar
