import Futur3.Contracts.Holidays

/-! # Easter Sunday is a Sunday

The century corrections in the formulas of Easter balance the shift of the weekday
over a century, so the day they give is a Sunday in every year of the proleptic
calendar, and Good Friday is a Friday.
-/

namespace Futur3.Contracts

open Data Prelude

/-! ## The proleptic calendar -/

/-- The ordinal of a day, in any year: day 1 is January 1 of year 1. -/
def prolepticOrdinal (year month day : ℕ) : ℤ :=
  365 * ((year : ℤ) - 1) + ((year : ℤ) - 1) / 4 - ((year : ℤ) - 1) / 100 + ((year : ℤ) - 1) / 400 +
    Date.daysBeforeMonth year month + day

/-- Monday is 0. -/
def weekdayOf (ordinal : ℤ) : ℤ := (ordinal + 6) % 7

theorem toOrdinal_proleptic (d : Date) : (d.toOrdinal : ℤ) = prolepticOrdinal d.year d.month d.day := by
  obtain ⟨before, hYear⟩ := Nat.exists_eq_add_of_le' d.year_pos
  have hHundreds : before / 100 ≤ before / 4 := Nat.div_le_div_left (by decide) (by decide)
  unfold Date.toOrdinal Date.daysBeforeYear prolepticOrdinal
  rw [hYear]
  push_cast [Nat.add_sub_cancel, hHundreds.trans (Nat.le_add_left _ (before * 365))]
  simp only [add_sub_cancel_right]
  omega

theorem weekday_eq (d : Date) : (weekday d : ℤ) = weekdayOf (prolepticOrdinal d.year d.month d.day) := by
  rw [← toOrdinal_proleptic, weekday, weekdayOf]
  push_cast
  rfl

theorem leapDay_eq_one_iff (year : ℕ) :
    leapDay year = 1 ∧ (year % 4 = 0 ∧ (year % 100 ≠ 0 ∨ year % 400 = 0)) ∨
      leapDay year = 0 ∧ ¬(year % 4 = 0 ∧ (year % 100 ≠ 0 ∨ year % 400 = 0)) := by
  unfold leapDay isLeap
  split <;> simp_all

/-- The days of March and April are counted from the end of February, leap day included. -/
theorem prolepticOrdinal_spring (year : ℕ) {month : ℕ} (h : month = 3 ∨ month = 4) (day : ℕ) :
    prolepticOrdinal year month day =
      365 * (year : ℤ) + year / 4 - year / 100 + year / 400 - 306 + 31 * (month - 3 : ℤ) + day := by
  have hLeap := leapDay_eq_one_iff year
  have hMonth : (Date.daysBeforeMonth year month : ℤ) = 59 + 31 * (month - 3 : ℤ) + leapDay year := by
    rcases h with rfl | rfl <;> rw [daysBeforeMonth_eq year (by decide)] <;>
      simp [ordinaryDaysBefore]
  unfold prolepticOrdinal
  rw [hMonth]
  omega

/-! ## Easter -/

/-- The weekday of the formulas' offset is the one that the year's centuries and years shift by. -/
theorem easter_weekday (year : ℕ) :
    (365 * (year : ℤ) + year / 4 - year / 100 + year / 400 - 306 +
      31 * ((easterMonthDay year).1 - 3) + (easterMonthDay year).2) % 7 = 0 := by
  unfold easterMonthDay
  dsimp only
  generalize (19 * ((year : ℤ) % 19) + (year : ℤ) / 100 - (year : ℤ) / 100 / 4 -
    ((year : ℤ) / 100 - ((year : ℤ) / 100 + 8) / 25 + 1) / 3 + 15) % 30 = epact
  generalize hOffset : (32 + 2 * ((year : ℤ) / 100 % 4) + 2 * ((year : ℤ) % 100 / 4) - epact -
    (year : ℤ) % 100 % 4) % 7 = offset
  generalize hNumber : epact + offset - 7 * (((year : ℤ) % 19 + 11 * epact + 22 * offset) / 451) + 114 =
    number
  have hDay : 31 * (number / 31 - 3) + (number % 31 + 1) = number - 92 := by omega
  have hFours : (year : ℤ) / 4 = 25 * (year / 100) + year % 100 / 4 := by omega
  have hCenturies : (year : ℤ) / 100 = 4 * (year / 400) + year / 100 % 4 := by omega
  omega

/-- What the formulas give in a year. -/
structure EasterDay (year month day : ℕ) : Prop where
  formulas : easterMonthDay year = ((month : ℤ), (day : ℤ))
  month_valid : 1 ≤ month ∧ month ≤ 12
  day_valid : 1 ≤ day ∧ day ≤ daysInMonth year month
  window : month = 3 ∧ 22 ≤ day ∨ month = 4 ∧ day ≤ 25
  easter_sunday : weekdayOf (prolepticOrdinal year month day) = sunday
  goodFriday_friday : weekdayOf (prolepticOrdinal year month day - 2) = friday

theorem exists_easterDay (year : ℕ) : ∃ month day, EasterDay year month day := by
  have hWeekday := easter_weekday year
  have hWindow : ∃ month day : ℕ, easterMonthDay year = ((month : ℤ), (day : ℤ)) ∧
      (month = 3 ∧ 22 ≤ day ∧ day ≤ 31 ∨ month = 4 ∧ 1 ≤ day ∧ day ≤ 25) := by
    rcases easterMonthDay_bounds year with h | h
    · exact ⟨3, (easterMonthDay year).2.toNat, Prod.ext (by omega) (by dsimp only; omega), by omega⟩
    · exact ⟨4, (easterMonthDay year).2.toNat, Prod.ext (by omega) (by dsimp only; omega), by omega⟩
  obtain ⟨month, day, hFormulas, hDay⟩ := hWindow
  have hMonth : month = 3 ∨ month = 4 := by omega
  have hOrdinal := prolepticOrdinal_spring year hMonth day
  rw [hFormulas] at hWeekday
  have hLength : daysInMonth year month = if month = 3 then 31 else 30 := by
    rcases hMonth with rfl | rfl <;> rfl
  refine ⟨month, day, hFormulas, by omega, ?_, by omega, ?_, ?_⟩
  · rw [hLength]
    split <;> omega
  · rw [hOrdinal, weekdayOf, sunday]
    omega
  · rw [hOrdinal, weekdayOf, friday]
    omega

/-! ## Good Friday -/

/-- The dates that a year of the `datetime` module has for Easter and Good Friday. -/
structure GoodFriday (year : ℕ) (easter goodFriday : Date) : Prop where
  computed : easterSunday year = .ok easter
  day : EasterDay year easter.month easter.day
  easter_sunday : weekday easter = sunday
  two_earlier : daysBefore 2 easter = .ok goodFriday
  goodFriday_friday : weekday goodFriday = friday
  not_weekend : ¬saturday ≤ weekday goodFriday

theorem exists_goodFriday {year : ℕ} (hYear : 1 ≤ year ∧ year ≤ 9999) :
    ∃ easter goodFriday, GoodFriday year easter goodFriday := by
  obtain ⟨month, day, h⟩ := exists_easterDay year
  obtain ⟨easter, hDate, rfl, rfl, rfl⟩ := mkDate_ok day hYear h.month_valid h.day_valid
  have hEaster : easterSunday easter.year = .ok easter := by
    unfold easterSunday
    rw [h.formulas]
    exact hDate
  have hSunday := weekday_eq easter
  rw [h.easter_sunday] at hSunday
  obtain ⟨goodFriday, hGoodFriday, hOrdinal⟩ := daysBefore_ok (k := 2) (d := easter) (by
    have hWindow := h.window
    have hDay := h.day_valid
    have hApril : easter.month = 4 → 2 ≤ Date.daysBeforeMonth easter.year easter.month := by
      intro hMonth
      rw [hMonth, daysBeforeMonth_eq easter.year (by decide)]
      simp [ordinaryDaysBefore]
      omega
    unfold Date.toOrdinal
    omega)
  have hFriday : weekday goodFriday = friday := by
    have hSunday' : weekday easter = sunday := by exact_mod_cast hSunday
    unfold weekday sunday at hSunday'
    unfold weekday friday
    omega
  refine ⟨easter, goodFriday, hEaster, h, by exact_mod_cast hSunday, hGoodFriday, hFriday, ?_⟩
  rw [hFriday]
  decide

theorem GoodFriday.mem {year : ℕ} {easter goodFriday : Date} (h : GoodFriday year easter goodFriday)
    {days : List Date} (hDays : anchoredHolidays year = .ok days) : goodFriday ∈ days := by
  unfold anchoredHolidays at hDays
  simp only [except_bind_ok_iff, h.computed, Except.ok.injEq, exists_eq_left', h.two_earlier] at hDays
  obtain ⟨newYear, -, king, -, washington, -, memorial, -, independence, -, labor, -, thanksgiving, -,
    christmas, -, hReturn⟩ := hDays
  split at hReturn
  · obtain ⟨juneteenth, -, hReturn⟩ := except_bind_ok_iff.mp hReturn
    obtain rfl := except_pure_ok_iff.mp hReturn
    simp
  · obtain rfl := except_pure_ok_iff.mp hReturn
    simp

/-- The formulas give a Sunday in every year, and in a year that has dates the holiday two days before
it is a Friday. -/
theorem easterSunday_sunday (year : ℕ) :
    (∃ month day, EasterDay year month day) ∧
      (1 ≤ year ∧ year ≤ 9999 → ∃ easter goodFriday days, GoodFriday year easter goodFriday ∧
        anchoredHolidays year = .ok days ∧ goodFriday ∈ days) := by
  refine ⟨exists_easterDay year, fun hYear => ?_⟩
  obtain ⟨easter, goodFriday, h⟩ := exists_goodFriday hYear
  obtain ⟨days, hDays, -⟩ := anchoredHolidays_ok hYear
  exact ⟨easter, goodFriday, days, h, hDays, h.mem hDays⟩

end Futur3.Contracts
