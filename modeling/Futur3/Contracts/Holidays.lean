import Futur3.Contracts.TradingCalendar
import Futur3.Prelude.Method
import Mathlib.Data.List.GetD
import Mathlib.Tactic.IntervalCases

/-! # Where the holidays of a year lie

Each holiday lies in a window of its year, and the windows are at least a week
apart. Christmas and New Year's are observed on the same day of the week, so
any two holidays are at least a week apart.
-/

namespace Futur3.Contracts

open Data Prelude

/-! ## Dates by their ordinals -/

/-- The ordinal of the day before the first of a month. -/
def monthBase (year month : ℕ) : ℕ := Date.daysBeforeYear year + Date.daysBeforeMonth year month

theorem toOrdinal_eq (d : Date) : d.toOrdinal = monthBase d.year d.month + d.day := rfl

theorem daysBeforeYear_of_lt {y y' : ℕ} (hy : 1 ≤ y) (h : y < y') :
    Date.daysBeforeYear y + 365 ≤ Date.daysBeforeYear y' := by
  have hNext := daysBeforeYear_succ hy
  have hMono := daysBeforeYear_mono (Nat.le_add_left 1 y) h
  omega

def leapDay (year : ℕ) : ℕ := if isLeap year then 1 else 0

theorem daysBeforeYear_next {y : ℕ} (hy : 1 ≤ y) :
    Date.daysBeforeYear (y + 1) = Date.daysBeforeYear y + 365 + leapDay y := by
  rw [daysBeforeYear_succ hy, leapDay, Nat.add_assoc]

/-- The days of the year before a month, in an ordinary year. -/
def ordinaryDaysBefore : ℕ → ℕ
  | 1 => 0
  | 2 => 31
  | 3 => 59
  | 4 => 90
  | 5 => 120
  | 6 => 151
  | 7 => 181
  | 8 => 212
  | 9 => 243
  | 10 => 273
  | 11 => 304
  | _ => 334

theorem daysBeforeMonth_eq (year : ℕ) {month : ℕ} (h : 1 ≤ month ∧ month ≤ 12) :
    Date.daysBeforeMonth year month =
      ordinaryDaysBefore month + if month ≤ 2 then 0 else leapDay year := by
  obtain ⟨hLow, hHigh⟩ := h
  unfold Date.daysBeforeMonth leapDay
  interval_cases month <;> cases hLeap : isLeap year <;>
    simp [List.range_succ, daysInMonth, hLeap, ordinaryDaysBefore]

theorem mkDate_ok {year month : ℕ} (day : ℕ) (hYear : 1 ≤ year ∧ year ≤ 9999)
    (hMonth : 1 ≤ month ∧ month ≤ 12) (hDay : 1 ≤ day ∧ day ≤ daysInMonth year month) :
    ∃ d : Date, mkDate year month day = .ok d ∧ d.year = year ∧ d.month = month ∧ d.day = day := by
  unfold mkDate
  rw [dif_pos ⟨hYear, hMonth, hDay⟩]
  exact ⟨_, rfl, rfl, rfl, rfl⟩

theorem exists_prev? {d : Date} (h : 1 < d.toOrdinal) : ∃ e, d.prev? = some e := by
  unfold Date.prev?
  split_ifs with hDay hMonth hYear
  · exact ⟨_, rfl⟩
  · exact ⟨_, rfl⟩
  · exact ⟨_, rfl⟩
  · have hFirstDay : d.day = 1 := by
      have := d.day_pos
      omega
    have hFirstMonth : d.month = 1 := by
      have := d.month_pos
      omega
    have hFirstYear : d.year = 1 := by
      have := d.year_pos
      omega
    rw [toOrdinal_eq, hFirstDay, hFirstMonth, hFirstYear] at h
    exact absurd h (by decide)

theorem exists_next? {d : Date} (h : d.toOrdinal < Date.daysBeforeYear 10000) :
    ∃ e, d.next? = some e := by
  unfold Date.next?
  split_ifs with hDay hMonth hYear
  · exact ⟨_, rfl⟩
  · exact ⟨_, rfl⟩
  · exact ⟨_, rfl⟩
  · have hLastMonth : d.month = 12 := by
      have := d.month_le
      omega
    have hLastYear : d.year = 9999 := by
      have := d.year_le
      omega
    have hDays : daysInMonth d.year d.month ≤ d.day := by omega
    rw [toOrdinal_eq, hLastMonth, hLastYear] at h
    rw [hLastMonth, hLastYear] at hDays
    have hBase : monthBase 9999 12 + 31 = Date.daysBeforeYear 10000 := by decide
    have hDecember : daysInMonth 9999 12 = 31 := by decide
    omega

theorem dayBefore_ok {d : Date} (h : 1 < d.toOrdinal) :
    ∃ e, dayBefore d = .ok e ∧ e.toOrdinal + 1 = d.toOrdinal := by
  obtain ⟨e, he⟩ := exists_prev? h
  refine ⟨e, ?_, Date.toOrdinal_prev? he⟩
  unfold dayBefore
  rw [he]
  rfl

theorem dayAfter_ok {d : Date} (h : d.toOrdinal < Date.daysBeforeYear 10000) :
    ∃ e, dayAfter d = .ok e ∧ e.toOrdinal = d.toOrdinal + 1 := by
  obtain ⟨e, he⟩ := exists_next? h
  refine ⟨e, ?_, Date.toOrdinal_next? he⟩
  unfold dayAfter
  rw [he]
  rfl

theorem daysBefore_ok {k : ℕ} {d : Date} (h : k < d.toOrdinal) :
    ∃ e, daysBefore k d = .ok e ∧ e.toOrdinal + k = d.toOrdinal := by
  induction k generalizing d with
  | zero => exact ⟨d, rfl, rfl⟩
  | succ k ih =>
    obtain ⟨e, he, hOrdinal⟩ := dayBefore_ok (d := d) (by omega)
    obtain ⟨e', he', hOrdinal'⟩ := ih (d := e) (by omega)
    refine ⟨e', ?_, by omega⟩
    unfold daysBefore
    rw [he]
    exact he'

theorem daysInMonth_ge (year month : ℕ) : 28 ≤ daysInMonth year month := by
  unfold daysInMonth
  split_ifs <;> omega

theorem toOrdinal_of {d : Date} {year month day : ℕ} (hYear : d.year = year)
    (hMonth : d.month = month) (hDay : d.day = day) : d.toOrdinal = monthBase year month + day := by
  rw [toOrdinal_eq, hYear, hMonth, hDay]

/-! ## The computed days -/

/-- The ordinal on which a holiday of some ordinal is observed. -/
def observedOrdinal (o : ℕ) : ℕ :=
  if (o + 6) % 7 = saturday then o - 1 else if (o + 6) % 7 = sunday then o + 1 else o

theorem observedOrdinal_bounds (o : ℕ) : o - 1 ≤ observedOrdinal o ∧ observedOrdinal o ≤ o + 1 := by
  unfold observedOrdinal
  split_ifs <;> omega

theorem observedOrdinal_add_week {o : ℕ} (h : 1 ≤ o) :
    observedOrdinal (o + 7) = observedOrdinal o + 7 := by
  unfold observedOrdinal
  rw [show o + 7 + 6 = o + 6 + 7 by omega, Nat.add_mod_right]
  split_ifs <;> omega

theorem observed_ok {d : Date} (hHigh : d.toOrdinal < Date.daysBeforeYear 10000) :
    ∃ e, observed d = .ok e ∧ e.toOrdinal = observedOrdinal d.toOrdinal := by
  unfold observed observedOrdinal weekday
  split_ifs
  · -- the first day of all is a Monday
    have hSaturday : (d.toOrdinal + 6) % 7 = 5 := by assumption
    obtain ⟨e, he, hOrdinal⟩ := dayBefore_ok (d := d) (by omega)
    exact ⟨e, he, by omega⟩
  · exact dayAfter_ok hHigh
  · exact ⟨d, rfl, rfl⟩

theorem observedOn_ok {year month day : ℕ} (hYear : 1 ≤ year ∧ year ≤ 9999)
    (hMonth : 1 ≤ month ∧ month ≤ 12) (hDay : 1 ≤ day ∧ day ≤ 28) :
    ∃ e, observedOn year month day = .ok e ∧
      e.toOrdinal = observedOrdinal (monthBase year month + day) := by
  obtain ⟨d, hd, hy, hm, hDayEq⟩ := mkDate_ok day hYear hMonth
    ⟨hDay.1, hDay.2.trans (daysInMonth_ge year month)⟩
  have hOrdinal := toOrdinal_of hy hm hDayEq
  have hNext := daysBeforeYear_next hYear.1
  have hEnd := daysBeforeYear_mono (Nat.le_add_left 1 year) (show year + 1 ≤ 10000 by omega)
  have hMonths := daysBeforeMonth_eq year hMonth
  have hTable : ordinaryDaysBefore month ≤ 334 := by
    obtain ⟨hLow, hHigh⟩ := hMonth
    interval_cases month <;> decide
  have hLeap : (if month ≤ 2 then 0 else leapDay year) ≤ leapDay year := by split_ifs <;> omega
  unfold monthBase at hOrdinal ⊢
  obtain ⟨e, he, hObserved⟩ := observed_ok (d := d) (by omega)
  refine ⟨e, ?_, hObserved.trans (congrArg observedOrdinal hOrdinal)⟩
  unfold observedOn
  rw [hd]
  exact he

theorem daysUntil_lt (wanted actual : ℕ) : daysUntil wanted actual < 7 :=
  Nat.mod_lt _ (by decide)

theorem nthWeekday_ok {year month n : ℕ} (wanted : ℕ) (hYear : 1 ≤ year ∧ year ≤ 9999)
    (hMonth : 1 ≤ month ∧ month ≤ 12) (hn : 1 ≤ n ∧ n ≤ 4) :
    ∃ e : Date, nthWeekday year month wanted n = .ok e ∧ e.year = year ∧ e.month = month ∧
      1 + (n - 1) * 7 ≤ e.day ∧ e.day ≤ 7 + (n - 1) * 7 := by
  have hDays := daysInMonth_ge year month
  obtain ⟨first, hFirst, -, -, -⟩ := mkDate_ok 1 hYear hMonth ⟨le_refl 1, by omega⟩
  have hOffset := daysUntil_lt wanted (weekday first)
  obtain ⟨e, he, hy, hm, hDay⟩ := mkDate_ok (1 + daysUntil wanted (weekday first) + (n - 1) * 7)
    hYear hMonth ⟨by omega, by omega⟩
  refine ⟨e, ?_, hy, hm, by omega, by omega⟩
  unfold nthWeekday
  rw [hFirst]
  exact he

theorem lastWeekday_ok {year month : ℕ} (wanted : ℕ) (hYear : 1 ≤ year ∧ year ≤ 9999)
    (hMonth : 1 ≤ month ∧ month ≤ 12) :
    ∃ e : Date, lastWeekday year month wanted = .ok e ∧
      monthBase year month + daysInMonth year month ≤ e.toOrdinal + 6 ∧
      e.toOrdinal ≤ monthBase year month + daysInMonth year month := by
  have hDays := daysInMonth_ge year month
  obtain ⟨last, hLast, hy, hm, hDay⟩ := mkDate_ok (daysInMonth year month) hYear hMonth ⟨by omega, le_refl _⟩
  have hOrdinal := toOrdinal_of hy hm hDay
  have hOffset := daysUntil_lt (weekday last) wanted
  obtain ⟨e, he, hBack⟩ := daysBefore_ok (k := daysUntil (weekday last) wanted) (d := last) (by omega)
  refine ⟨e, ?_, by omega, by omega⟩
  unfold lastWeekday
  rw [hLast]
  exact he

/-- Easter Sunday is between March 22nd and April 25th. -/
theorem easterMonthDay_bounds (year : ℤ) :
    (easterMonthDay year).1 = 3 ∧ 22 ≤ (easterMonthDay year).2 ∧ (easterMonthDay year).2 ≤ 31 ∨
      (easterMonthDay year).1 = 4 ∧ 1 ≤ (easterMonthDay year).2 ∧ (easterMonthDay year).2 ≤ 25 := by
  unfold easterMonthDay
  dsimp only
  have hGolden : 0 ≤ year % 19 ∧ year % 19 ≤ 18 := by omega
  generalize year % 19 = golden at hGolden ⊢
  generalize hEpact : (19 * golden + year / 100 - year / 100 / 4 -
    (year / 100 - (year / 100 + 8) / 25 + 1) / 3 + 15) % 30 = epact
  have hEpactBounds : 0 ≤ epact ∧ epact ≤ 29 := by omega
  generalize hOffset : (32 + 2 * (year / 100 % 4) + 2 * (year % 100 / 4) - epact -
    year % 100 % 4) % 7 = offset
  have hOffsetBounds : 0 ≤ offset ∧ offset ≤ 6 := by omega
  clear hEpact hOffset
  omega

theorem easterSunday_ok {year : ℕ} (hYear : 1 ≤ year ∧ year ≤ 9999) :
    ∃ e : Date, easterSunday year = .ok e ∧ monthBase year 3 + 22 ≤ e.toOrdinal ∧
      e.toOrdinal ≤ monthBase year 4 + 25 := by
  have hApril : monthBase year 4 = monthBase year 3 + 31 := by
    have hMonths : Date.daysBeforeMonth year 4 = Date.daysBeforeMonth year 3 + daysInMonth year 3 :=
      daysBeforeMonth_succ (by decide)
    have hMarch : daysInMonth year 3 = 31 := by simp [daysInMonth]
    unfold monthBase
    omega
  unfold easterSunday
  rcases easterMonthDay_bounds year with ⟨hMonth, hLow, hHigh⟩ | ⟨hMonth, hLow, hHigh⟩
  · rw [hMonth]
    have hMarch : daysInMonth year 3 = 31 := by simp [daysInMonth]
    obtain ⟨e, he, hy, hm, hDay⟩ := mkDate_ok (easterMonthDay year).2.toNat hYear
      (show 1 ≤ 3 ∧ 3 ≤ 12 by decide) ⟨by omega, by omega⟩
    have hOrdinal := toOrdinal_of hy hm hDay
    exact ⟨e, he, by omega, by omega⟩
  · rw [hMonth]
    have hDays : daysInMonth year 4 = 30 := by simp [daysInMonth]
    obtain ⟨e, he, hy, hm, hDay⟩ := mkDate_ok (easterMonthDay year).2.toNat hYear
      (show 1 ≤ 4 ∧ 4 ≤ 12 by decide) ⟨by omega, by omega⟩
    have hOrdinal := toOrdinal_of hy hm hDay
    exact ⟨e, he, by omega, by omega⟩

/-! ## Windows -/

/-- The first and the last day of the year on which each holiday can be observed, in
an ordinary year, in the order of the year. -/
def slotStart : ℕ → ℕ
  | 0 => 0
  | 1 => 15
  | 2 => 46
  | 3 => 79
  | 4 => 145
  | 5 => 169
  | 6 => 184
  | 7 => 244
  | 8 => 326
  | _ => 358

def slotEnd : ℕ → ℕ
  | 0 => 2
  | 1 => 21
  | 2 => 52
  | 3 => 113
  | 4 => 151
  | 5 => 171
  | 6 => 186
  | 7 => 250
  | 8 => 332
  | _ => 360

def slotShift (year k : ℕ) : ℕ := if k ≤ 2 then 0 else leapDay year

def InSlot (year k o : ℕ) : Prop :=
  Date.daysBeforeYear year + slotShift year k + slotStart k ≤ o ∧
    o ≤ Date.daysBeforeYear year + slotShift year k + slotEnd k

theorem slots_apart : ∀ k < 10, ∀ k' < 10, k < k' → slotEnd k + 7 ≤ slotStart k' := by decide

theorem slotShift_mono (year : ℕ) {k k' : ℕ} (h : k ≤ k') : slotShift year k ≤ slotShift year k' := by
  unfold slotShift
  split_ifs <;> omega

theorem InSlot.add_week_le {year k k' a b : ℕ} (ha : InSlot year k a) (hb : InSlot year k' b)
    (hk' : k' < 10) (h : k < k') : a + 7 ≤ b := by
  have hApart := slots_apart k (h.trans hk') k' hk' h
  have hShift := slotShift_mono year h.le
  have := ha.2
  have := hb.1
  omega

theorem inSlot_observed {year month day k : ℕ} (hMonth : 1 ≤ month ∧ month ≤ 12)
    (hSlot : slotStart k = ordinaryDaysBefore month + day - 1 ∧
      slotEnd k = ordinaryDaysBefore month + day + 1 ∧ 1 ≤ day ∧ (k ≤ 2 ↔ month ≤ 2)) :
    InSlot year k (observedOrdinal (monthBase year month + day)) := by
  have hBounds := observedOrdinal_bounds (monthBase year month + day)
  have hMonths := daysBeforeMonth_eq year hMonth
  unfold InSlot slotShift
  unfold monthBase at hBounds ⊢
  split_ifs at hMonths ⊢ <;> omega

theorem inSlot_nth {e : Date} {year month n k : ℕ} (hMonth : 1 ≤ month ∧ month ≤ 12)
    (hSlot : slotStart k = ordinaryDaysBefore month + 1 + (n - 1) * 7 ∧
      slotEnd k = ordinaryDaysBefore month + 7 + (n - 1) * 7 ∧ (k ≤ 2 ↔ month ≤ 2))
    (h : e.year = year ∧ e.month = month ∧ 1 + (n - 1) * 7 ≤ e.day ∧ e.day ≤ 7 + (n - 1) * 7) :
    InSlot year k e.toOrdinal := by
  obtain ⟨hy, hm, hLow, hHigh⟩ := h
  have hOrdinal := toOrdinal_of hy hm rfl
  have hMonths := daysBeforeMonth_eq year hMonth
  unfold monthBase at hOrdinal
  unfold InSlot slotShift
  split_ifs at hMonths ⊢ <;> omega

theorem inSlot_goodFriday {year easter goodFriday : ℕ} (hLow : monthBase year 3 + 22 ≤ easter)
    (hHigh : easter ≤ monthBase year 4 + 25) (hEq : goodFriday + 2 = easter) :
    InSlot year 3 goodFriday := by
  have hMarch : Date.daysBeforeMonth year 3 = 59 + leapDay year := daysBeforeMonth_eq year (by decide)
  have hApril : Date.daysBeforeMonth year 4 = 90 + leapDay year := daysBeforeMonth_eq year (by decide)
  have hShift : slotShift year 3 = leapDay year := rfl
  have hStart : slotStart 3 = 79 ∧ slotEnd 3 = 113 := by decide
  unfold monthBase at hLow hHigh
  unfold InSlot
  omega

theorem inSlot_memorial {year memorial : ℕ}
    (hLow : monthBase year 5 + daysInMonth year 5 ≤ memorial + 6)
    (hHigh : memorial ≤ monthBase year 5 + daysInMonth year 5) : InSlot year 4 memorial := by
  have hMay : Date.daysBeforeMonth year 5 = 120 + leapDay year := daysBeforeMonth_eq year (by decide)
  have hDays : daysInMonth year 5 = 31 := by simp [daysInMonth]
  have hShift : slotShift year 4 = leapDay year := rfl
  have hStart : slotStart 4 = 145 ∧ slotEnd 4 = 151 := by decide
  unfold monthBase at hLow hHigh
  unfold InSlot
  omega

/-- The holidays of a year by their windows. -/
structure HolidayTable (year : ℕ) (days : List Date) where
  holiday : ℕ → Date
  covers : ∀ d ∈ days, ∃ k < 10, d = holiday k
  inSlot : ∀ k < 10, InSlot year k (holiday k).toOrdinal
  newYear : (holiday 0).toOrdinal = observedOrdinal (Date.daysBeforeYear year + 1)
  christmas : (holiday 9).toOrdinal + 7 = observedOrdinal (Date.daysBeforeYear (year + 1) + 1)

theorem holidayTable_of_slots {year : ℕ} {holidays days : List Date} {last : Date}
    (hLength : holidays.length = 10) (hDays : days ⊆ holidays)
    (hSlots : ∀ k < 10, InSlot year k (holidays.getD k last).toOrdinal)
    (hNewYear : (holidays.getD 0 last).toOrdinal = observedOrdinal (Date.daysBeforeYear year + 1))
    (hChristmas : (holidays.getD 9 last).toOrdinal + 7 =
      observedOrdinal (Date.daysBeforeYear (year + 1) + 1)) : Nonempty (HolidayTable year days) := by
  refine ⟨fun k => holidays.getD k last, ?_, hSlots, hNewYear, hChristmas⟩
  intro d hd
  obtain ⟨k, hk, rfl⟩ := List.getElem_of_mem (hDays hd)
  exact ⟨k, hLength ▸ hk, (List.getD_eq_getElem _ _ hk).symm⟩

theorem christmas_week {year : ℕ} (hYear : 1 ≤ year) :
    observedOrdinal (monthBase year 12 + 25) + 7 =
      observedOrdinal (Date.daysBeforeYear (year + 1) + 1) := by
  have hMonths : Date.daysBeforeMonth year 12 = 334 + leapDay year :=
    daysBeforeMonth_eq year (by decide)
  have hNext := daysBeforeYear_next hYear
  have hWeek : monthBase year 12 + 25 + 7 = Date.daysBeforeYear (year + 1) + 1 := by
    unfold monthBase
    omega
  rw [← observedOrdinal_add_week (Nat.le_add_left 1 _), hWeek]

theorem anchoredHolidays_ok {year : ℕ} (hYear : 1 ≤ year ∧ year ≤ 9999) :
    ∃ days, anchoredHolidays year = .ok days ∧ Nonempty (HolidayTable year days) := by
  obtain ⟨newYear, hNewYear, newYear_eq⟩ := observedOn_ok hYear (show 1 ≤ 1 ∧ 1 ≤ 12 by decide)
    (show 1 ≤ 1 ∧ 1 ≤ 28 by decide)
  obtain ⟨king, hKing, king_in⟩ := nthWeekday_ok monday (n := 3) hYear
    (show 1 ≤ 1 ∧ 1 ≤ 12 by decide) (by decide)
  obtain ⟨washington, hWashington, washington_in⟩ := nthWeekday_ok monday (n := 3) hYear
    (show 1 ≤ 2 ∧ 2 ≤ 12 by decide) (by decide)
  obtain ⟨easter, hEaster, easter_low, easter_high⟩ := easterSunday_ok hYear
  obtain ⟨goodFriday, hGoodFriday, goodFriday_eq⟩ := daysBefore_ok (k := 2) (d := easter) (by omega)
  obtain ⟨memorial, hMemorial, memorial_low, memorial_high⟩ := lastWeekday_ok monday hYear
    (show 1 ≤ 5 ∧ 5 ≤ 12 by decide)
  obtain ⟨independence, hIndependence, independence_eq⟩ := observedOn_ok hYear
    (show 1 ≤ 7 ∧ 7 ≤ 12 by decide) (show 1 ≤ 4 ∧ 4 ≤ 28 by decide)
  obtain ⟨labor, hLabor, labor_in⟩ := nthWeekday_ok monday (n := 1) hYear
    (show 1 ≤ 9 ∧ 9 ≤ 12 by decide) (by decide)
  obtain ⟨thanksgiving, hThanksgiving, thanksgiving_in⟩ := nthWeekday_ok thursday (n := 4)
    hYear (show 1 ≤ 11 ∧ 11 ≤ 12 by decide) (by decide)
  obtain ⟨christmas, hChristmas, christmas_eq⟩ := observedOn_ok hYear
    (show 1 ≤ 12 ∧ 12 ≤ 12 by decide) (show 1 ≤ 25 ∧ 25 ≤ 28 by decide)
  obtain ⟨juneteenth, hJuneteenth, juneteenth_eq⟩ := observedOn_ok hYear
    (show 1 ≤ 6 ∧ 6 ≤ 12 by decide) (show 1 ≤ 19 ∧ 19 ≤ 28 by decide)
  have hSlots : ∀ k < 10, InSlot year k ([newYear, king, washington, goodFriday, memorial, juneteenth,
      independence, labor, thanksgiving, christmas].getD k christmas).toOrdinal := by
    intro k hk
    interval_cases k
    · exact newYear_eq ▸ inSlot_observed (by decide) (by decide)
    · exact inSlot_nth (by decide) (by decide) king_in
    · exact inSlot_nth (by decide) (by decide) washington_in
    · exact inSlot_goodFriday easter_low easter_high goodFriday_eq
    · exact inSlot_memorial memorial_low memorial_high
    · exact juneteenth_eq ▸ inSlot_observed (by decide) (by decide)
    · exact independence_eq ▸ inSlot_observed (by decide) (by decide)
    · exact inSlot_nth (by decide) (by decide) labor_in
    · exact inSlot_nth (by decide) (by decide) thanksgiving_in
    · exact christmas_eq ▸ inSlot_observed (by decide) (by decide)
  have hWeek : christmas.toOrdinal + 7 = observedOrdinal (Date.daysBeforeYear (year + 1) + 1) := by
    rw [christmas_eq, christmas_week hYear.1]
  have hTable : ∀ {days : List Date}, days ⊆ [newYear, king, washington, goodFriday, memorial,
      juneteenth, independence, labor, thanksgiving, christmas] →
      Nonempty (HolidayTable year days) :=
    fun hDays => holidayTable_of_slots rfl hDays hSlots newYear_eq hWeek
  unfold anchoredHolidays
  rw [hNewYear, hKing, hWashington, hEaster]
  by_cases hFrom : juneteenthFirstCmeYear ≤ year
  · refine ⟨[newYear, king, washington, goodFriday, memorial, independence, labor, thanksgiving,
      christmas] ++ [juneteenth], ?_, hTable (by simp)⟩
    simp only [except_ok_bind, hGoodFriday, hMemorial, hIndependence, hLabor, hThanksgiving, hChristmas,
      hJuneteenth, if_pos hFrom]
    rfl
  · refine ⟨[newYear, king, washington, goodFriday, memorial, independence, labor, thanksgiving,
      christmas], ?_, hTable (by simp)⟩
    simp only [except_ok_bind, hGoodFriday, hMemorial, hIndependence, hLabor, hThanksgiving, hChristmas,
      if_neg hFrom]
    rfl

end Futur3.Contracts
