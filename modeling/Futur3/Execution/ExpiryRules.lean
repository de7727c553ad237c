import Futur3.Contracts.TradingDays
import Futur3.Execution.RollBuilder

/-! # What the expiry rules derive

On the calendar without overrides every rule finds its days. The last trading
day of a contract is a trading day of its delivery month, and of the month
before it for crude oil; a first notice day that anchors a roll is a trading day
of the month before delivery.
-/

namespace Futur3.Execution

open Data Contracts Prelude Landings

namespace RollCalendarBuilder

def default : RollCalendarBuilder := ⟨.default⟩

@[simp] theorem default_cal : default.cal = CMETradingCalendar.default := rfl

def InMonth (year month : ℕ) (d : Date) : Prop := d.year = year ∧ d.month = month

/-- Years so far inside the range of dates that no shift leaves it. -/
def Inner (year : ℕ) : Prop := 9 ≤ year ∧ year ≤ 9990

variable {year month k m : ℕ} {d e : Date}

theorem InMonth.roomy (h : InMonth year month d) (hYear : Inner year) : Roomy d.toOrdinal := by
  obtain ⟨hLow, hHigh⟩ := hYear
  have hStart := daysBeforeYear_mono (show 1 ≤ 4 by decide) (show 4 ≤ d.year by rw [h.1]; omega)
  have hStop := daysBeforeYear_mono (Nat.le_add_left 1 d.year)
    (show d.year + 1 ≤ 9997 by rw [h.1]; omega)
  have hEnd := d.toOrdinal_le_year
  have hOrdinal := toOrdinal_eq d
  unfold monthBase at hOrdinal
  exact ⟨by omega, by omega⟩

/-! ## Days of the month -/

/-- A trading day that at most so many trading days lie from up to the date. -/
def Reaches (k : ℕ) (d e : Date) : Prop := ∃ n ≤ k, Before IsOpen n d.toOrdinal e.toOrdinal

theorem Reaches.isOpen (h : Reaches k d e) : IsOpen e.toOrdinal := by
  obtain ⟨n, -, hBefore⟩ := h
  exact hBefore.lands

theorem Reaches.inMonth (h : Reaches k d e) (hIn : InMonth year month d) (hYear : Inner year)
    (weeks : ℕ) (hk : k ≤ 4 * weeks) (hDay : 7 * weeks < d.day) : InMonth year month e := by
  obtain ⟨n, hn, hBefore⟩ := h
  obtain ⟨hSameYear, hSameMonth⟩ := same_month_of_before hBefore (hIn.roomy hYear) hDay (hn.trans hk)
  exact ⟨hSameYear.trans hIn.1, hSameMonth.trans hIn.2⟩

theorem Reaches.shift (h : Reaches k d e) (hIn : InMonth year month e) (hYear : Inner year)
    (hm : 1 ≤ m ∧ m ≤ 40) :
    ∃ e', CMETradingCalendar.default.addTradingDays e (-m) = .ok e' ∧ Reaches (k + m) d e' := by
  obtain ⟨n, hn, hBefore⟩ := h
  have hRoomy := hIn.roomy hYear
  obtain ⟨e', he', hShift⟩ := addTradingDays_backward hRoomy.1 hRoomy.le_last hm
  exact ⟨e', he', n + m, Nat.add_le_add_right hn m, hBefore.trans hShift⟩

/-- A closed day gives way to the trading day before it, an open one stays. -/
theorem guard_ok (hIn : InMonth year month d) (hYear : Inner year) :
    ∃ e, default.guard d = .ok e ∧ Reaches 1 d e := by
  have hDayYear : d.year ≤ 9998 := by
    obtain ⟨-, hHigh⟩ := hYear
    rw [hIn.1]
    omega
  obtain ⟨answer, hAnswer, hOpen⟩ := isTradingDay_returns hDayYear
  obtain ⟨e, he, hBefore⟩ := prevTradingDay_backward (hIn.roomy hYear)
  unfold guard
  rw [default_cal, hAnswer, except_ok_bind]
  cases answer with
  | false => exact ⟨e, he, 1, le_refl 1, hBefore⟩
  | true => exact ⟨d, rfl, 0, Nat.zero_le 1, .refl (hOpen.mp rfl)⟩

theorem Inner.isYear (h : Inner year) : 1 ≤ year ∧ year ≤ 9999 :=
  ⟨le_trans (by decide) h.1, h.2.trans (by decide)⟩

theorem mkDate_inMonth (day : ℕ) (hMonth : 1 ≤ month ∧ month ≤ 12) (hYear : Inner year)
    (hDay : 1 ≤ day ∧ day ≤ daysInMonth year month) :
    ∃ d, mkDate year month day = .ok d ∧ InMonth year month d ∧ d.day = day := by
  obtain ⟨d, hd, hy, hm, hEq⟩ := mkDate_ok day hYear.isYear hMonth hDay
  exact ⟨d, hd, ⟨hy, hm⟩, hEq⟩

/-- The weeks of the month before its n-th weekday have passed. -/
theorem nthWeekday_inMonth (wanted : ℕ) {n : ℕ} (hMonth : 1 ≤ month ∧ month ≤ 12)
    (hYear : Inner year) (hn : 1 ≤ n ∧ n ≤ 4) :
    ∃ d, nthWeekday year month wanted n = .ok d ∧ InMonth year month d ∧ 7 * (n - 1) < d.day := by
  obtain ⟨d, hd, hy, hm, hDay, -⟩ := nthWeekday_ok wanted hYear.isYear hMonth hn
  exact ⟨d, hd, ⟨hy, hm⟩, by omega⟩

theorem lastFriday_inMonth (hMonth : 1 ≤ month ∧ month ≤ 12) (hYear : Inner year) :
    ∃ d, lastFriday year month = .ok d ∧ InMonth year month d ∧ 7 * 3 < d.day := by
  have hDays := daysInMonth_ge year month
  obtain ⟨last, -, hIn, hDay⟩ := mkDate_inMonth (daysInMonth year month) hMonth hYear
    ⟨by omega, le_refl _⟩
  obtain ⟨d, hd, hLow, hHigh⟩ := lastWeekday_ok friday hYear.isYear hMonth
  have hLast := toOrdinal_of hIn.1 hIn.2 hDay
  obtain ⟨hy, hm⟩ := month_eq_of_between (d := last) (e := d) (by omega) (by omega)
  have hOrdinal := toOrdinal_of (hy.trans hIn.1) (hm.trans hIn.2) (rfl : d.day = d.day)
  exact ⟨d, hd, ⟨hy.trans hIn.1, hm.trans hIn.2⟩, by omega⟩

theorem lastTradingDayOfMonth_ok (hMonth : 1 ≤ month ∧ month ≤ 12) (hYear : Inner year) :
    ∃ last e, default.lastTradingDayOfMonth year month = .ok e ∧ Reaches 1 last e ∧
      InMonth year month last ∧ 7 * 3 < last.day := by
  have hDays := daysInMonth_ge year month
  obtain ⟨last, hLast, hIn, hDay⟩ := mkDate_inMonth (daysInMonth year month) hMonth hYear
    ⟨by omega, le_refl _⟩
  obtain ⟨e, he, hReaches⟩ := guard_ok hIn hYear
  refine ⟨last, e, ?_, hReaches, hIn, by omega⟩
  unfold lastTradingDayOfMonth
  rw [hLast]
  exact he

theorem precedingMonth_inner (hMonth : 1 ≤ month ∧ month ≤ 12) (hYear : 10 ≤ year ∧ year ≤ 9990) :
    (1 ≤ (precedingMonth month year).2 ∧ (precedingMonth month year).2 ≤ 12) ∧
      Inner (precedingMonth month year).1 ∧
      (precedingMonth month year).1 * 12 + (precedingMonth month year).2 + 1 = year * 12 + month := by
  unfold precedingMonth Inner
  split_ifs <;> simp only <;> omega

/-! ## The rules -/

/-- The last trading day is a trading day of the month, and no first notice is given. -/
def Settles (month year : ℕ) (x : Result Derivation) : Prop :=
  ∃ ltd regime, x = .ok (ltd, none, regime) ∧ IsOpen ltd.toOrdinal ∧ InMonth year month ltd

/-- The last trading day is of the month, first notice is on a trading day of the month before. -/
def Notices (month year : ℕ) (x : Result Derivation) : Prop :=
  ∃ ltd fnd, x = .ok (ltd, some fnd, "RTH") ∧ InMonth year month ltd ∧ IsOpen fnd.toOrdinal ∧
    InMonth (precedingMonth month year).1 (precedingMonth month year).2 fnd

theorem deriveEquity_ok (root : String) (hMonth : 1 ≤ month ∧ month ≤ 12) (hYear : Inner year) :
    Settles month year (default.deriveEquity root month year) := by
  unfold deriveEquity
  by_cases hRoot : root = "NKD"
  · obtain ⟨day, hDay, hIn, hWeeks⟩ := nthWeekday_inMonth friday hMonth hYear
      (show 1 ≤ 2 ∧ 2 ≤ 4 by decide)
    obtain ⟨ltd, hLtd, hBefore⟩ := prevTradingDay_backward (hIn.roomy hYear)
    have hReaches : Reaches 1 day ltd := ⟨1, le_refl 1, hBefore⟩
    refine ⟨ltd, "RTH", ?_, hReaches.isOpen, hReaches.inMonth hIn hYear 1 (by decide) hWeeks⟩
    rw [if_pos hRoot, secondFriday, hDay, except_ok_bind, default_cal, hLtd]
    rfl
  · obtain ⟨day, hDay, hIn, hWeeks⟩ := nthWeekday_inMonth friday hMonth hYear
      (show 1 ≤ 3 ∧ 3 ≤ 4 by decide)
    obtain ⟨ltd, hLtd, hReaches⟩ := guard_ok hIn hYear
    refine ⟨ltd, "RTH", ?_, hReaches.isOpen, hReaches.inMonth hIn hYear 2 (by decide) hWeeks⟩
    rw [if_neg hRoot, thirdFriday, hDay, except_ok_bind, hLtd]
    rfl

theorem deriveFx_ok (hMonth : 1 ≤ month ∧ month ≤ 12) (hYear : Inner year) :
    Settles month year (default.deriveFx month year) := by
  obtain ⟨day, hDay, hIn, hWeeks⟩ := nthWeekday_inMonth wednesday hMonth hYear
    (show 1 ≤ 3 ∧ 3 ≤ 4 by decide)
  obtain ⟨guarded, hGuarded, hReaches⟩ := guard_ok hIn hYear
  obtain ⟨ltd, hLtd, hShift⟩ := hReaches.shift (hReaches.inMonth hIn hYear 2 (by decide) hWeeks) hYear
    (show 1 ≤ 2 ∧ 2 ≤ 40 by decide)
  refine ⟨ltd, "RTH", ?_, hShift.isOpen, hShift.inMonth hIn hYear 2 (by decide) hWeeks⟩
  unfold deriveFx thirdWednesday
  rw [hDay, except_ok_bind, hGuarded, except_ok_bind, default_cal]
  exact except_bind_of_ok hLtd _

theorem deriveCrypto_ok (hMonth : 1 ≤ month ∧ month ≤ 12) (hYear : Inner year) :
    Settles month year (default.deriveCrypto month year) := by
  obtain ⟨day, hDay, hIn, hWeeks⟩ := lastFriday_inMonth hMonth hYear
  obtain ⟨ltd, hLtd, hReaches⟩ := guard_ok hIn hYear
  refine ⟨ltd, if ltd < crypto247Launch then "RTH" else "24/7", ?_, hReaches.isOpen,
    hReaches.inMonth hIn hYear 3 (by decide) hWeeks⟩
  unfold deriveCrypto
  rw [hDay, except_ok_bind, hLtd]
  rfl

theorem deriveRates_ok (hMonth : 1 ≤ month ∧ month ≤ 12) (hYear : 10 ≤ year ∧ year ≤ 9990) :
    Notices month year (default.deriveRates month year) := by
  obtain ⟨hPrevMonth, hPrevYear, -⟩ := precedingMonth_inner hMonth hYear
  have hInner : Inner year := ⟨by omega, hYear.2⟩
  obtain ⟨last, guarded, hGuarded, hReaches, hIn, hWeeks⟩ := lastTradingDayOfMonth_ok hMonth hInner
  obtain ⟨prevLast, fnd, hFnd, hNotice, hPrevIn, hPrevWeeks⟩ :=
    lastTradingDayOfMonth_ok hPrevMonth hPrevYear
  obtain ⟨ltd, hLtd, hShift⟩ := hReaches.shift (hReaches.inMonth hIn hInner 3 (by decide) hWeeks) hInner
    (show 1 ≤ 7 ∧ 7 ≤ 40 by decide)
  refine ⟨ltd, fnd, ?_, hShift.inMonth hIn hInner 3 (by decide) hWeeks, hNotice.isOpen,
    hNotice.inMonth hPrevIn hPrevYear 3 (by decide) hPrevWeeks⟩
  unfold deriveRates
  rw [hGuarded, except_ok_bind, default_cal, show (-7 : ℤ) = -(7 : ℕ) by rfl, hLtd, except_ok_bind]
  exact except_bind_of_ok hFnd _

theorem deriveGc_ok (hMonth : 1 ≤ month ∧ month ≤ 12) (hYear : 10 ≤ year ∧ year ≤ 9990) :
    Notices month year (default.deriveGc month year) := by
  obtain ⟨hPrevMonth, hPrevYear, -⟩ := precedingMonth_inner hMonth hYear
  have hInner : Inner year := ⟨by omega, hYear.2⟩
  obtain ⟨last, guarded, hGuarded, hReaches, hIn, hWeeks⟩ := lastTradingDayOfMonth_ok hMonth hInner
  obtain ⟨prevLast, fnd, hFnd, hNotice, hPrevIn, hPrevWeeks⟩ :=
    lastTradingDayOfMonth_ok hPrevMonth hPrevYear
  obtain ⟨second, hSecond, hReaches'⟩ := hReaches.shift
    (hReaches.inMonth hIn hInner 3 (by decide) hWeeks) hInner (show 1 ≤ 1 ∧ 1 ≤ 40 by decide)
  obtain ⟨ltd, hLtd, hReaches''⟩ := hReaches'.shift
    (hReaches'.inMonth hIn hInner 3 (by decide) hWeeks) hInner (show 1 ≤ 1 ∧ 1 ≤ 40 by decide)
  refine ⟨ltd, fnd, ?_, hReaches''.inMonth hIn hInner 3 (by decide) hWeeks, hNotice.isOpen,
    hNotice.inMonth hPrevIn hPrevYear 3 (by decide) hPrevWeeks⟩
  have hThird : default.nthToLastTradingDayOfMonth year month 3 = .ok ltd := by
    unfold nthToLastTradingDayOfMonth
    rw [hGuarded, except_ok_bind]
    unfold prevTradingDays
    refine (except_bind_of_ok hSecond _).trans ?_
    exact except_bind_of_ok hLtd _
  unfold deriveGc
  refine (except_bind_of_ok hFnd _).trans ?_
  exact except_bind_of_ok hThird _

/-- Crude oil stops trading in the month before delivery, two trading days before first notice. -/
theorem deriveCl_ok (hMonth : 1 ≤ month ∧ month ≤ 12) (hYear : 10 ≤ year ∧ year ≤ 9990) :
    ∃ ltd fnd, default.deriveCl month year = .ok (ltd, some fnd, "RTH") ∧ IsOpen ltd.toOrdinal ∧
      InMonth (precedingMonth month year).1 (precedingMonth month year).2 ltd ∧
      After IsOpen 2 ltd.toOrdinal fnd.toOrdinal := by
  obtain ⟨hPrevMonth, hPrevYear, -⟩ := precedingMonth_inner hMonth hYear
  have hDays := daysInMonth_ge (precedingMonth month year).1 (precedingMonth month year).2
  obtain ⟨day, hDay, hIn, hEq⟩ := mkDate_inMonth 25 hPrevMonth hPrevYear ⟨by decide, by omega⟩
  obtain ⟨base, hBase, hReaches⟩ := guard_ok hIn hPrevYear
  have hWeeks : 7 * 3 < day.day := by omega
  obtain ⟨ltd, hLtd, hShift⟩ := hReaches.shift (hReaches.inMonth hIn hPrevYear 3 (by decide) hWeeks)
    hPrevYear (show 1 ≤ 3 ∧ 3 ≤ 40 by decide)
  have hLtdIn := hShift.inMonth hIn hPrevYear 3 (by decide) hWeeks
  obtain ⟨fnd, hFnd, hAfter⟩ := addTradingDays_forward (hLtdIn.roomy hPrevYear)
    (show 1 ≤ 2 ∧ 2 ≤ 40 by decide)
  refine ⟨ltd, fnd, ?_, hShift.isOpen, hLtdIn, hAfter⟩
  unfold deriveCl
  refine (except_bind_of_ok hDay _).trans ?_
  refine (except_bind_of_ok hBase _).trans ?_
  refine (except_bind_of_ok hLtd _).trans ?_
  exact except_bind_of_ok hFnd _

end RollCalendarBuilder

end Futur3.Execution
