import Futur3.Contracts.Holidays
import Futur3.Prelude.Landings

/-! # Shifting by trading days

Of seven consecutive days at least four are trading days. So a shift by trading
days finds its day within the steps it is allowed, and how many trading days lie
below the day that it finds is known.
-/

namespace Futur3.Contracts

open Data Prelude Landings CMETradingCalendar

/-! ## Holidays a week apart -/

def IsHoliday (o : ℕ) : Prop :=
  ∃ year days d, (1 ≤ year ∧ year ≤ 9999) ∧ anchoredHolidays year = .ok days ∧ d ∈ days ∧
    d.toOrdinal = o

theorem slotEnd_le (k : ℕ) : slotEnd k ≤ 360 := by
  unfold slotEnd
  split <;> decide

theorem slotEnd_le_of_lt {k : ℕ} (h : k < 9) : slotEnd k ≤ 332 := by
  interval_cases k <;> decide

theorem slotStart_ge {k : ℕ} (h : 0 < k) : 15 ≤ slotStart k := by
  unfold slotStart
  split <;> omega

theorem slotShift_le (year k : ℕ) : slotShift year k ≤ leapDay year := by
  unfold slotShift
  split_ifs <;> omega

theorem InSlot.in_year {year k o : ℕ} (hYear : 1 ≤ year) (h : InSlot year k o) :
    Date.daysBeforeYear year ≤ o ∧ o + 5 ≤ Date.daysBeforeYear (year + 1) := by
  have hEnd := slotEnd_le k
  have hShift := slotShift_le year k
  have hNext := daysBeforeYear_next hYear
  have := h.1
  have := h.2
  omega

/-- Holidays of two years are a week apart. -/
theorem InSlot.add_week_le_of_year {year year' k k' a b : ℕ} (hYear : 1 ≤ year)
    (ha : InSlot year k a) (hb : InSlot year' k' b) (h : year < year')
    (hOther : ¬(k' = 0 ∧ k = 9 ∧ year' = year + 1)) (hk : k < 10) : a + 7 ≤ b := by
  have hEnd := slotEnd_le k
  have hShift := slotShift_le year k
  have hNext := daysBeforeYear_next hYear
  have hMono := daysBeforeYear_mono (Nat.le_add_left 1 year) h
  have hHigh := ha.2
  have hLow := hb.1
  by_cases hFirst : 0 < k'
  · have hStart := slotStart_ge hFirst
    omega
  · by_cases hLast : k < 9
    · have hEarlier := slotEnd_le_of_lt hLast
      omega
    · have hLater := daysBeforeYear_of_lt (Nat.le_add_left 1 year) (show year + 1 < year' by omega)
      omega

theorem holidays_spaced (a b : ℕ) (ha : IsHoliday a) (hb : IsHoliday b) (h : a < b) : a + 7 ≤ b := by
  obtain ⟨year, days, d, hYear, hDays, hMem, rfl⟩ := ha
  obtain ⟨year', days', d', hYear', hDays', hMem', rfl⟩ := hb
  obtain ⟨found, hTable, ⟨table⟩⟩ := anchoredHolidays_ok hYear
  rw [hDays] at hTable
  cases hTable
  obtain ⟨found', hTable', ⟨table'⟩⟩ := anchoredHolidays_ok hYear'
  rw [hDays'] at hTable'
  cases hTable'
  obtain ⟨k, hk, rfl⟩ := table.covers d hMem
  have hSlot := table.inSlot k hk
  rcases Nat.lt_trichotomy year year' with hLt | rfl | hLt
  · obtain ⟨k', hk', rfl⟩ := table'.covers d' hMem'
    have hSlot' := table'.inSlot k' hk'
    by_cases hWeek : k' = 0 ∧ k = 9 ∧ year' = year + 1
    · -- Christmas and the New Year's after it
      obtain ⟨rfl, rfl, rfl⟩ := hWeek
      rw [table.christmas, table'.newYear]
    · exact hSlot.add_week_le_of_year (by omega) hSlot' hLt hWeek hk
  · rw [hDays] at hDays'
    cases hDays'
    obtain ⟨k', hk', rfl⟩ := table.covers d' hMem'
    have hSlot' := table.inSlot k' hk'
    rcases Nat.lt_trichotomy k k' with hk'' | rfl | hk''
    · exact hSlot.add_week_le hSlot' hk' hk''
    · exact absurd h (lt_irrefl _)
    · have := hSlot'.add_week_le hSlot hk hk''
      omega
  · obtain ⟨k', hk', rfl⟩ := table'.covers d' hMem'
    have hUpper := ((table'.inSlot k' hk').in_year (by omega)).2
    have hLower := (hSlot.in_year (by omega)).1
    have hMono := daysBeforeYear_mono (Nat.le_add_left 1 year') hLt
    omega

/-! ## Trading days by their ordinals -/

/-- The ordinal of a trading day of the calendar without overrides. -/
def IsOpen (o : ℕ) : Prop :=
  ∃ d : Date, d.toOrdinal = o ∧ CMETradingCalendar.default.isTradingDay d = .ok true

open Classical in
noncomputable instance : DecidablePred IsOpen := fun _ => inferInstance

open Classical in
noncomputable instance : DecidablePred IsHoliday := fun _ => inferInstance

theorem isOpen_iff {d : Date} :
    IsOpen d.toOrdinal ↔ CMETradingCalendar.default.isTradingDay d = .ok true := by
  constructor
  · rintro ⟨e, hOrdinal, hOpen⟩
    rwa [← Date.toOrdinal_injective hOrdinal]
  · exact fun hOpen => ⟨d, rfl, hOpen⟩

theorem isTradingDay_weekend {d : Date} (h : saturday ≤ weekday d) :
    CMETradingCalendar.default.isTradingDay d = .ok false := by
  simp only [isTradingDay, CMETradingCalendar.default, List.not_mem_nil, if_false, h, if_true]
  rfl

theorem isTradingDay_weekday {d : Date} (hYear : d.year ≤ 9998)
    (h : weekday d < saturday) :
    ∃ answer, CMETradingCalendar.default.isTradingDay d = .ok answer ∧
      (¬IsHoliday d.toOrdinal → answer = true) := by
  have hOwnYear : 1 ≤ d.year ∧ d.year ≤ 9999 := ⟨d.year_pos, by omega⟩
  have hNextYear : 1 ≤ d.year + 1 ∧ d.year + 1 ≤ 9999 := ⟨by omega, by omega⟩
  obtain ⟨own, hOwn, -⟩ := anchoredHolidays_ok hOwnYear
  obtain ⟨next, hNext, -⟩ := anchoredHolidays_ok hNextYear
  have hHolidays : holidaysInYear d.year = .ok ((own ++ next).filter fun e => e.year = d.year) := by
    unfold holidaysInYear
    rw [hOwn, hNext]
    rfl
  refine ⟨d ∉ (own ++ next).filter fun e => e.year = d.year, ?_, ?_⟩
  · simp only [isTradingDay, CMETradingCalendar.default, List.not_mem_nil, if_false, not_le.mpr h,
      hHolidays]
    rfl
  · refine fun hNot => decide_eq_true fun hMem => hNot ?_
    rcases List.mem_append.mp (List.mem_filter.mp hMem).1 with hHere | hThere
    · exact ⟨d.year, own, d, hOwnYear, hOwn, hHere, rfl⟩
    · exact ⟨d.year + 1, next, d, hNextYear, hNext, hThere, rfl⟩

/-- In the years whose holidays are computed, every day has an answer. -/
theorem isTradingDay_returns {d : Date} (hYear : d.year ≤ 9998) :
    ∃ answer, CMETradingCalendar.default.isTradingDay d = .ok answer ∧
      (answer = true ↔ IsOpen d.toOrdinal) := by
  have hReturns : ∃ answer, CMETradingCalendar.default.isTradingDay d = .ok answer := by
    by_cases hWeekend : saturday ≤ weekday d
    · exact ⟨false, isTradingDay_weekend hWeekend⟩
    · obtain ⟨answer, hAnswer, -⟩ := isTradingDay_weekday hYear (not_le.mp hWeekend)
      exact ⟨answer, hAnswer⟩
  obtain ⟨answer, hAnswer⟩ := hReturns
  exact ⟨answer, hAnswer, by rw [isOpen_iff, hAnswer, Except.ok.injEq]⟩

/-! ## Density -/

/-- The ordinals of the years whose trading days are all computed. -/
def Covered (o : ℕ) : Prop := 1 ≤ o ∧ o ≤ Date.daysBeforeYear 9999

theorem exists_date {o : ℕ} (hLow : 1 ≤ o) (hHigh : o ≤ Date.daysBeforeYear 10000) :
    ∃ d : Date, d.toOrdinal = o := by
  induction o, hLow using Nat.le_induction with
  | base => exact ⟨.of 1 1 1, by decide⟩
  | succ o hLow ih =>
    obtain ⟨d, hd⟩ := ih (by omega)
    obtain ⟨e, -, hNext⟩ := dayAfter_ok (d := d) (by omega)
    exact ⟨e, by omega⟩

theorem Covered.year {d : Date} (h : Covered d.toOrdinal) : d.year ≤ 9998 := by
  have hHigh := h.2
  by_contra hYear
  have hMono := daysBeforeYear_mono (show 1 ≤ 9999 by decide) (show 9999 ≤ d.year by omega)
  have hDay := d.day_pos
  rw [toOrdinal_eq, monthBase] at hHigh
  omega

theorem weekdays_of_week (n : ℕ) : Nat.count (fun k => (n + k + 6) % 7 < saturday) 7 = 5 := by
  have hResidue : n % 7 < 7 := Nat.mod_lt _ (by decide)
  interval_cases hn : n % 7 <;> simp [Nat.count_succ, Nat.add_mod, hn, saturday]

/-- Of seven consecutive days at least four are trading days. -/
theorem isOpen_dense {n : ℕ} (hLow : 1 ≤ n)
    (hHigh : n + 7 ≤ Date.daysBeforeYear 9999 + 1) :
    Nat.count IsOpen n + 4 ≤ Nat.count IsOpen (n + 7) := by
  have hWeekdays := weekdays_of_week n
  have hSplit : Nat.count (fun k => (n + k + 6) % 7 < saturday) 7 ≤
      Nat.count (fun k => IsOpen (n + k)) 7 + Nat.count (fun k => IsHoliday (n + k)) 7 := by
    apply count_le_add
    intro k hk hWeekday
    obtain ⟨d, hd⟩ := exists_date (o := n + k) (by omega)
      ((show n + k ≤ Date.daysBeforeYear 9999 by omega).trans
        (daysBeforeYear_mono (by decide) (by decide)))
    have hYear := Covered.year (d := d) (by rw [hd]; exact ⟨by omega, by omega⟩)
    obtain ⟨answer, hAnswer, hOpen⟩ := isTradingDay_weekday hYear (by rwa [weekday, hd])
    rw [or_iff_not_imp_right]
    intro hNot
    rw [hOpen (by rwa [hd])] at hAnswer
    exact hd ▸ isOpen_iff.mpr hAnswer
  have hHolidays := count_add_le_of_spaced holidays_spaced n
  rw [Nat.count_add] at hHolidays ⊢
  omega

/-! ## Walks -/

theorem isOpen_dense_weeks {n k : ℕ} (hLow : 1 ≤ n)
    (hHigh : n + 7 * k ≤ Date.daysBeforeYear 9999 + 1) :
    Nat.count IsOpen n + 4 * k ≤ Nat.count IsOpen (n + 7 * k) :=
  count_add_mul_of_dense (fun _ hm hm' => isOpen_dense hm hm') hLow hHigh

theorem walk_step {cal : CMETradingCalendar} {step : Date → Result Date}
    {failure : TradingCalendarError} {steps n : ℕ} {d e : Date} {answer : Bool}
    (hStep : step d = .ok e) (hAnswer : cal.isTradingDay e = .ok answer) :
    cal.walk step failure (steps + 1) (n + 1) d =
      if answer then cal.walk step failure steps n e else cal.walk step failure steps (n + 1) e := by
  rw [walk, hStep, except_ok_bind, hAnswer, except_ok_bind]

theorem walk_arrived (cal : CMETradingCalendar) (step : Date → Result Date)
    (failure : TradingCalendarError) (steps : ℕ) (d : Date) :
    cal.walk step failure steps 0 d = .ok d := by
  cases steps <;> rfl

theorem walk_backward (failure : TradingCalendarError) (steps : ℕ) {n : ℕ} {d : Date}
    (hLow : Date.daysBeforeYear 2 + steps < d.toOrdinal)
    (hHigh : d.toOrdinal ≤ Date.daysBeforeYear 9999)
    (hEnough : Nat.count IsOpen (d.toOrdinal - steps) + (n + 1) ≤ Nat.count IsOpen d.toOrdinal) :
    ∃ e, CMETradingCalendar.default.walk dayBefore failure steps (n + 1) d = .ok e ∧
      Before IsOpen (n + 1) d.toOrdinal e.toOrdinal := by
  induction steps generalizing n d with
  | zero =>
    rw [Nat.sub_zero] at hEnough
    omega
  | succ steps ih =>
    obtain ⟨e, he, hOrdinal⟩ := dayBefore_ok (d := d) (by omega)
    have hCovered : Covered e.toOrdinal := ⟨by omega, by omega⟩
    obtain ⟨answer, hAnswer, hOpen⟩ := isTradingDay_returns hCovered.year
    have hTail : d.toOrdinal - (steps + 1) = e.toOrdinal - steps := by omega
    rw [hTail, ← hOrdinal] at hEnough
    rw [← hOrdinal, walk_step he hAnswer]
    cases answer with
    | false =>
      have hClosed : ¬IsOpen e.toOrdinal := by simpa using hOpen
      rw [count_succ_of_neg hClosed] at hEnough
      obtain ⟨stop, hStop, hBefore⟩ := ih (d := e) (by omega) (by omega) hEnough
      exact ⟨stop, hStop, hBefore.pass hClosed⟩
    | true =>
      have hHere := hOpen.mp rfl
      rw [count_succ_of_pos hHere] at hEnough
      cases n with
      | zero => exact ⟨e, walk_arrived .., (Before.refl hHere).land hHere⟩
      | succ n =>
        obtain ⟨stop, hStop, hBefore⟩ := ih (n := n) (d := e) (by omega) (by omega) (by omega)
        exact ⟨stop, hStop, hBefore.land hHere⟩

theorem walk_forward (failure : TradingCalendarError) (steps : ℕ) {n : ℕ} {d : Date}
    (hLow : Date.daysBeforeYear 2 < d.toOrdinal)
    (hHigh : d.toOrdinal + steps ≤ Date.daysBeforeYear 9999)
    (hEnough : Nat.count IsOpen (d.toOrdinal + 1) + (n + 1) ≤
      Nat.count IsOpen (d.toOrdinal + 1 + steps)) :
    ∃ e, CMETradingCalendar.default.walk dayAfter failure steps (n + 1) d = .ok e ∧
      After IsOpen (n + 1) d.toOrdinal e.toOrdinal := by
  induction steps generalizing n d with
  | zero =>
    rw [Nat.add_zero] at hEnough
    omega
  | succ steps ih =>
    have hLast := daysBeforeYear_mono (show 1 ≤ 9999 by decide) (show 9999 ≤ 10000 by decide)
    obtain ⟨e, he, hOrdinal⟩ := dayAfter_ok (d := d) (by omega)
    have hCovered : Covered e.toOrdinal := ⟨by omega, by omega⟩
    obtain ⟨answer, hAnswer, hOpen⟩ := isTradingDay_returns hCovered.year
    have hTail : d.toOrdinal + 1 + (steps + 1) = e.toOrdinal + 1 + steps := by omega
    rw [hTail, ← hOrdinal] at hEnough
    rw [walk_step he hAnswer]
    cases answer with
    | false =>
      have hClosed : ¬IsOpen e.toOrdinal := by simpa using hOpen
      rw [← count_succ_of_neg hClosed] at hEnough
      obtain ⟨stop, hStop, hAfter⟩ := ih (d := e) (by omega) (by omega) hEnough
      rw [hOrdinal] at hAfter hClosed
      exact ⟨stop, hStop, hAfter.pass hClosed⟩
    | true =>
      have hHere := hOpen.mp rfl
      have hCount := count_succ_of_pos hHere
      cases n with
      | zero =>
        rw [hOrdinal] at hHere
        refine ⟨e, walk_arrived .., ?_⟩
        rw [hOrdinal]
        exact .here hHere
      | succ n =>
        obtain ⟨stop, hStop, hAfter⟩ := ih (n := n) (d := e) (by omega) (by omega) (by omega)
        rw [hOrdinal] at hAfter hHere
        exact ⟨stop, hStop, hAfter.land hHere⟩

/-- Ordinals from which a shift by a few weeks stays within the covered years. -/
def Roomy (o : ℕ) : Prop := Date.daysBeforeYear 4 ≤ o ∧ o ≤ Date.daysBeforeYear 9997

theorem Roomy.le_last {o : ℕ} (h : Roomy o) : o ≤ Date.daysBeforeYear 9999 :=
  h.2.trans (by decide)

/-- A shift back by trading days returns the day before which so many of them lie. -/
theorem addTradingDays_backward {d : Date} (hLow : Date.daysBeforeYear 4 ≤ d.toOrdinal)
    (hHigh : d.toOrdinal ≤ Date.daysBeforeYear 9999) {n : ℕ} (hn : 1 ≤ n ∧ n ≤ 40) :
    ∃ e, CMETradingCalendar.default.addTradingDays d (-n) = .ok e ∧
      Before IsOpen n d.toOrdinal e.toOrdinal := by
  obtain ⟨n, rfl⟩ := Nat.exists_eq_add_of_le' hn.1
  have hYears : Date.daysBeforeYear 2 + 700 ≤ Date.daysBeforeYear 4 := by decide
  have hDense := isOpen_dense_weeks (n := d.toOrdinal - 7 * (n + 1)) (k := n + 1) (by omega) (by omega)
  rw [Nat.sub_add_cancel (by omega)] at hDense
  have hMono := Nat.count_monotone IsOpen
    (show d.toOrdinal - ((n + 1) * 7 + 30) ≤ d.toOrdinal - 7 * (n + 1) by omega)
  have hWalk := walk_backward (.notFound (-(n + 1 : ℕ)) d) ((n + 1) * 7 + 30) (n := n) (d := d)
    (by omega) (by omega) (by omega)
  unfold addTradingDays
  rwa [if_neg (by omega), Int.natAbs_neg, Int.natAbs_natCast]

theorem addTradingDays_forward {d : Date} (hRoomy : Roomy d.toOrdinal) {n : ℕ} (hn : 1 ≤ n ∧ n ≤ 40) :
    ∃ e, CMETradingCalendar.default.addTradingDays d n = .ok e ∧
      After IsOpen n d.toOrdinal e.toOrdinal := by
  obtain ⟨n, rfl⟩ := Nat.exists_eq_add_of_le' hn.1
  have hYears : Date.daysBeforeYear 2 < Date.daysBeforeYear 4 := by decide
  have hLast : Date.daysBeforeYear 9997 + 700 ≤ Date.daysBeforeYear 9999 := by decide
  obtain ⟨hLow, hHigh⟩ := hRoomy
  have hDense := isOpen_dense_weeks (n := d.toOrdinal + 1) (k := n + 1) (by omega) (by omega)
  have hMono := Nat.count_monotone IsOpen
    (show d.toOrdinal + 1 + 7 * (n + 1) ≤ d.toOrdinal + 1 + ((n + 1) * 7 + 30) by omega)
  have hWalk := walk_forward (.notFound (n + 1 : ℕ) d) ((n + 1) * 7 + 30) (n := n) (d := d)
    (by omega) (by omega) (by omega)
  unfold addTradingDays
  rwa [if_pos (by omega), Int.natAbs_natCast]

/-- A shift by few trading days forward takes no more weeks. -/
theorem forward_lt {d e : Date} {n : ℕ} (h : After IsOpen n d.toOrdinal e.toOrdinal)
    (hRoomy : Roomy d.toOrdinal) (hn : n ≤ 4) : e.toOrdinal < d.toOrdinal + 8 := by
  have hYears : Date.daysBeforeYear 2 < Date.daysBeforeYear 4 := by decide
  have hLast : Date.daysBeforeYear 9997 + 7 ≤ Date.daysBeforeYear 9999 := by decide
  obtain ⟨hLow, hHigh⟩ := hRoomy
  have hDense := isOpen_dense (n := d.toOrdinal + 1) (by omega) (by omega)
  exact h.bound (d.toOrdinal + 1 + 7) (by omega)

theorem prevTradingDay_backward {d : Date} (hRoomy : Roomy d.toOrdinal) :
    ∃ e, CMETradingCalendar.default.prevTradingDay d = .ok e ∧
      Before IsOpen 1 d.toOrdinal e.toOrdinal :=
  addTradingDays_backward hRoomy.1 hRoomy.le_last ⟨le_refl 1, by decide⟩

/-! ## Months -/

theorem lt_iff_toOrdinal {a b : Date} : a < b ↔ a.toOrdinal < b.toOrdinal := by
  refine ⟨Date.toOrdinal_lt_of_lt, fun h => ?_⟩
  by_contra hNot
  rcases (not_lt.mp hNot).lt_or_eq with hLt | rfl
  · exact lt_asymm h (Date.toOrdinal_lt_of_lt hLt)
  · exact lt_irrefl _ h

theorem le_iff_toOrdinal {a b : Date} : a ≤ b ↔ a.toOrdinal ≤ b.toOrdinal := by
  rw [← not_lt, ← not_lt, lt_iff_toOrdinal]

/-- Months numbered through the years. -/
def monthIndex (d : Date) : ℕ := d.year * 12 + d.month

theorem toOrdinal_lt_of_month_lt {a b : Date} (h : monthIndex a < monthIndex b) :
    a.toOrdinal < b.toOrdinal := by
  apply Date.toOrdinal_lt_of_lt
  have hDay := a.day_le.trans (daysInMonth_le a.year a.month)
  have hMonth := a.month_le
  have hMonth' := b.month_le
  change a.rank < b.rank
  unfold monthIndex at h
  unfold Date.rank
  have := b.day_pos
  omega

theorem month_eq_of_between {d e : Date} (hLow : d.toOrdinal < e.toOrdinal + d.day)
    (hHigh : e.toOrdinal ≤ d.toOrdinal) : e.year = d.year ∧ e.month = d.month := by
  obtain ⟨first, -, hYear, hMonth, hDay⟩ := mkDate_ok 1 ⟨d.year_pos, d.year_le⟩
    ⟨d.month_pos, d.month_le⟩ ⟨le_refl 1, Date.daysInMonth_pos _ _⟩
  have hFirst := toOrdinal_of hYear hMonth hDay
  have hIndex : monthIndex first = monthIndex d := by rw [monthIndex, monthIndex, hYear, hMonth]
  rw [toOrdinal_eq d] at hLow
  have hNotBelow : monthIndex d ≤ monthIndex e := by
    by_contra hLt
    have := toOrdinal_lt_of_month_lt (hIndex ▸ not_le.mp hLt)
    omega
  have hNotAbove : monthIndex e ≤ monthIndex d := by
    by_contra hLt
    have := toOrdinal_lt_of_month_lt (not_le.mp hLt)
    omega
  have hMonths := And.intro d.month_pos d.month_le
  have hMonths' := And.intro e.month_pos e.month_le
  unfold monthIndex at hNotBelow hNotAbove
  constructor <;> omega

/-- So few trading days back do not leave a month so many weeks of which have passed. -/
theorem same_month_of_before {d e : Date} {n k : ℕ} (h : Before IsOpen n d.toOrdinal e.toOrdinal)
    (hRoomy : Roomy d.toOrdinal) (hWeeks : 7 * k < d.day) (hn : n ≤ 4 * k) :
    e.year = d.year ∧ e.month = d.month := by
  have hYears : Date.daysBeforeYear 2 + 700 ≤ Date.daysBeforeYear 4 := by decide
  have hLast : Date.daysBeforeYear 9997 ≤ Date.daysBeforeYear 9999 := by decide
  have hDay := d.day_le.trans (daysInMonth_le d.year d.month)
  obtain ⟨hLow, hHigh⟩ := hRoomy
  have hDense := isOpen_dense_weeks (n := d.toOrdinal - 7 * k) (k := k) (by omega) (by omega)
  rw [Nat.sub_add_cancel (by omega)] at hDense
  have hBound := h.bound (d.toOrdinal - 7 * k) (by omega)
  exact month_eq_of_between (by omega) h.le

end Futur3.Contracts
