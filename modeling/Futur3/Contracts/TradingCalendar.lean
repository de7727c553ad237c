import Futur3.Data.Utc
import Mathlib.Data.Int.Notation

/-! # Trading days

Weekends and the full-closure holidays are closed; the holidays of a year are
computed. Overrides close a day or force it open. Shifting a date by trading
days counts the days landed on, and gives up after a bounded number of steps.
-/

namespace Futur3.Contracts

open Data

inductive TradingCalendarError where
  -- "dates declared as BOTH extra_holiday and extra_trading_day: ..."
  | contradictory (dates : List Date)
  -- "could not find {n} trading days from {start} within {max_calendar_steps} calendar days ..."
  | notFound (n : ℤ) (start : Date)
  -- "start {start} is after end {end}"
  | startAfterEnd (start stop : Date)
  -- ValueError of date(year, month, day)
  | dateValue
  -- OverflowError of adding days
  | overflow
deriving DecidableEq

/-- `date.weekday()`: Monday is 0. -/
def weekday (d : Date) : ℕ := (d.toOrdinal + 6) % 7

def monday : ℕ := 0
def wednesday : ℕ := 2
def thursday : ℕ := 3
def friday : ℕ := 4
def saturday : ℕ := 5
def sunday : ℕ := 6

abbrev Result := Except TradingCalendarError

/-- `date(year, month, day)`. -/
def mkDate (year month day : ℕ) : Result Date :=
  if h : (1 ≤ year ∧ year ≤ 9999) ∧ (1 ≤ month ∧ month ≤ 12) ∧ 1 ≤ day ∧
      day ≤ daysInMonth year month then
    pure (.of year month day h)
  else throw .dateValue

def dayAfter (d : Date) : Result Date :=
  match d.next? with
  | some e => pure e
  | none => throw .overflow

def dayBefore (d : Date) : Result Date :=
  match d.prev? with
  | some e => pure e
  | none => throw .overflow

/-- `d - timedelta(days=k)`. -/
def daysBefore : ℕ → Date → Result Date
  | 0, d => pure d
  | k + 1, d => do daysBefore k (← dayBefore d)

/-! ## Holidays -/

def observed (holiday : Date) : Result Date :=
  if weekday holiday = saturday then dayBefore holiday
  else if weekday holiday = sunday then dayAfter holiday
  else pure holiday

/-- `(wanted - actual) % 7` of weekdays. -/
def daysUntil (wanted actual : ℕ) : ℕ := (wanted + 7 - actual) % 7

def nthWeekday (year month wanted n : ℕ) : Result Date := do
  let first ← mkDate year month 1
  mkDate year month (1 + daysUntil wanted (weekday first) + (n - 1) * 7)

def lastWeekday (year month wanted : ℕ) : Result Date := do
  let last ← mkDate year month (daysInMonth year month)
  daysBefore (daysUntil (weekday last) wanted) last

def easterMonthDay (year : ℤ) : ℤ × ℤ :=
  let golden := year % 19
  let century := year / 100
  let yearOfCentury := year % 100
  let centuryDiv4 := century / 4
  let centuryMod4 := century % 4
  let correction := (century + 8) / 25
  let sundayLetter := (century - correction + 1) / 3
  let epact := (19 * golden + century - centuryDiv4 - sundayLetter + 15) % 30
  let yocDiv4 := yearOfCentury / 4
  let yocMod4 := yearOfCentury % 4
  let offset := (32 + 2 * centuryMod4 + 2 * yocDiv4 - epact - yocMod4) % 7
  let monthSeed := (golden + 11 * epact + 22 * offset) / 451
  ((epact + offset - 7 * monthSeed + 114) / 31, (epact + offset - 7 * monthSeed + 114) % 31 + 1)

def easterSunday (year : ℕ) : Result Date :=
  mkDate year (easterMonthDay year).1.toNat (easterMonthDay year).2.toNat

/-- CME's first observed Juneteenth closure. -/
def juneteenthFirstCmeYear : ℕ := 2022

def observedOn (year month day : ℕ) : Result Date := do observed (← mkDate year month day)

/-- The observed holidays belonging to a year; New Year's may be observed in the year before. -/
def anchoredHolidays (year : ℕ) : Result (List Date) := do
  let newYear ← observedOn year 1 1
  let martinLutherKing ← nthWeekday year 1 monday 3
  let washington ← nthWeekday year 2 monday 3
  let goodFriday ← daysBefore 2 (← easterSunday year)
  let memorial ← lastWeekday year 5 monday
  let independence ← observedOn year 7 4
  let labor ← nthWeekday year 9 monday 1
  let thanksgiving ← nthWeekday year 11 thursday 4
  let christmas ← observedOn year 12 25
  let days := [newYear, martinLutherKing, washington, goodFriday, memorial, independence, labor,
    thanksgiving, christmas]
  if juneteenthFirstCmeYear ≤ year then
    let juneteenth ← observedOn year 6 19
    return days ++ [juneteenth]
  else return days

def holidaysInYear (year : ℕ) : Result (List Date) := do
  let own ← anchoredHolidays year
  let next ← anchoredHolidays (year + 1)
  return (own ++ next).filter fun d => d.year = year

/-! ## The calendar -/

structure CMETradingCalendar where
  extraHolidays : List Date
  extraTrading : List Date
  disjoint : ∀ d ∈ extraHolidays, d ∉ extraTrading

namespace CMETradingCalendar

theorem disjoint_of_filter {extraHolidays extraTrading : List Date}
    (h : extraHolidays.filter (fun d => d ∈ extraTrading) = []) :
    ∀ d ∈ extraHolidays, d ∉ extraTrading := by
  simpa using h

def create (extraHolidays extraTradingDays : List Date) : Result CMETradingCalendar :=
  if h : extraHolidays.filter (fun d => d ∈ extraTradingDays) = [] then
    pure ⟨extraHolidays, extraTradingDays, disjoint_of_filter h⟩
  else throw (.contradictory (extraHolidays.filter fun d => d ∈ extraTradingDays))

theorem no_overrides : ∀ d ∈ ([] : List Date), d ∉ ([] : List Date) := by simp

def default : CMETradingCalendar := ⟨[], [], no_overrides⟩

variable (self : CMETradingCalendar)

def isTradingDay (day : Date) : Result Bool :=
  if day ∈ self.extraTrading then pure true
  else if day ∈ self.extraHolidays then pure false
  else if saturday ≤ weekday day then pure false
  else do
    let holidays ← holidaysInYear day.year
    return day ∉ holidays

/-- The loop of `add_trading_days`, with the calendar steps and the landings that are left. -/
def walk (step : Date → Result Date) (failure : TradingCalendarError) :
    ℕ → ℕ → Date → Result Date
  | _, 0, current => pure current
  | 0, _ + 1, current => do
    let _ ← step current
    throw failure
  | steps + 1, remaining + 1, current => do
    let next ← step current
    if ← self.isTradingDay next then walk step failure steps remaining next
    else walk step failure steps (remaining + 1) next

def addTradingDays (start : Date) (n : ℤ) : Result Date :=
  self.walk (if 0 < n then dayAfter else dayBefore) (.notFound n start) (n.natAbs * 7 + 30) n.natAbs
    start

def nextTradingDay (day : Date) : Result Date := self.addTradingDays day 1

def prevTradingDay (day : Date) : Result Date := self.addTradingDays day (-1)

/-- The loop of `trading_days_between`, with the days that are left: it steps past the last one. -/
def countFrom : ℕ → Date → Result ℕ
  | 0, _ => pure 0
  | days + 1, current => do
    let counts ← self.isTradingDay current
    let next ← dayAfter current
    let later ← countFrom days next
    return if counts then later + 1 else later

def tradingDaysBetween (start stop : Date) : Result ℕ :=
  if stop < start then throw (.startAfterEnd start stop)
  else self.countFrom (stop.toOrdinal + 1 - start.toOrdinal) start

end CMETradingCalendar

end Futur3.Contracts
