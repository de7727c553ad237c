import Mathlib.Data.List.Basic
import Mathlib.Order.Basic
import Mathlib.Tactic.NormNum

/-! # Dates, datetimes and their ISO texts

The proleptic Gregorian calendar of the `datetime` module, years 1 to 9999.
A datetime is naive or carries a fixed offset from UTC; aware datetimes compare
as instants.
-/

namespace Futur3.Data

def isLeap (year : ℕ) : Bool :=
  year % 4 = 0 && (year % 100 ≠ 0 || year % 400 = 0)

def daysInMonth (year month : ℕ) : ℕ :=
  if month = 2 then (if isLeap year then 29 else 28)
  else if month = 4 ∨ month = 6 ∨ month = 9 ∨ month = 11 then 30
  else 31

theorem daysInMonth_le (year month : ℕ) : daysInMonth year month ≤ 31 := by
  unfold daysInMonth
  split_ifs <;> omega

@[ext]
structure Date where
  year : ℕ
  month : ℕ
  day : ℕ
  year_pos : 1 ≤ year
  year_le : year ≤ 9999
  month_pos : 1 ≤ month
  month_le : month ≤ 12
  day_pos : 1 ≤ day
  day_le : day ≤ daysInMonth year month
deriving DecidableEq

namespace Date

/-- `date(year, month, day)`. -/
def of (year month day : ℕ)
    (h : (1 ≤ year ∧ year ≤ 9999) ∧ (1 ≤ month ∧ month ≤ 12) ∧ 1 ≤ day ∧
      day ≤ daysInMonth year month := by decide) : Date :=
  ⟨year, month, day, h.1.1, h.1.2, h.2.1.1, h.2.1.2, h.2.2.1, h.2.2.2⟩

/-- Year, month and day read as one number. -/
def rank (d : Date) : ℕ := (d.year * 100 + d.month) * 100 + d.day

theorem rank_injective : Function.Injective rank := by
  intro a b h
  have ha := a.day_le.trans (daysInMonth_le a.year a.month)
  have hb := b.day_le.trans (daysInMonth_le b.year b.month)
  have ham := a.month_le
  have hbm := b.month_le
  unfold rank at h
  ext <;> omega

/-- Dates compare by year, then month, then day. -/
instance : LinearOrder Date := LinearOrder.lift' rank rank_injective

def daysBeforeYear (year : ℕ) : ℕ :=
  (year - 1) * 365 + (year - 1) / 4 - (year - 1) / 100 + (year - 1) / 400

def daysBeforeMonth (year month : ℕ) : ℕ :=
  ((List.range (month - 1)).map fun m => daysInMonth year (m + 1)).sum

/-- `date.toordinal`: January 1 of year 1 is day 1. -/
def toOrdinal (d : Date) : ℕ :=
  daysBeforeYear d.year + daysBeforeMonth d.year d.month + d.day

/-- The day after, when it is still representable. -/
def next? (d : Date) : Option Date :=
  if hDay : d.day + 1 ≤ daysInMonth d.year d.month then
    some { d with day := d.day + 1, day_pos := by omega, day_le := hDay }
  else if hMonth : d.month + 1 ≤ 12 then
    some { d with
      month := d.month + 1, day := 1, month_pos := by omega, month_le := hMonth
      day_pos := le_rfl, day_le := by unfold daysInMonth; split_ifs <;> omega }
  else if hYear : d.year + 1 ≤ 9999 then
    some { year := d.year + 1, month := 1, day := 1, year_pos := by omega, year_le := hYear
           month_pos := le_rfl, month_le := by omega, day_pos := le_rfl
           day_le := by unfold daysInMonth; split_ifs <;> omega }
  else none

end Date

/-! ### Sessions of December 2025

The 13th and the 14th are a weekend. -/

namespace Date

def dec8 : Date := .of 2025 12 8

def dec10 : Date := .of 2025 12 10

def dec11 : Date := .of 2025 12 11

def dec12 : Date := .of 2025 12 12

def dec15 : Date := .of 2025 12 15

end Date

def dayMicros : ℕ := 86400000000

@[ext]
structure DateTime where
  date : Date
  /-- Microseconds since local midnight. -/
  micros : ℕ
  micros_lt : micros < dayMicros
  /-- Offset east of UTC in microseconds; `none` is a naive datetime. -/
  utcoffset : Option ℤ
  offset_lt : ∀ o ∈ utcoffset, o.natAbs < dayMicros
deriving DecidableEq

namespace DateTime

theorem utc_offset_lt : ∀ o ∈ some (0 : ℤ), o.natAbs < dayMicros := by simp [dayMicros]

def utcMidnight (date : Date) : DateTime := ⟨date, 0, by decide, some 0, utc_offset_lt⟩

/-- `tzinfo is not None`. -/
def isAware (t : DateTime) : Bool := t.utcoffset.isSome

theorem utcMidnight_aware (date : Date) : (utcMidnight date).isAware := rfl

/-- Microseconds from a fixed epoch to an aware datetime. -/
def instant (t : DateTime) : ℤ :=
  (t.date.toOrdinal : ℤ) * dayMicros + t.micros - t.utcoffset.getD 0

/-- The sum of a datetime and less than a day; `none` stands for `OverflowError`. -/
def addMicros? (t : DateTime) (δ : ℕ) (hδ : δ < dayMicros) : Option DateTime :=
  if h : t.micros + δ < dayMicros then
    some { t with micros := t.micros + δ, micros_lt := h }
  else
    t.date.next?.map fun d =>
      { t with date := d, micros := t.micros + δ - dayMicros
               micros_lt := by have := t.micros_lt; omega }

end DateTime

/-! ## ISO texts -/

/-- Decimal digits, padded with zeros on the left to a width. -/
def zeroPadded (width n : ℕ) : List Char :=
  List.replicate (width - (Nat.toDigits 10 n).length) '0' ++ Nat.toDigits 10 n

namespace Date

def isoformatChars (d : Date) : List Char :=
  zeroPadded 4 d.year ++ '-' :: zeroPadded 2 d.month ++ '-' :: zeroPadded 2 d.day

def isoformat (d : Date) : String := String.ofList d.isoformatChars

end Date

/-- `hh:mm:ss`, with the microseconds when they are not zero. -/
def clockChars (micros : ℕ) : List Char :=
  zeroPadded 2 (micros / 3600000000) ++ ':' :: zeroPadded 2 (micros / 60000000 % 60) ++
    ':' :: zeroPadded 2 (micros / 1000000 % 60) ++
    (if micros % 1000000 = 0 then [] else '.' :: zeroPadded 6 (micros % 1000000))

/-- `+hh:mm`, with seconds and microseconds only as far as they are not zero. -/
def offsetChars (offset : ℤ) : List Char :=
  let magnitude := offset.natAbs
  (if offset < 0 then '-' else '+') ::
    zeroPadded 2 (magnitude / 3600000000) ++ ':' :: zeroPadded 2 (magnitude / 60000000 % 60) ++
    (if magnitude % 60000000 = 0 then []
     else ':' :: zeroPadded 2 (magnitude / 1000000 % 60) ++
       (if magnitude % 1000000 = 0 then [] else '.' :: zeroPadded 6 (magnitude % 1000000)))

namespace DateTime

def isoformatChars (t : DateTime) : List Char :=
  t.date.isoformatChars ++ 'T' :: clockChars t.micros ++ (t.utcoffset.elim [] offsetChars)

def isoformat (t : DateTime) : String := String.ofList t.isoformatChars

end DateTime

theorem isDigit_of_mem_zeroPadded {width n : ℕ} {c : Char} (h : c ∈ zeroPadded width n) :
    c.isDigit := by
  rcases List.mem_append.mp h with h | h
  · rw [List.eq_of_mem_replicate h]
    decide
  · exact Nat.isDigit_of_mem_toDigits (by decide) (by decide) h

theorem ofDigitChars_zeroPadded (width n : ℕ) : Nat.ofDigitChars 10 (zeroPadded width n) 0 = n := by
  unfold zeroPadded
  rw [Nat.ofDigitChars_append, Nat.ofDigitChars_replicate_zero, Nat.mul_zero,
    Nat.ofDigitChars_ten_toDigits]

theorem length_zeroPadded {width n : ℕ} (hWidth : 0 < width) (hn : n < 10 ^ width) :
    (zeroPadded width n).length = width := by
  have hLength := (Nat.length_toDigits_le_iff (b := 10) (by decide) hWidth).mpr hn
  unfold zeroPadded
  rw [List.length_append, List.length_replicate]
  omega

theorem isoformatChars_parts (d : Date) :
    d.isoformatChars.length = 10 ∧ d.isoformatChars[4]? = some '-' ∧ d.isoformatChars[7]? = some '-' ∧
      d.isoformatChars.take 4 = zeroPadded 4 d.year ∧
      (d.isoformatChars.drop 5).take 2 = zeroPadded 2 d.month ∧
      d.isoformatChars.drop 8 = zeroPadded 2 d.day := by
  have hYear := length_zeroPadded (n := d.year) (by decide : 0 < 4) (by have := d.year_le; omega)
  have hMonth := length_zeroPadded (n := d.month) (by decide : 0 < 2) (by have := d.month_le; omega)
  have hDay := length_zeroPadded (n := d.day) (by decide : 0 < 2)
    (by have := d.day_le.trans (daysInMonth_le d.year d.month); omega)
  unfold Date.isoformatChars
  generalize zeroPadded 4 d.year = year at *
  generalize zeroPadded 2 d.month = month at *
  generalize zeroPadded 2 d.day = day at *
  obtain ⟨y₁, y₂, y₃, y₄, rfl⟩ := List.length_eq_four.mp hYear
  obtain ⟨m₁, m₂, rfl⟩ := List.length_eq_two.mp hMonth
  obtain ⟨d₁, d₂, rfl⟩ := List.length_eq_two.mp hDay
  exact ⟨rfl, rfl, rfl, rfl, rfl, rfl⟩

theorem isoformatChars_injective : Function.Injective Date.isoformatChars := by
  intro d e h
  obtain ⟨-, -, -, hYear, hMonth, hDay⟩ := isoformatChars_parts d
  obtain ⟨-, -, -, hYear', hMonth', hDay'⟩ := isoformatChars_parts e
  rw [h] at hYear hMonth hDay
  have hRead : ∀ {width n k : ℕ}, zeroPadded width n = zeroPadded width k → n = k := by
    intro width n k hText
    rw [← ofDigitChars_zeroPadded width n, hText, ofDigitChars_zeroPadded]
  exact Date.ext (hRead (hYear.symm.trans hYear')) (hRead (hMonth.symm.trans hMonth'))
    (hRead (hDay.symm.trans hDay'))

theorem zeroPadded_ne_nil (width n : ℕ) : zeroPadded width n ≠ [] := by
  unfold zeroPadded
  simp [Nat.toDigits_ne_nil]

/-- A character that is no digit and no ISO punctuation occurs in no ISO text. -/
theorem not_mem_zeroPadded {width n : ℕ} {c : Char} (hc : c.isDigit = false) :
    c ∉ zeroPadded width n := by
  intro h
  rw [isDigit_of_mem_zeroPadded h] at hc
  cases hc

theorem not_mem_date_isoformat {c : Char} (hc : c.isDigit = false) (hDash : c ≠ '-') (d : Date) :
    c ∉ d.isoformatChars := by
  simp [Date.isoformatChars, not_mem_zeroPadded hc, hDash]

theorem not_mem_isoformat {c : Char} (hc : c.isDigit = false) (hMarks : c ∉ ['-', ':', '.', '+', 'T'])
    (t : DateTime) : c ∉ t.isoformatChars := by
  simp only [List.mem_cons, List.not_mem_nil, or_false, not_or] at hMarks
  obtain ⟨hDash, hColon, hDot, hPlus, hT⟩ := hMarks
  have hClock : c ∉ clockChars t.micros := by
    unfold clockChars
    split <;> simp [not_mem_zeroPadded hc, hColon, hDot]
  have hOffset : ∀ o, c ∉ offsetChars o := by
    intro o
    unfold offsetChars
    simp only
    split_ifs <;> simp [not_mem_zeroPadded hc, hDash, hColon, hDot, hPlus]
  cases h : t.utcoffset with
  | none => simp [DateTime.isoformatChars, h, not_mem_date_isoformat hc hDash, hT, hClock]
  | some o => simp [DateTime.isoformatChars, h, not_mem_date_isoformat hc hDash, hT, hClock, hOffset]

theorem date_isoformat_head (d : Date) : ∃ c rest, d.isoformatChars = c :: rest ∧ c.isDigit := by
  unfold Date.isoformatChars
  cases h : zeroPadded 4 d.year with
  | nil => exact absurd h (zeroPadded_ne_nil 4 d.year)
  | cons c rest =>
    have hMem : c ∈ zeroPadded 4 d.year := by
      rw [h]
      exact List.mem_cons_self
    exact ⟨c, _, rfl, isDigit_of_mem_zeroPadded hMem⟩

theorem isoformat_head (t : DateTime) : ∃ c rest, t.isoformatChars = c :: rest ∧ c.isDigit := by
  obtain ⟨c, rest, h, hc⟩ := date_isoformat_head t.date
  exact ⟨c, _, by rw [DateTime.isoformatChars, h]; rfl, hc⟩

example : (DateTime.utcMidnight (.of 2025 12 8)).isoformat = "2025-12-08T00:00:00+00:00" := by
  decide +kernel

end Futur3.Data
