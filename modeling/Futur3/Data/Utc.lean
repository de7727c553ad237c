import Futur3.Data.Calendar
import Mathlib.Algebra.BigOperators.Group.List.Basic
import Mathlib.Algebra.Order.BigOperators.Group.List
import Mathlib.Tactic.IntervalCases

/-! # Conversion to UTC

`astimezone(UTC)` keeps the instant and may leave the range of years, where it
raises. In UTC the instant determines the datetime.
-/

namespace Futur3.Data

/-! ## Ordinals -/

theorem daysBeforeMonth_succ {year month : ℕ} (hMonth : 1 ≤ month) :
    Date.daysBeforeMonth year (month + 1) =
      Date.daysBeforeMonth year month + daysInMonth year month := by
  unfold Date.daysBeforeMonth
  obtain ⟨m, rfl⟩ := Nat.exists_eq_add_of_le' hMonth
  rw [show m + 1 + 1 - 1 = m + 1 by omega, List.range_succ, List.map_append, List.sum_append]
  simp

theorem daysBeforeMonth_mono (year : ℕ) {m m' : ℕ} (hm : 1 ≤ m) (h : m ≤ m') :
    Date.daysBeforeMonth year m ≤ Date.daysBeforeMonth year m' := by
  induction m', h using Nat.le_induction with
  | base => exact le_rfl
  | succ m' hLe ih =>
    rw [daysBeforeMonth_succ (hm.trans hLe)]
    omega

theorem daysBeforeMonth_year (year : ℕ) :
    Date.daysBeforeMonth year 13 = 365 + if isLeap year then 1 else 0 := by
  unfold Date.daysBeforeMonth daysInMonth
  cases h : isLeap year <;> simp [List.range_succ]

theorem div_succ (n k : ℕ) : (n + 1) / k = n / k + if (n + 1) % k = 0 then 1 else 0 := by
  rw [Nat.succ_div]
  simp only [Nat.dvd_iff_mod_eq_zero]

theorem leapDay_eq (year : ℕ) :
    (if isLeap year then 1 else 0) + (if year % 100 = 0 then 1 else 0) =
      (if year % 4 = 0 then 1 else 0) + if year % 400 = 0 then 1 else 0 := by
  have hCentury : year % 400 = 0 → year % 100 = 0 := by omega
  have hFour : year % 100 = 0 → year % 4 = 0 := by omega
  unfold isLeap
  by_cases h₁ : year % 4 = 0
  · by_cases h₂ : year % 100 = 0
    · by_cases h₃ : year % 400 = 0 <;> simp [h₁, h₂, h₃]
    · have h₃ : ¬year % 400 = 0 := fun h => h₂ (hCentury h)
      simp [h₁, h₂, h₃]
  · have h₂ : ¬year % 100 = 0 := fun h => h₁ (hFour h)
    have h₃ : ¬year % 400 = 0 := fun h => h₂ (hCentury h)
    simp [h₁, h₂, h₃]

theorem daysBeforeYear_succ {year : ℕ} (hYear : 1 ≤ year) :
    Date.daysBeforeYear (year + 1) =
      Date.daysBeforeYear year + (365 + if isLeap year then 1 else 0) := by
  obtain ⟨y, rfl⟩ := Nat.exists_eq_add_of_le' hYear
  have hLeap := leapDay_eq (y + 1)
  have hLe : y / 100 ≤ y / 4 := Nat.div_le_div_left (by decide) (by decide)
  have hLe' : (y + 1) / 100 ≤ (y + 1) / 4 := Nat.div_le_div_left (by decide) (by decide)
  have h4 := div_succ y 4
  have h100 := div_succ y 100
  have h400 := div_succ y 400
  unfold Date.daysBeforeYear
  simp only [Nat.add_sub_cancel]
  generalize (if isLeap (y + 1) = true then 1 else 0) = leap at *
  generalize (if (y + 1) % 4 = 0 then 1 else 0) = four at *
  generalize (if (y + 1) % 100 = 0 then 1 else 0) = hundred at *
  generalize (if (y + 1) % 400 = 0 then 1 else 0) = fourHundred at *
  generalize (y + 1) / 4 = a' at *
  generalize (y + 1) / 100 = b' at *
  generalize (y + 1) / 400 = c' at *
  omega

theorem daysBeforeYear_mono {y y' : ℕ} (hy : 1 ≤ y) (h : y ≤ y') :
    Date.daysBeforeYear y ≤ Date.daysBeforeYear y' := by
  induction y', h using Nat.le_induction with
  | base => exact le_rfl
  | succ y' hLe ih =>
    rw [daysBeforeYear_succ (hy.trans hLe)]
    omega

namespace Date

/-- A date comes before the first of the next month. -/
theorem toOrdinal_le_month (d : Date) :
    d.toOrdinal ≤ daysBeforeYear d.year + daysBeforeMonth d.year (d.month + 1) := by
  have hDay := d.day_le
  rw [daysBeforeMonth_succ d.month_pos]
  unfold toOrdinal
  omega

theorem toOrdinal_le_year (d : Date) : d.toOrdinal ≤ daysBeforeYear (d.year + 1) := by
  have hMonth := d.toOrdinal_le_month
  have hYear := daysBeforeMonth_mono d.year (Nat.le_add_left 1 d.month)
    (show d.month + 1 ≤ 13 by have := d.month_le; omega)
  rw [daysBeforeMonth_year] at hYear
  rw [daysBeforeYear_succ d.year_pos]
  omega

theorem toOrdinal_lt_of_lt {a b : Date} (h : a < b) : a.toOrdinal < b.toOrdinal := by
  have hRank : a.rank < b.rank := h
  have hDays := a.day_le.trans (daysInMonth_le a.year a.month)
  have hDays' := b.day_le.trans (daysInMonth_le b.year b.month)
  have hMonths := a.month_le
  have hMonths' := b.month_le
  have hDay := b.day_pos
  unfold rank at hRank
  rcases lt_trichotomy a.year b.year with hYear | hYear | hYear
  · have hBefore := a.toOrdinal_le_year.trans (daysBeforeYear_mono (by omega) hYear)
    unfold toOrdinal at hBefore ⊢
    omega
  · rcases lt_trichotomy a.month b.month with hMonth | hMonth | hMonth
    · have hBefore := a.toOrdinal_le_month
      have hLater := daysBeforeMonth_mono a.year (Nat.le_add_left 1 a.month) hMonth
      unfold toOrdinal at hBefore ⊢
      rw [← hYear]
      omega
    · unfold toOrdinal
      rw [← hYear, ← hMonth]
      omega
    · omega
  · omega

theorem toOrdinal_injective : Function.Injective toOrdinal := by
  intro a b h
  rcases lt_trichotomy a b with hlt | heq | hlt
  · exact absurd h (toOrdinal_lt_of_lt hlt).ne
  · exact heq
  · exact absurd h (toOrdinal_lt_of_lt hlt).ne'

theorem toOrdinal_next? {d e : Date} (h : d.next? = some e) : e.toOrdinal = d.toOrdinal + 1 := by
  unfold next? at h
  split_ifs at h with hDay hMonth hYear
  · cases h
    unfold toOrdinal
    simp only
    omega
  · cases h
    have hEnd := d.day_le
    unfold toOrdinal
    simp only
    rw [daysBeforeMonth_succ d.month_pos]
    omega
  · cases h
    have hLast : d.month = 12 := by
      have := d.month_le
      omega
    have hEnd := d.day_le
    have hMonths := @daysBeforeMonth_succ d.year d.month d.month_pos
    rw [hLast, daysBeforeMonth_year] at hMonths
    rw [hLast] at hDay hEnd
    unfold toOrdinal
    simp only
    rw [daysBeforeYear_succ d.year_pos, hLast]
    have hFirst : daysBeforeMonth (d.year + 1) 1 = 0 := rfl
    omega

theorem daysInMonth_pos (year month : ℕ) : 1 ≤ daysInMonth year month := by
  unfold daysInMonth
  split_ifs <;> omega

def prev? (d : Date) : Option Date :=
  if hDay : 1 < d.day then
    some { d with day := d.day - 1, day_pos := by omega, day_le := by have := d.day_le; omega }
  else if hMonth : 1 < d.month then
    some { d with
      month := d.month - 1, day := daysInMonth d.year (d.month - 1)
      month_pos := by omega, month_le := by have := d.month_le; omega
      day_pos := daysInMonth_pos _ _, day_le := le_rfl }
  else if hYear : 1 < d.year then
    some { year := d.year - 1, month := 12, day := 31, year_pos := by omega
           year_le := by have := d.year_le; omega
           month_pos := by decide, month_le := le_rfl, day_pos := by decide, day_le := by simp [daysInMonth] }
  else none

theorem toOrdinal_prev? {d e : Date} (h : d.prev? = some e) : e.toOrdinal + 1 = d.toOrdinal := by
  unfold prev? at h
  split_ifs at h with hDay hMonth hYear
  · cases h
    unfold toOrdinal
    simp only
    omega
  · cases h
    have hFirst := d.day_pos
    have hMonths := @daysBeforeMonth_succ d.year (d.month - 1) (by omega)
    rw [show d.month - 1 + 1 = d.month by omega] at hMonths
    unfold toOrdinal
    simp only
    omega
  · cases h
    have hFirst := d.day_pos
    have hJanuary : d.month = 1 := by
      have := d.month_pos
      omega
    have hYears := daysBeforeYear_succ (show 1 ≤ d.year - 1 by omega)
    have hMonths := @daysBeforeMonth_succ (d.year - 1) 12 (by decide)
    rw [daysBeforeMonth_year] at hMonths
    rw [show d.year - 1 + 1 = d.year by omega] at hYears
    have hDecember : daysInMonth (d.year - 1) 12 = 31 := rfl
    have hNone : daysBeforeMonth d.year 1 = 0 := rfl
    unfold toOrdinal
    simp only
    rw [hJanuary]
    omega

end Date

namespace DateTime

/-- Microseconds since the midnight of its date at which the clock in UTC stands. -/
def utcClock (t : DateTime) : ℤ := t.micros - t.utcoffset.getD 0

theorem utcClock_bounds (t : DateTime) :
    -(dayMicros : ℤ) < t.utcClock ∧ t.utcClock < 2 * dayMicros := by
  have hMicros := t.micros_lt
  have hOffset := t.offset_lt
  unfold utcClock
  cases h : t.utcoffset with
  | none =>
    rw [Option.getD_none]
    omega
  | some o =>
    have hBound := hOffset o h
    rw [Option.getD_some]
    omega

/-- `t.astimezone(UTC)` of an aware datetime; `none` stands for `OverflowError`. -/
def toUtc? (t : DateTime) : Option DateTime :=
  if hBefore : t.utcClock < 0 then
    t.date.prev?.map fun d => ⟨d, (t.utcClock + dayMicros).toNat, by
      have hBounds := t.utcClock_bounds
      omega, some 0, utc_offset_lt⟩
  else if hSame : t.utcClock < dayMicros then
    some ⟨t.date, t.utcClock.toNat, by omega, some 0, utc_offset_lt⟩
  else
    t.date.next?.map fun d => ⟨d, (t.utcClock - dayMicros).toNat, by
      have hBounds := t.utcClock_bounds
      omega, some 0, utc_offset_lt⟩

def IsUtc (t : DateTime) : Prop := t.utcoffset = some 0

instance : DecidablePred IsUtc := fun t => inferInstanceAs (Decidable (t.utcoffset = some 0))

theorem isUtc_of_toUtc? {t u : DateTime} (h : t.toUtc? = some u) : u.IsUtc := by
  unfold toUtc? at h
  split_ifs at h
  · obtain ⟨d, -, rfl⟩ := Option.map_eq_some_iff.mp h
    rfl
  · cases h
    rfl
  · obtain ⟨d, -, rfl⟩ := Option.map_eq_some_iff.mp h
    rfl

theorem instant_of_isUtc {t : DateTime} (h : t.IsUtc) :
    t.instant = (t.date.toOrdinal : ℤ) * dayMicros + t.micros := by
  unfold instant
  rw [h]
  simp

/-- The conversion keeps the instant. -/
theorem instant_toUtc? {t u : DateTime} (h : t.toUtc? = some u) : u.instant = t.instant := by
  rw [instant_of_isUtc (isUtc_of_toUtc? h)]
  have hBounds := t.utcClock_bounds
  have hInstant : t.instant = (t.date.toOrdinal : ℤ) * dayMicros + t.utcClock := by
    unfold instant utcClock
    omega
  rw [hInstant]
  unfold toUtc? at h
  have hDay : (dayMicros : ℤ) = 86400000000 := rfl
  split_ifs at h with hBefore hSame
  · obtain ⟨d, hd, rfl⟩ := Option.map_eq_some_iff.mp h
    have hDate := Date.toOrdinal_prev? hd
    simp only [hDay] at *
    omega
  · cases h
    simp only
    omega
  · obtain ⟨d, hd, rfl⟩ := Option.map_eq_some_iff.mp h
    have hDate := Date.toOrdinal_next? hd
    simp only [hDay] at *
    omega

theorem toUtc?_of_isUtc {t : DateTime} (h : t.IsUtc) : t.toUtc? = some t := by
  have hMicros := t.micros_lt
  have hClock : t.utcClock = t.micros := by
    unfold utcClock
    rw [h]
    simp
  unfold toUtc?
  rw [dif_neg (by omega), dif_pos (by omega)]
  refine congrArg some (DateTime.ext rfl ?_ h.symm)
  simp only
  omega

theorem isAware_of_isUtc {t : DateTime} (h : t.IsUtc) : t.isAware := by
  unfold isAware
  rw [h]
  rfl

end DateTime

end Futur3.Data
