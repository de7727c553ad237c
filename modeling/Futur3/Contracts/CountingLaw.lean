import Futur3.Contracts.TradingWalk
import Mathlib.Algebra.BigOperators.Intervals
import Mathlib.Data.Set.Card

/-! # Shifts count trading days

Whatever the overrides, a shift that returns leads to the trading day up to which
so many of them lie. The separate counter agrees with it wherever it returns,
which it does not on the last date of all.
-/

namespace Futur3.Contracts

open Data Prelude Landings

namespace CMETradingCalendar

/-! ## Counting days -/

section Counting

variable {cal : CMETradingCalendar} {h : Heading}

theorem ncard_positions (cal : CMETradingCalendar) (h : Heading) {a b : ℕ} (hLe : a ≤ b) :
    {x | cal.TradingDay x ∧ a ≤ h.pos x ∧ h.pos x < b}.ncard + Nat.count (cal.Trading h) a =
      Nat.count (cal.Trading h) b := by
  classical
  have hImage : h.pos '' {x | cal.TradingDay x ∧ a ≤ h.pos x ∧ h.pos x < b} =
      ((Finset.Ico a b).filter (cal.Trading h) : Finset ℕ) := by
    ext k
    simp only [Set.mem_image, Set.mem_ofPred_eq, Finset.coe_filter, Finset.mem_Ico]
    constructor
    · rintro ⟨x, ⟨hTrading, hLow, hHigh⟩, rfl⟩
      exact ⟨⟨hLow, hHigh⟩, trading_iff.mpr hTrading⟩
    · rintro ⟨hBounds, x, rfl, hTrading⟩
      exact ⟨x, ⟨hTrading, hBounds⟩, rfl⟩
  rw [← Set.ncard_image_of_injective _ h.pos_injective, hImage, Set.ncard_coe_finset,
    Nat.count_eq_card_filter_range, Nat.count_eq_card_filter_range, Finset.card_filter,
    Finset.card_filter, Finset.card_filter, Nat.add_comm]
  exact Finset.sum_range_add_sum_Ico _ hLe

theorem after_iff_ncard {n : ℕ} {d e : Date} (hTrading : cal.TradingDay e) (hLt : h.pos d < h.pos e) :
    After (cal.Trading h) n (h.pos d) (h.pos e) ↔
      {x | cal.TradingDay x ∧ h.pos d < h.pos x ∧ h.pos x ≤ h.pos e}.ncard = n := by
  have hCount := ncard_positions cal h (show h.pos d + 1 ≤ h.pos e + 1 by omega)
  rw [count_succ_of_pos (trading_iff.mpr hTrading)] at hCount
  simp only [Nat.lt_succ_iff, Nat.succ_le_iff] at hCount
  constructor
  · intro hAfter
    have := hAfter.count_eq
    omega
  · intro hCard
    exact ⟨trading_iff.mpr hTrading, by omega⟩

end Counting

variable (cal : CMETradingCalendar)

noncomputable def tradingDaysIn (days : Set Date) : ℕ := (days ∩ {x | cal.TradingDay x}).ncard

variable {cal}

theorem tradingDaysIn_eq {h : Heading} {d e : Date} {days : Set Date}
    (hDays : ∀ x, x ∈ days ↔ h.pos d < h.pos x ∧ h.pos x ≤ h.pos e) :
    cal.tradingDaysIn days = {x | cal.TradingDay x ∧ h.pos d < h.pos x ∧ h.pos x ≤ h.pos e}.ncard := by
  refine congrArg Set.ncard (Set.ext fun x => ?_)
  rw [Set.mem_inter_iff, hDays, and_comm]
  rfl

theorem mem_past_iff {d e : Date} (x : Date) :
    x ∈ Set.Ioc d e ↔ Heading.up.pos d < Heading.up.pos x ∧ Heading.up.pos x ≤ Heading.up.pos e := by
  rw [Set.mem_Ioc, lt_iff_toOrdinal, le_iff_toOrdinal, Heading.up_pos, Heading.up_pos, Heading.up_pos]

theorem pos_down_lt_iff {d e : Date} : Heading.down.pos d < Heading.down.pos e ↔ e < d := by
  have hd := toOrdinal_le_last d
  have he := toOrdinal_le_last e
  rw [lt_iff_toOrdinal, Heading.down_pos, Heading.down_pos]
  omega

theorem mem_before_iff {d e : Date} (x : Date) : x ∈ Set.Ico e d ↔
    Heading.down.pos d < Heading.down.pos x ∧ Heading.down.pos x ≤ Heading.down.pos e := by
  rw [Set.mem_Ico, pos_down_lt_iff, ← not_lt, ← not_lt, pos_down_lt_iff, and_comm]

/-! ## The counter -/

theorem countFrom_ok (k : ℕ) {d : Date} (hLast : d.toOrdinal + k ≤ lastOrdinal)
    (hAnswers : ∀ x : Date, d.toOrdinal ≤ x.toOrdinal → x.toOrdinal < d.toOrdinal + k → cal.Answers x) :
    ∃ count, cal.countFrom k d = .ok count ∧
      Nat.count (cal.Trading .up) d.toOrdinal + count =
        Nat.count (cal.Trading .up) (d.toOrdinal + k) := by
  induction k generalizing d with
  | zero => exact ⟨0, rfl, rfl⟩
  | succ k ih =>
    obtain ⟨answer, hAnswer⟩ := hAnswers d le_rfl (by omega)
    obtain ⟨next, hNext, hOrdinal⟩ := dayAfter_ok (d := d) (by unfold lastOrdinal at hLast; omega)
    obtain ⟨later, hLater, hCount⟩ := ih (d := next) (by omega)
      fun x hLow hHigh => hAnswers x (by omega) (by omega)
    have hTrading : cal.Trading .up d.toOrdinal ↔ answer = true :=
      trading_of_answer (h := .up) hAnswer
    refine ⟨if answer then later + 1 else later, ?_, ?_⟩
    · rw [countFrom, hAnswer, except_ok_bind, hNext, except_ok_bind, hLater]
      rfl
    · rw [show d.toOrdinal + (k + 1) = next.toOrdinal + k by omega, ← hCount, hOrdinal, Nat.count_succ]
      simp only [hTrading]
      split <;> omega

/-- The counter returns the trading days of an interval that ends before the last date. -/
theorem tradingDaysBetween_ok {start stop : Date} (hLe : start ≤ stop)
    (hLast : stop.toOrdinal < lastOrdinal)
    (hAnswers : ∀ x, start ≤ x → x ≤ stop → cal.Answers x) :
    cal.tradingDaysBetween start stop = .ok (cal.tradingDaysIn (Set.Icc start stop)) := by
  have hOrdinals := le_iff_toOrdinal.mp hLe
  obtain ⟨count, hRun, hCount⟩ := countFrom_ok (stop.toOrdinal + 1 - start.toOrdinal)
    (d := start) (by omega) fun x hLow hHigh =>
      hAnswers x (le_iff_toOrdinal.mpr hLow) (le_iff_toOrdinal.mpr (by omega))
  have hPositions := ncard_positions cal .up
    (show start.toOrdinal ≤ start.toOrdinal + (stop.toOrdinal + 1 - start.toOrdinal) by omega)
  have hDays : cal.tradingDaysIn (Set.Icc start stop) = {x | cal.TradingDay x ∧
      start.toOrdinal ≤ Heading.up.pos x ∧
      Heading.up.pos x < start.toOrdinal + (stop.toOrdinal + 1 - start.toOrdinal)}.ncard := by
    refine congrArg Set.ncard (Set.ext fun x => ?_)
    rw [Set.mem_inter_iff, Set.mem_Icc, le_iff_toOrdinal, le_iff_toOrdinal, and_comm]
    refine and_congr Iff.rfl (and_congr Iff.rfl ?_)
    rw [Heading.up_pos]
    omega
  unfold tradingDaysBetween
  rw [if_neg (not_lt.mpr hLe), hRun, hDays]
  exact congrArg Except.ok (by omega)

/-! ## Shifts -/

def heading (n : ℤ) : Heading := if 0 < n then .up else .down

theorem heading_step (n : ℤ) : (heading n).step = if 0 < n then dayAfter else dayBefore := by
  unfold heading
  split <;> rfl

theorem addTradingDays_ok_iff {start t : Date} {n : ℤ} (hn : n ≠ 0) :
    cal.addTradingDays start n = .ok t ↔
      cal.Reached (heading n) (n.natAbs * 7 + 30) n.natAbs start t := by
  obtain ⟨k, hk⟩ := Nat.exists_eq_succ_of_ne_zero (Int.natAbs_ne_zero.mpr hn)
  unfold addTradingDays
  rw [← heading_step, hk]
  exact walk_ok_iff

theorem addTradingDays_gives_up_iff {start : Date} {n : ℤ} (hn : n ≠ 0) :
    cal.addTradingDays start n = .error (.notFound n start) ↔
      cal.Exhausted (heading n) (n.natAbs * 7 + 30) n.natAbs start := by
  obtain ⟨k, hk⟩ := Nat.exists_eq_succ_of_ne_zero (Int.natAbs_ne_zero.mpr hn)
  unfold addTradingDays
  rw [← heading_step, hk]
  exact walk_gives_up_iff

/-- Where a shift forward leads, and what the counter says of it. -/
structure ShiftsForward (cal : CMETradingCalendar) (start : Date) (n : ℕ) (t : Date) : Prop where
  trading : cal.TradingDay t
  later : start < t
  counts : cal.tradingDaysIn (Set.Ioc start t) = n
  only : ∀ t', cal.TradingDay t' → start < t' → cal.tradingDaysIn (Set.Ioc start t') = n → t' = t
  counted : ∃ next, dayAfter start = .ok next ∧ cal.tradingDaysBetween next t = .ok n

/-- Where a shift backward leads, and what the counter says of it. -/
structure ShiftsBackward (cal : CMETradingCalendar) (start : Date) (n : ℕ) (t : Date) : Prop where
  trading : cal.TradingDay t
  earlier : t < start
  counts : cal.tradingDaysIn (Set.Ico t start) = n
  only : ∀ t', cal.TradingDay t' → t' < start → cal.tradingDaysIn (Set.Ico t' start) = n → t' = t
  counted : ∃ prev, dayBefore start = .ok prev ∧ cal.tradingDaysBetween t prev = .ok n

/-- The arithmetic of shifts by trading days: a shift that returns lands on the trading day that so
many of them lie up to, is undone by its opposite, and follows on another shift the same way
unless the two together lie beyond the steps of one. Without overrides no shift gives up. -/
structure CountingLaw (cal : CMETradingCalendar) : Prop where
  forward : ∀ start n t, 0 < n → cal.addTradingDays start n = .ok t →
    cal.ShiftsForward start n.natAbs t
  backward : ∀ start n t, n < 0 → cal.addTradingDays start n = .ok t →
    cal.ShiftsBackward start n.natAbs t
  inverse : ∀ s n t, cal.TradingDay s → cal.addTradingDays s n = .ok t →
    cal.addTradingDays t (-n) = .ok s
  additive : ∀ s m n u t, 0 < m * n → cal.addTradingDays s m = .ok u → cal.addTradingDays u n = .ok t →
    cal.addTradingDays s (m + n) = .ok t ∨
      cal.addTradingDays s (m + n) = .error (.notFound (m + n) s) ∧
        (m + n).natAbs * 7 + 30 < ((t.toOrdinal : ℤ) - s.toOrdinal).natAbs
  returns : cal.extraHolidays = [] → cal.extraTrading = [] → ∀ start n failure,
    cal.addTradingDays start n = .error failure → DateError failure

section Shifts

variable {h h' : Heading} {steps n : ℕ} {s t u : Date}

theorem Reached.tradingDay (hReached : cal.Reached h steps n s t) : cal.TradingDay t :=
  trading_iff.mp hReached.after.lands

theorem Reached.counts (hReached : cal.Reached h steps n s t) (hn : 0 < n) {days : Set Date}
    (hDays : ∀ x, x ∈ days ↔ h.pos s < h.pos x ∧ h.pos x ≤ h.pos t) : cal.tradingDaysIn days = n := by
  rw [tradingDaysIn_eq hDays]
  exact (after_iff_ncard hReached.tradingDay (hReached.after.lt hn)).mp hReached.after

theorem Reached.only (hReached : cal.Reached h steps n s t) (hTrading : cal.TradingDay u)
    (hLt : h.pos s < h.pos u) {days : Set Date}
    (hDays : ∀ x, x ∈ days ↔ h.pos s < h.pos x ∧ h.pos x ≤ h.pos u)
    (hCount : cal.tradingDaysIn days = n) : u = t := by
  rw [tradingDaysIn_eq hDays] at hCount
  exact h.pos_injective (((after_iff_ncard hTrading hLt).mpr hCount).unique hReached.after)

theorem Reached.back (hReached : cal.Reached h steps n s t) (hn : 0 < n) (hs : cal.TradingDay s)
    (hOpposite : ∀ d, h.pos d + h'.pos d = lastOrdinal) : cal.Reached h' steps n t s := by
  have hBeyond := hReached.after.lt hn
  have hFrom := hOpposite s
  have hTo := hOpposite t
  refine ⟨?_, by have := hReached.near; omega, fun x hPast hUpTo => ?_⟩
  · rw [after_iff_ncard hs (by omega)]
    have hCount := ncard_positions cal h hBeyond.le
    rw [hReached.after.count_eq_of_pos (trading_iff.mpr hs)] at hCount
    have hSame : {x | cal.TradingDay x ∧ h'.pos t < h'.pos x ∧ h'.pos x ≤ h'.pos s} =
        {x | cal.TradingDay x ∧ h.pos s ≤ h.pos x ∧ h.pos x < h.pos t} := by
      refine Set.ext fun x => and_congr Iff.rfl ?_
      have hHere := hOpposite x
      constructor <;> rintro ⟨hPast, hUpTo⟩ <;> constructor <;> omega
    rw [hSame]
    omega
  · have hHere := hOpposite x
    rcases Nat.lt_or_ge (h.pos s) (h.pos x) with hPassed | hStart
    · exact hReached.answers x hPassed (by omega)
    · rw [h.pos_injective (show h.pos x = h.pos s by omega)]
      exact ⟨true, hs⟩

/-- Two shifts the same way are one, if its steps lead so far. -/
theorem Reached.trans {steps' m : ℕ} (hReached : cal.Reached h steps m s u)
    (hReached' : cal.Reached h steps' n u t) (total : ℕ) (hTotal : h.pos t ≤ h.pos s + total) :
    cal.Reached h total (m + n) s t := by
  refine ⟨hReached.after.trans hReached'.after, hTotal, fun x hPast hUpTo => ?_⟩
  rcases Nat.lt_or_ge (h.pos u) (h.pos x) with hLater | hEarlier
  · exact hReached'.answers x hLater hUpTo
  · exact hReached.answers x hPast hEarlier

/-- A day that so many trading days lie up to exhausts fewer steps than lead there. -/
theorem Reached.exhausted {total : ℕ} (hReached : cal.Reached h steps n s t)
    (hFar : h.pos s + total < h.pos t) : cal.Exhausted h total n s := by
  refine ⟨fun k hPast hUpTo => ?_, h.exists_between s t _ (by omega) hFar, ?_⟩
  · obtain ⟨x, rfl⟩ := h.exists_between s t k hPast.le (by omega)
    exact ⟨x, rfl, hReached.answers x hPast (by omega)⟩
  · have hMono := Nat.count_monotone (cal.Trading h) (show h.pos s + 1 + total ≤ h.pos t by omega)
    have := hReached.after.count_eq
    omega

theorem opposite_heading {k : ℤ} (hk : k ≠ 0) (d : Date) :
    (heading k).pos d + (heading (-k)).pos d = lastOrdinal := by
  have hd := toOrdinal_le_last d
  unfold heading
  split <;> split
  · omega
  · exact Nat.add_sub_cancel' hd
  · exact Nat.sub_add_cancel hd
  · omega

theorem addTradingDays_inverse {k : ℤ} (hs : cal.TradingDay s) (hShift : cal.addTradingDays s k = .ok t) :
    cal.addTradingDays t (-k) = .ok s := by
  by_cases hk : k = 0
  · subst hk
    cases hShift
    rfl
  · rw [addTradingDays_ok_iff hk] at hShift
    rw [addTradingDays_ok_iff (neg_ne_zero.mpr hk), Int.natAbs_neg]
    exact hShift.back (Int.natAbs_pos.mpr hk) hs (opposite_heading hk)

theorem pos_distance (k : ℤ) (d e : Date) (h : (heading k).pos d ≤ (heading k).pos e) :
    ((e.toOrdinal : ℤ) - d.toOrdinal).natAbs = (heading k).pos e - (heading k).pos d := by
  have hd := toOrdinal_le_last d
  have he := toOrdinal_le_last e
  unfold heading at h ⊢
  by_cases hk : 0 < k
  · rw [if_pos hk] at h ⊢
    rw [Heading.up_pos, Heading.up_pos] at h ⊢
    omega
  · rw [if_neg hk] at h ⊢
    rw [Heading.down_pos, Heading.down_pos] at h ⊢
    omega

theorem addTradingDays_additive {j k : ℤ} (hSign : 0 < j * k) (hFirst : cal.addTradingDays s j = .ok u)
    (hSecond : cal.addTradingDays u k = .ok t) :
    cal.addTradingDays s (j + k) = .ok t ∨
      cal.addTradingDays s (j + k) = .error (.notFound (j + k) s) ∧
        (j + k).natAbs * 7 + 30 < ((t.toOrdinal : ℤ) - s.toOrdinal).natAbs := by
  have hSigns : 0 < j ∧ 0 < k ∨ j < 0 ∧ k < 0 := by
    rcases mul_pos_iff.mp hSign with ⟨hj, hk⟩ | ⟨hj, hk⟩
    · exact .inl ⟨hj, hk⟩
    · exact .inr ⟨hj, hk⟩
  have hHeadings : heading j = heading (j + k) ∧ heading k = heading (j + k) := by
    unfold heading
    rcases hSigns with ⟨hj, hk⟩ | ⟨hj, hk⟩
    · rw [if_pos hj, if_pos hk, if_pos (by omega)]
      exact ⟨rfl, rfl⟩
    · rw [if_neg (by omega), if_neg (by omega), if_neg (by omega)]
      exact ⟨rfl, rfl⟩
  have hTotal : (j + k).natAbs = j.natAbs + k.natAbs := by omega
  rw [addTradingDays_ok_iff (by omega), hHeadings.1] at hFirst
  rw [addTradingDays_ok_iff (by omega), hHeadings.2] at hSecond
  have hBeyond := hFirst.after.lt (by omega)
  have hBeyond' := hSecond.after.lt (by omega)
  have hWhole := hFirst.trans hSecond _ (le_refl _ |>.trans (Nat.le_add_left _ _))
  rw [pos_distance (j + k) s t (by omega), addTradingDays_ok_iff (by omega),
    addTradingDays_gives_up_iff (by omega), hTotal]
  by_cases hNear : (heading (j + k)).pos t ≤
      (heading (j + k)).pos s + ((j.natAbs + k.natAbs) * 7 + 30)
  · exact .inl (hFirst.trans hSecond _ hNear)
  · exact .inr ⟨hWhole.exhausted (not_le.mp hNear), by omega⟩

end Shifts

/-! ## The last date -/

def lastDay : Date := .of 9999 12 31

theorem lastDay_ordinal : lastDay.toOrdinal = lastOrdinal := by decide

theorem eq_lastDay {d : Date} (h : lastOrdinal ≤ d.toOrdinal) : d = lastDay := by
  have hOrdinal := lastDay_ordinal
  have hLast := toOrdinal_le_last d
  exact Date.toOrdinal_injective (by omega)

/-- The holidays of the last year cannot be computed: they take those of the year after. -/
theorem holidaysInYear_last : holidaysInYear 9999 = .error .dateValue := by
  obtain ⟨days, hDays, -⟩ := anchoredHolidays_ok (show 1 ≤ 9999 ∧ 9999 ≤ 9999 by decide)
  have hNext : anchoredHolidays 10000 = .error .dateValue := by
    rw [anchoredHolidays, observedOn, mkDate, dif_neg (by omega)]
    rfl
  unfold holidaysInYear
  rw [hDays, except_ok_bind, hNext]
  rfl

theorem isTradingDay_lastYear {d : Date} (hTrading : d ∉ cal.extraTrading)
    (hHolidays : d ∉ cal.extraHolidays) (hYear : d.year = 9999) (hWeekday : weekday d < saturday) :
    ¬cal.Answers d := by
  rintro ⟨answer, hAnswer⟩
  rw [isTradingDay, if_neg hTrading, if_neg hHolidays, if_neg (not_le.mpr hWeekday), hYear,
    holidaysInYear_last] at hAnswer
  cases hAnswer

theorem not_tradingDay_lastDay (h : lastDay ∉ cal.extraTrading) : ¬cal.TradingDay lastDay := by
  intro hTrading
  by_cases hClosed : lastDay ∈ cal.extraHolidays
  · rw [TradingDay, isTradingDay, if_neg h, if_pos hClosed] at hTrading
    cases hTrading
  · exact isTradingDay_lastYear h hClosed rfl (by decide) ⟨true, hTrading⟩

theorem shiftsForward {start t : Date} {n : ℤ} (hn : 0 < n) (hLast : lastDay ∉ cal.extraTrading)
    (hShift : cal.addTradingDays start n = .ok t) : cal.ShiftsForward start n.natAbs t := by
  rw [addTradingDays_ok_iff hn.ne', heading, if_pos hn] at hShift
  have hPositive := Int.natAbs_pos.mpr hn.ne'
  have hLater : start.toOrdinal < t.toOrdinal := hShift.after.lt hPositive
  have hCounts := hShift.counts hPositive mem_past_iff
  refine ⟨hShift.tradingDay, lt_iff_toOrdinal.mpr hLater, hCounts, ?_, ?_⟩
  · exact fun t' hTrading hPast hCount =>
      hShift.only hTrading (lt_iff_toOrdinal.mp hPast) mem_past_iff hCount
  · have hEnd : t.toOrdinal < lastOrdinal := by
      by_contra hNot
      exact not_tradingDay_lastDay hLast (eq_lastDay (not_lt.mp hNot) ▸ hShift.tradingDay)
    have hMax := toOrdinal_le_last t
    obtain ⟨next, hNext, hOrdinal⟩ := dayAfter_ok (d := start) (by unfold lastOrdinal at hMax; omega)
    have hDays : Set.Icc next t = Set.Ioc start t := by
      ext x
      rw [Set.mem_Icc, Set.mem_Ioc, le_iff_toOrdinal, lt_iff_toOrdinal, hOrdinal, Nat.succ_le_iff]
    refine ⟨next, hNext, ?_⟩
    rw [tradingDaysBetween_ok (le_iff_toOrdinal.mpr (by omega)) hEnd ?_, hDays, hCounts]
    intro x hLow hHigh
    have hPast : x ∈ Set.Ioc start t := hDays ▸ ⟨hLow, hHigh⟩
    obtain ⟨hLess, hLe⟩ := (mem_past_iff x).mp hPast
    exact hShift.answers x hLess hLe

theorem shiftsBackward {start t : Date} {n : ℤ} (hn : n < 0)
    (hShift : cal.addTradingDays start n = .ok t) : cal.ShiftsBackward start n.natAbs t := by
  rw [addTradingDays_ok_iff hn.ne, heading, if_neg (by omega)] at hShift
  have hPositive := Int.natAbs_pos.mpr hn.ne
  have hEarlier := pos_down_lt_iff.mp (hShift.after.lt hPositive)
  have hCounts := hShift.counts hPositive mem_before_iff
  refine ⟨hShift.tradingDay, hEarlier, hCounts, ?_, ?_⟩
  · exact fun t' hTrading hPast hCount =>
      hShift.only hTrading (pos_down_lt_iff.mpr hPast) mem_before_iff hCount
  · have hOrdinals := lt_iff_toOrdinal.mp hEarlier
    have hMax := toOrdinal_le_last start
    have hMin := toOrdinal_pos t
    obtain ⟨prev, hPrev, hOrdinal⟩ := dayBefore_ok (d := start) (by omega)
    have hDays : Set.Icc t prev = Set.Ico t start := by
      ext x
      rw [Set.mem_Icc, Set.mem_Ico, le_iff_toOrdinal, le_iff_toOrdinal, lt_iff_toOrdinal, ← hOrdinal,
        Nat.lt_succ_iff]
    refine ⟨prev, hPrev, ?_⟩
    rw [tradingDaysBetween_ok (le_iff_toOrdinal.mpr (by omega)) (by omega) ?_, hDays, hCounts]
    intro x hLow hHigh
    have hPast : x ∈ Set.Ico t start := hDays ▸ ⟨hLow, hHigh⟩
    obtain ⟨hLess, hLe⟩ := (mem_before_iff x).mp hPast
    exact hShift.answers x hLess hLe

/-! ## Without overrides -/

/-- A stretch of days that all have answers, longer than a weekend, is over before the last year. -/
theorem answered_before_lastYear {a b : ℕ} (hLong : a + 3 ≤ b)
    (hAnswered : ∀ k, a ≤ k → k < b → ∃ x : Date, x.toOrdinal = k ∧ CMETradingCalendar.default.Answers x) :
    b ≤ Date.daysBeforeYear 9999 + 1 := by
  by_contra hLate
  have hFriday : Date.daysBeforeYear 9999 % 7 = 4 := by decide
  -- one of the last three days is a weekday of the last year
  obtain ⟨k, hLow, hHigh, hYear, hWeekday⟩ : ∃ k, a ≤ k ∧ k < b ∧ Date.daysBeforeYear 9999 < k ∧
      (k + 6) % 7 < 5 := by
    by_cases hFirst : (b - 1 + 6) % 7 < 5
    · exact ⟨b - 1, by omega, by omega, by omega, hFirst⟩
    · by_cases hSecond : (b - 2 + 6) % 7 < 5
      · exact ⟨b - 2, by omega, by omega, by omega, hSecond⟩
      · exact ⟨b - 3, by omega, by omega, by omega, by omega⟩
  obtain ⟨x, rfl, hAnswers⟩ := hAnswered k hLow hHigh
  refine isTradingDay_lastYear (by simp [CMETradingCalendar.default])
    (by simp [CMETradingCalendar.default]) ?_ hWeekday hAnswers
  have hUpper := Date.toOrdinal_le_year x
  by_contra hOther
  have hLess := x.year_le
  have hMono := daysBeforeYear_mono (Nat.le_add_left 1 x.year) (show x.year + 1 ≤ 9999 by omega)
  omega

theorem count_isOpen (n : ℕ) :
    Nat.count IsOpen n = Nat.count (CMETradingCalendar.default.Trading .up) n := by
  congr

theorem answered_dense {a : ℕ} (hStart : 1 ≤ a) (weeks : ℕ) (hWeeks : 0 < weeks)
    (hAnswered : ∀ k, a ≤ k → k < a + 7 * weeks →
      ∃ x : Date, x.toOrdinal = k ∧ CMETradingCalendar.default.Answers x) :
    4 * weeks ≤ {x | CMETradingCalendar.default.TradingDay x ∧ a ≤ Heading.up.pos x ∧
      Heading.up.pos x < a + 7 * weeks}.ncard := by
  have hEnd := answered_before_lastYear (by omega) hAnswered
  have hDense := isOpen_dense_weeks hStart hEnd
  rw [count_isOpen, count_isOpen] at hDense
  have hCount := ncard_positions .default .up
    (show a ≤ a + 7 * weeks by omega)
  omega

theorem not_exhausted_of_dense {h : Heading} {n : ℕ} {d : Date}
    (hDense : 4 * (n + 4) ≤ {x | cal.TradingDay x ∧ h.pos d + 1 ≤ h.pos x ∧
      h.pos x < h.pos d + 1 + 7 * (n + 4)}.ncard) : ¬cal.Exhausted h (n * 7 + 30) n d := by
  intro hGone
  have hCount := ncard_positions cal h
    (show h.pos d + 1 ≤ h.pos d + 1 + 7 * (n + 4) by omega)
  have hMono := Nat.count_monotone (cal.Trading h)
    (show h.pos d + 1 + 7 * (n + 4) ≤ h.pos d + 1 + (n * 7 + 30) by omega)
  have := hGone.too_few
  omega

theorem default_not_exhausted_up {n : ℕ} {d : Date} :
    ¬CMETradingCalendar.default.Exhausted .up (n * 7 + 30) n d := by
  intro hGone
  refine not_exhausted_of_dense ?_ hGone
  refine answered_dense (Nat.succ_pos _) (n + 4) (Nat.succ_pos _) fun k hLow hHigh => ?_
  exact hGone.answered k hLow (by omega)

theorem default_not_exhausted_down {n : ℕ} {d : Date} :
    ¬CMETradingCalendar.default.Exhausted .down (n * 7 + 30) n d := by
  intro hGone
  have hMax := toOrdinal_le_last d
  -- as ordinals, the days before the start
  have hAnswered : ∀ k, k < d.toOrdinal → d.toOrdinal ≤ k + (n * 7 + 30) →
      ∃ x : Date, x.toOrdinal = k ∧ CMETradingCalendar.default.Answers x := by
    intro k hLow hHigh
    obtain ⟨x, hx, hAnswers⟩ := hGone.answered (lastOrdinal - k)
      (by rw [Heading.down_pos]; omega) (by rw [Heading.down_pos]; omega)
    rw [Heading.down_pos] at hx
    have hLast := toOrdinal_le_last x
    exact ⟨x, by omega, hAnswers⟩
  have hRoom : n * 7 + 30 < d.toOrdinal := by
    obtain ⟨x, hx⟩ := hGone.beyond
    rw [Heading.down_pos, Heading.down_pos] at hx
    have := toOrdinal_pos x
    omega
  have hDense := answered_dense (a := d.toOrdinal - 7 * (n + 4)) (by omega) (n + 4) (by omega)
    fun k hLow hHigh => hAnswered k (by omega) (by omega)
  refine not_exhausted_of_dense ?_ hGone
  have hSame : {x | CMETradingCalendar.default.TradingDay x ∧
        Heading.down.pos d + 1 ≤ Heading.down.pos x ∧
        Heading.down.pos x < Heading.down.pos d + 1 + 7 * (n + 4)} =
      {x | CMETradingCalendar.default.TradingDay x ∧ d.toOrdinal - 7 * (n + 4) ≤ Heading.up.pos x ∧
        Heading.up.pos x < d.toOrdinal - 7 * (n + 4) + 7 * (n + 4)} := by
    refine Set.ext fun x => and_congr Iff.rfl ?_
    have hLast := toOrdinal_le_last x
    rw [Heading.down_pos, Heading.down_pos, Heading.up_pos]
    constructor <;> rintro ⟨hLow, hHigh⟩ <;> constructor <;> omega
  rwa [hSame]

theorem default_returns {start : Date} {n : ℤ} {failure : TradingCalendarError}
    (hFails : CMETradingCalendar.default.addTradingDays start n = .error failure) :
    DateError failure := by
  by_cases hn : n = 0
  · subst hn
    cases hFails
  have hGone : failure ≠ .notFound n start := by
    rintro rfl
    rw [addTradingDays_gives_up_iff hn] at hFails
    unfold heading at hFails
    split at hFails
    · exact default_not_exhausted_up hFails
    · exact default_not_exhausted_down hFails
  unfold addTradingDays at hFails
  rw [← heading_step] at hFails
  exact (walk_raises hFails).resolve_left hGone

/-! ## The law -/

theorem lastDay_uncounted (h : lastDay ∈ cal.extraTrading) :
    cal.addTradingDays (.of 9999 12 30) 1 = .ok lastDay ∧ dayAfter (.of 9999 12 30) = .ok lastDay ∧
      cal.tradingDaysBetween lastDay lastDay = .error .overflow := by
  have hAnswer : cal.isTradingDay lastDay = .ok true := if_pos h
  have hStep : dayAfter (.of 9999 12 30) = .ok lastDay := by decide
  refine ⟨?_, hStep, ?_⟩
  · unfold addTradingDays
    exact (walk_step hStep hAnswer).trans (walk_arrived ..)
  · unfold tradingDaysBetween
    rw [if_neg (lt_irrefl _), Nat.add_sub_cancel_left, countFrom, hAnswer]
    rfl

theorem not_countingLaw_of_open (h : lastDay ∈ cal.extraTrading) : ¬cal.CountingLaw := by
  intro hLaw
  obtain ⟨hShift, hStep, hCounter⟩ := lastDay_uncounted h
  obtain ⟨next, hNext, hCounted⟩ := (hLaw.forward _ 1 _ one_pos hShift).counted
  rw [hStep] at hNext
  cases hNext
  rw [hCounter] at hCounted
  cases hCounted

/-- The counting law holds of every calendar that does not force the last date of all open. -/
theorem countingLaw_iff (cal : CMETradingCalendar) :
    cal.CountingLaw ↔ lastDay ∉ cal.extraTrading := by
  refine ⟨fun hLaw hOpen => not_countingLaw_of_open hOpen hLaw, fun hLast => ?_⟩
  refine ⟨fun start n t hn => shiftsForward hn hLast, fun start n t hn => shiftsBackward hn,
    fun s n t => addTradingDays_inverse, fun s m n u t => addTradingDays_additive, ?_⟩
  intro hHolidays hTrading start n failure hFails
  obtain ⟨holidays, trading, hDisjoint⟩ := cal
  subst hHolidays hTrading
  exact default_returns hFails

theorem no_closures : ∀ d ∈ ([] : List Date), d ∉ [lastDay] := by simp

def openLast : CMETradingCalendar := ⟨[], [lastDay], no_closures⟩

/-- The day after December 30th, 9999 is reached, and the counter overflows on it. -/
theorem openLast_uncounted : ¬openLast.CountingLaw ∧
    openLast.addTradingDays (.of 9999 12 30) 1 = .ok lastDay ∧
      dayAfter (.of 9999 12 30) = .ok lastDay ∧
      openLast.tradingDaysBetween lastDay lastDay = .error .overflow := by
  have hOpen : lastDay ∈ openLast.extraTrading := List.mem_singleton_self lastDay
  exact ⟨not_countingLaw_of_open hOpen, lastDay_uncounted hOpen⟩

end CMETradingCalendar

end Futur3.Contracts
