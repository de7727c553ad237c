import Futur3.Contracts.TradingDays

/-! # Walks of any calendar

A walk goes up or down the days. Where it ends is told by the positions of the
days along its heading: it returns the day up to which so many trading days lie,
and gives up exactly where the steps it is allowed hold too few of them.
-/

namespace Futur3.Contracts

open Data Prelude Landings

/-! ## What the calendar raises -/

def DateError : TradingCalendarError → Prop
  | .dateValue => True
  | .overflow => True
  | _ => False

def RaisesDateErrors {α : Type} (x : Result α) : Prop := ∀ failure, x = .error failure → DateError failure

namespace RaisesDateErrors

variable {α β : Type} {x : Result α} {f : α → Result β}

theorem pure (a : α) : RaisesDateErrors (Pure.pure a : Result α) := by
  intro failure h
  cases h

theorem bind (hx : RaisesDateErrors x) (hf : ∀ a, RaisesDateErrors (f a)) :
    RaisesDateErrors (x >>= f) := by
  intro failure h
  rcases except_bind_error_iff.mp h with hFirst | ⟨a, -, hThen⟩
  · exact hx failure hFirst
  · exact hf a failure hThen

theorem ite {p : Prop} [Decidable p] {y : Result α} (hx : RaisesDateErrors x)
    (hy : RaisesDateErrors y) : RaisesDateErrors (if p then x else y) := by
  split
  · exact hx
  · exact hy

end RaisesDateErrors

section Raises

open RaisesDateErrors

theorem mkDate_raises (year month day : ℕ) : RaisesDateErrors (mkDate year month day) := by
  intro failure h
  unfold mkDate at h
  split at h <;> cases h
  trivial

theorem dayAfter_raises (d : Date) : RaisesDateErrors (dayAfter d) := by
  intro failure h
  unfold dayAfter at h
  split at h <;> cases h
  trivial

theorem dayBefore_raises (d : Date) : RaisesDateErrors (dayBefore d) := by
  intro failure h
  unfold dayBefore at h
  split at h <;> cases h
  trivial

theorem daysBefore_raises (k : ℕ) (d : Date) : RaisesDateErrors (daysBefore k d) := by
  induction k generalizing d with
  | zero => exact .pure d
  | succ k ih => exact (dayBefore_raises d).bind ih

theorem observedOn_raises (year month day : ℕ) : RaisesDateErrors (observedOn year month day) := by
  refine (mkDate_raises year month day).bind fun d => ?_
  exact .ite (dayBefore_raises d) (.ite (dayAfter_raises d) (.pure d))

theorem nthWeekday_raises (year month wanted n : ℕ) :
    RaisesDateErrors (nthWeekday year month wanted n) :=
  (mkDate_raises year month 1).bind fun _ => mkDate_raises _ _ _

theorem lastWeekday_raises (year month wanted : ℕ) :
    RaisesDateErrors (lastWeekday year month wanted) :=
  (mkDate_raises year month _).bind fun _ => daysBefore_raises _ _

theorem anchoredHolidays_raises (year : ℕ) : RaisesDateErrors (anchoredHolidays year) := by
  unfold anchoredHolidays easterSunday
  refine (observedOn_raises year 1 1).bind fun _ => ?_
  refine (nthWeekday_raises year 1 monday 3).bind fun _ => ?_
  refine (nthWeekday_raises year 2 monday 3).bind fun _ => ?_
  refine (mkDate_raises _ _ _).bind fun easter => ?_
  refine (daysBefore_raises 2 easter).bind fun _ => ?_
  refine (lastWeekday_raises year 5 monday).bind fun _ => ?_
  refine (observedOn_raises year 7 4).bind fun _ => ?_
  refine (nthWeekday_raises year 9 monday 1).bind fun _ => ?_
  refine (nthWeekday_raises year 11 thursday 4).bind fun _ => ?_
  refine (observedOn_raises year 12 25).bind fun _ => ?_
  exact .ite ((observedOn_raises year 6 19).bind fun _ => .pure _) (.pure _)

theorem holidaysInYear_raises (year : ℕ) : RaisesDateErrors (holidaysInYear year) :=
  (anchoredHolidays_raises year).bind fun _ => (anchoredHolidays_raises (year + 1)).bind fun _ => .pure _

theorem isTradingDay_raises (cal : CMETradingCalendar) (d : Date) :
    RaisesDateErrors (cal.isTradingDay d) :=
  .ite (.pure _) (.ite (.pure _) (.ite (.pure _) ((holidaysInYear_raises _).bind fun _ => .pure _)))

end Raises

/-! ## Headings -/

/-- Up or down the days, with the position of each day that way. -/
structure Heading where
  step : Date → Result Date
  pos : Date → ℕ
  pos_injective : Function.Injective pos
  step_iff : ∀ d e, step d = .ok e ↔ pos e = pos d + 1
  exists_between : ∀ d e k, pos d ≤ k → k ≤ pos e → ∃ x, pos x = k
  step_raises : ∀ d, RaisesDateErrors (step d)

def lastOrdinal : ℕ := Date.daysBeforeYear 10000

theorem toOrdinal_le_last (d : Date) : d.toOrdinal ≤ lastOrdinal :=
  (Date.toOrdinal_le_year d).trans (daysBeforeYear_mono (Nat.le_add_left 1 _) (Nat.succ_le_succ d.year_le))

theorem toOrdinal_pos (d : Date) : 1 ≤ d.toOrdinal := by
  have := d.day_pos
  rw [toOrdinal_eq]
  omega

theorem dayAfter_iff (d e : Date) : dayAfter d = .ok e ↔ e.toOrdinal = d.toOrdinal + 1 := by
  constructor
  · intro h
    unfold dayAfter at h
    split at h
    · rename_i e' hNext
      cases h
      exact Date.toOrdinal_next? hNext
    · cases h
  · intro h
    have hLast := toOrdinal_le_last e
    obtain ⟨e', hStep, hOrdinal⟩ := dayAfter_ok (d := d) (by unfold lastOrdinal at hLast; omega)
    rw [hStep, Date.toOrdinal_injective (hOrdinal.trans h.symm)]

theorem dayBefore_iff (d e : Date) : dayBefore d = .ok e ↔ e.toOrdinal + 1 = d.toOrdinal := by
  constructor
  · intro h
    unfold dayBefore at h
    split at h
    · rename_i e' hPrev
      cases h
      exact Date.toOrdinal_prev? hPrev
    · cases h
  · intro h
    have hFirst := toOrdinal_pos e
    obtain ⟨e', hStep, hOrdinal⟩ := dayBefore_ok (d := d) (by omega)
    rw [hStep, Date.toOrdinal_injective (show e'.toOrdinal = e.toOrdinal by omega)]

theorem exists_ordinal_between (d e : Date) (k : ℕ) (hLow : d.toOrdinal ≤ k) (hHigh : k ≤ e.toOrdinal) :
    ∃ x : Date, x.toOrdinal = k :=
  exists_date ((toOrdinal_pos d).trans hLow) (hHigh.trans (toOrdinal_le_last e))

def Heading.up : Heading where
  step := dayAfter
  pos := Date.toOrdinal
  pos_injective := fun _ _ h => Date.toOrdinal_injective h
  step_iff := dayAfter_iff
  exists_between := exists_ordinal_between
  step_raises := dayAfter_raises

def positionDown (d : Date) : ℕ := lastOrdinal - d.toOrdinal

theorem positionDown_injective : Function.Injective positionDown := by
  intro d e h
  have hd := toOrdinal_le_last d
  have he := toOrdinal_le_last e
  unfold positionDown at h
  exact Date.toOrdinal_injective (by omega)

theorem dayBefore_iff_down (d e : Date) :
    dayBefore d = .ok e ↔ positionDown e = positionDown d + 1 := by
  have hd := toOrdinal_le_last d
  have he := toOrdinal_le_last e
  rw [dayBefore_iff]
  unfold positionDown
  omega

theorem exists_positionDown (d e : Date) (k : ℕ) (_ : positionDown d ≤ k) (hHigh : k ≤ positionDown e) :
    ∃ x, positionDown x = k := by
  have hFirst := toOrdinal_pos e
  have hLast := toOrdinal_le_last e
  unfold positionDown at hHigh ⊢
  obtain ⟨x, hx⟩ := exists_date (o := lastOrdinal - k) (by omega) (Nat.sub_le _ _)
  exact ⟨x, by omega⟩

def Heading.down : Heading where
  step := dayBefore
  pos := positionDown
  pos_injective := positionDown_injective
  step_iff := dayBefore_iff_down
  exists_between := exists_positionDown
  step_raises := dayBefore_raises

@[simp] theorem Heading.up_pos (d : Date) : Heading.up.pos d = d.toOrdinal := rfl

@[simp] theorem Heading.down_pos (d : Date) : Heading.down.pos d = lastOrdinal - d.toOrdinal := rfl

namespace CMETradingCalendar

variable (cal : CMETradingCalendar) (h : Heading)

def TradingDay (d : Date) : Prop := cal.isTradingDay d = .ok true

def Answers (d : Date) : Prop := ∃ answer, cal.isTradingDay d = .ok answer

def Trading (k : ℕ) : Prop := ∃ d, h.pos d = k ∧ cal.TradingDay d

open Classical in
noncomputable instance : DecidablePred (cal.Trading h) := fun _ => inferInstance

variable {cal h}

theorem trading_iff {d : Date} : cal.Trading h (h.pos d) ↔ cal.TradingDay d := by
  constructor
  · rintro ⟨e, hPos, hTrading⟩
    rwa [← h.pos_injective hPos]
  · exact fun hTrading => ⟨d, rfl, hTrading⟩

theorem trading_of_answer {d : Date} {answer : Bool} (hAnswer : cal.isTradingDay d = .ok answer) :
    cal.Trading h (h.pos d) ↔ answer = true := by
  rw [trading_iff, TradingDay, hAnswer, Except.ok.injEq]

/-- The calendar answers for all days past the first up to the last. -/
def AnswersBetween (cal : CMETradingCalendar) (h : Heading) (d e : Date) : Prop :=
  ∀ x, h.pos d < h.pos x → h.pos x ≤ h.pos e → cal.Answers x

/-- So many trading days lie between two days, the last of them included, so few steps apart. -/
structure Reached (cal : CMETradingCalendar) (h : Heading) (steps n : ℕ) (d e : Date) : Prop where
  after : After (cal.Trading h) n (h.pos d) (h.pos e)
  near : h.pos e ≤ h.pos d + steps
  answers : cal.AnswersBetween h d e

theorem Reached.first {steps n : ℕ} {d e : Date} (hReached : cal.Reached h steps (n + 1) d e) :
    ∃ next answer, h.step d = .ok next ∧ cal.isTradingDay next = .ok answer := by
  have hBeyond := hReached.after.lt n.succ_pos
  obtain ⟨next, hNext⟩ := h.exists_between d e (h.pos d + 1) (Nat.le_succ _) hBeyond
  obtain ⟨answer, hAnswer⟩ := hReached.answers next (by omega) (by omega)
  exact ⟨next, answer, (h.step_iff d next).mpr hNext, hAnswer⟩

theorem answersBetween_iff {d next e : Date} (hStep : h.step d = .ok next) (hAnswers : cal.Answers next) :
    cal.AnswersBetween h d e ↔ cal.AnswersBetween h next e := by
  have hNext := (h.step_iff d next).mp hStep
  refine ⟨fun hAll x hPast => hAll x (by omega), fun hAll x hPast hUpTo => ?_⟩
  rcases Nat.lt_or_ge (h.pos next) (h.pos x) with hLater | hHere
  · exact hAll x hLater hUpTo
  · rwa [h.pos_injective (show h.pos x = h.pos next by omega)]

/-- One step of a walk: a trading day counts, another day is passed. -/
theorem reached_step {steps n : ℕ} {d next e : Date} {answer : Bool} (hStep : h.step d = .ok next)
    (hAnswer : cal.isTradingDay next = .ok answer) :
    cal.Reached h (steps + 1) (n + 1) d e ↔
      if answer then cal.Reached h steps n next e else cal.Reached h steps (n + 1) next e := by
  have hNext := (h.step_iff d next).mp hStep
  have hTrading := trading_of_answer (h := h) hAnswer
  have hBetween := answersBetween_iff (e := e) hStep ⟨answer, hAnswer⟩
  rw [hNext] at hTrading
  cases answer with
  | false =>
    rw [if_neg (by simp)]
    constructor
    · rintro ⟨hAfter, hNear, hAll⟩
      refine ⟨?_, by omega, hBetween.mp hAll⟩
      rw [hNext]
      exact (After.pass_iff (by simpa using hTrading)).mp hAfter
    · rintro ⟨hAfter, hNear, hAll⟩
      rw [hNext] at hAfter
      exact ⟨(After.pass_iff (by simpa using hTrading)).mpr hAfter, by omega, hBetween.mpr hAll⟩
  | true =>
    rw [if_pos rfl]
    constructor
    · rintro ⟨hAfter, hNear, hAll⟩
      refine ⟨?_, by omega, hBetween.mp hAll⟩
      rw [hNext]
      exact (After.land_iff (hTrading.mpr rfl)).mp hAfter
    · rintro ⟨hAfter, hNear, hAll⟩
      rw [hNext] at hAfter
      exact ⟨(After.land_iff (hTrading.mpr rfl)).mpr hAfter, by omega, hBetween.mpr hAll⟩

theorem reached_zero_iff {steps : ℕ} {d e : Date} (hTrading : cal.TradingDay d) :
    cal.Reached h steps 0 d e ↔ d = e := by
  constructor
  · exact fun hReached =>
      (h.pos_injective ((After.zero_iff (trading_iff.mpr hTrading)).mp hReached.after)).symm
  · rintro rfl
    refine ⟨(After.zero_iff (trading_iff.mpr hTrading)).mpr rfl, Nat.le_add_right _ _, ?_⟩
    exact fun x hPast hUpTo => absurd hPast (not_lt.mpr hUpTo)

/-- A walk returns the day up to which it counts so many trading days, if its steps lead there. -/
theorem walk_ok_iff {failure : TradingCalendarError} {steps n : ℕ} {d e : Date} :
    cal.walk h.step failure steps (n + 1) d = .ok e ↔ cal.Reached h steps (n + 1) d e := by
  induction steps generalizing n d with
  | zero =>
    constructor
    · intro hWalk
      simp [walk, except_bind_ok_iff, except_throw_ok_iff] at hWalk
    · exact fun hReached => absurd (hReached.after.lt n.succ_pos) (not_lt.mpr hReached.near)
  | succ steps ih =>
    by_cases hFirst : ∃ next answer, h.step d = .ok next ∧ cal.isTradingDay next = .ok answer
    · obtain ⟨next, answer, hStep, hAnswer⟩ := hFirst
      rw [walk_step hStep hAnswer, reached_step hStep hAnswer]
      cases answer with
      | false => exact ih
      | true =>
        cases n with
        | zero =>
          rw [if_pos rfl, if_pos rfl, walk_arrived, reached_zero_iff hAnswer, Except.ok.injEq]
        | succ n => exact ih
    · refine iff_of_false ?_ fun hReached => hFirst hReached.first
      rw [walk, except_bind_ok_iff]
      rintro ⟨next, hStep, hWalk⟩
      obtain ⟨answer, hAnswer, -⟩ := except_bind_ok_iff.mp hWalk
      exact hFirst ⟨next, answer, hStep, hAnswer⟩

structure Exhausted (cal : CMETradingCalendar) (h : Heading) (steps n : ℕ) (d : Date) : Prop where
  answered : ∀ k, h.pos d < k → k ≤ h.pos d + steps → ∃ x, h.pos x = k ∧ cal.Answers x
  beyond : ∃ x, h.pos x = h.pos d + steps + 1
  too_few : Nat.count (cal.Trading h) (h.pos d + 1 + steps) <
    Nat.count (cal.Trading h) (h.pos d + 1) + n

theorem Exhausted.first {steps n : ℕ} {d : Date} (hGone : cal.Exhausted h (steps + 1) n d) :
    ∃ next answer, h.step d = .ok next ∧ cal.isTradingDay next = .ok answer := by
  obtain ⟨next, hNext, answer, hAnswer⟩ := hGone.answered (h.pos d + 1) (by omega) (by omega)
  exact ⟨next, answer, (h.step_iff d next).mpr hNext, hAnswer⟩

theorem exhausted_step {steps n : ℕ} {d next : Date} {answer : Bool} (hStep : h.step d = .ok next)
    (hAnswer : cal.isTradingDay next = .ok answer) :
    cal.Exhausted h (steps + 1) (n + 1) d ↔
      if answer then cal.Exhausted h steps n next else cal.Exhausted h steps (n + 1) next := by
  have hNext := (h.step_iff d next).mp hStep
  have hTrading := trading_of_answer (h := h) hAnswer
  have hEnd : h.pos d + 1 + (steps + 1) = h.pos next + 1 + steps := by omega
  have hCount : Nat.count (cal.Trading h) (h.pos next + 1) =
      Nat.count (cal.Trading h) (h.pos d + 1) + if answer then 1 else 0 := by
    rw [Nat.count_succ, hNext]
    rw [hNext] at hTrading
    simp only [hTrading]
  have hAnswered : (∀ k, h.pos d < k → k ≤ h.pos d + (steps + 1) → ∃ x, h.pos x = k ∧ cal.Answers x) ↔
      ∀ k, h.pos next < k → k ≤ h.pos next + steps → ∃ x, h.pos x = k ∧ cal.Answers x := by
    refine ⟨fun hAll k hPast hUpTo => hAll k (by omega) (by omega), fun hAll k hPast hUpTo => ?_⟩
    rcases Nat.lt_or_ge (h.pos next) k with hLater | hHere
    · exact hAll k hLater (by omega)
    · exact ⟨next, by omega, answer, hAnswer⟩
  have hBeyond : (∃ x, h.pos x = h.pos d + (steps + 1) + 1) ↔ ∃ x, h.pos x = h.pos next + steps + 1 := by
    rw [hNext, show h.pos d + (steps + 1) + 1 = h.pos d + 1 + steps + 1 by omega]
  cases answer with
  | false =>
    rw [if_neg (by simp)] at hCount ⊢
    constructor
    · rintro ⟨hAll, hNear, hFew⟩
      exact ⟨hAnswered.mp hAll, hBeyond.mp hNear, by rw [← hEnd]; omega⟩
    · rintro ⟨hAll, hNear, hFew⟩
      exact ⟨hAnswered.mpr hAll, hBeyond.mpr hNear, by rw [hEnd]; omega⟩
  | true =>
    rw [if_pos rfl] at hCount ⊢
    constructor
    · rintro ⟨hAll, hNear, hFew⟩
      exact ⟨hAnswered.mp hAll, hBeyond.mp hNear, by rw [← hEnd]; omega⟩
    · rintro ⟨hAll, hNear, hFew⟩
      exact ⟨hAnswered.mpr hAll, hBeyond.mpr hNear, by rw [hEnd]; omega⟩

theorem not_exhausted_zero {steps : ℕ} {d : Date} : ¬cal.Exhausted h steps 0 d := by
  intro hGone
  have hMono := Nat.count_monotone (cal.Trading h) (show h.pos d + 1 ≤ h.pos d + 1 + steps by omega)
  exact absurd hGone.too_few (not_lt.mpr hMono)

/-- A walk gives up exactly where its steps hold too few trading days. -/
theorem walk_gives_up_iff {n steps : ℕ} {m : ℤ} {start d : Date} :
    cal.walk h.step (.notFound m start) steps (n + 1) d = .error (.notFound m start) ↔
      cal.Exhausted h steps (n + 1) d := by
  induction steps generalizing n d with
  | zero =>
    rw [walk, except_bind_error_iff]
    constructor
    · rintro (hStep | ⟨next, hStep, -⟩)
      · exact (h.step_raises d _ hStep).elim
      · exact ⟨fun k hPast hUpTo => absurd hPast (not_lt.mpr hUpTo),
          ⟨next, (h.step_iff d next).mp hStep⟩, Nat.lt_add_of_pos_right n.succ_pos⟩
    · rintro ⟨-, ⟨next, hNext⟩, -⟩
      exact .inr ⟨next, (h.step_iff d next).mpr hNext, rfl⟩
  | succ steps ih =>
    by_cases hFirst : ∃ next answer, h.step d = .ok next ∧ cal.isTradingDay next = .ok answer
    · obtain ⟨next, answer, hStep, hAnswer⟩ := hFirst
      rw [walk_step hStep hAnswer, exhausted_step hStep hAnswer]
      cases answer with
      | false => exact ih
      | true =>
        cases n with
        | zero =>
          rw [if_pos rfl, if_pos rfl, walk_arrived]
          exact iff_of_false (by simp) not_exhausted_zero
        | succ n => exact ih
    · refine iff_of_false ?_ fun hGone => hFirst hGone.first
      rw [walk, except_bind_error_iff]
      rintro (hStep | ⟨next, hStep, hWalk⟩)
      · exact h.step_raises d _ hStep
      · rcases except_bind_error_iff.mp hWalk with hError | ⟨answer, hAnswer, -⟩
        · exact isTradingDay_raises cal next _ hError
        · exact hFirst ⟨next, answer, hStep, hAnswer⟩

/-- A walk raises errors of `date` arithmetic, or gives up. -/
theorem walk_raises {failure error : TradingCalendarError} {steps n : ℕ} {d : Date}
    (hWalk : cal.walk h.step failure steps n d = .error error) : error = failure ∨ DateError error := by
  induction steps generalizing n d with
  | zero =>
    cases n with
    | zero => cases hWalk
    | succ n =>
      rw [walk, except_bind_error_iff] at hWalk
      rcases hWalk with hStep | ⟨next, -, hThrow⟩
      · exact .inr (h.step_raises d error hStep)
      · exact .inl (except_throw_error_iff.mp hThrow).symm
  | succ steps ih =>
    cases n with
    | zero => cases hWalk
    | succ n =>
      rw [walk, except_bind_error_iff] at hWalk
      rcases hWalk with hStep | ⟨next, -, hWalk⟩
      · exact .inr (h.step_raises d error hStep)
      · rcases except_bind_error_iff.mp hWalk with hAnswer | ⟨answer, -, hWalk⟩
        · exact .inr (isTradingDay_raises cal next error hAnswer)
        · cases answer with
          | false => exact ih hWalk
          | true => exact ih hWalk

end CMETradingCalendar

end Futur3.Contracts
