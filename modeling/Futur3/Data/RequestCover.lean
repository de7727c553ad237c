import Futur3.Data.WindowContract
import Mathlib.Data.Int.ConditionallyCompleteOrder

/-! # Whether the request covers the window

The end loses its fraction of a second, and so does the length, before it is
rounded up to whole days if it reaches one. Only the rounding up, of days or of
a float of more than five centuries, makes up for a start late in its second.
-/

namespace Futur3.Data

open Prelude

/-! ## The length in whole seconds -/

/-- The float of a length in microseconds is the whole second after it. -/
def RoundsUp (delta : ℤ) : Prop :=
  2 ^ 53 * (1000000 - delta % 1000000) ≤ 1000000 * 2 ^ Nat.log 2 (delta / 1000000).toNat

instance (delta : ℤ) : Decidable (RoundsUp delta) := inferInstanceAs (Decidable (_ ≤ _))

namespace IBKRHistoricalDataSource

theorem seconds_eq (delta : ℤ) :
    (delta / 1000000 : ℚ) = ((delta / 1000000 : ℤ) : ℚ) + ((delta % 1000000 : ℤ) : ℚ) / 1000000 := by
  have hSplit := congrArg (Int.cast (R := ℚ)) (Int.mul_ediv_add_emod delta 1000000)
  push_cast at hSplit
  linarith

theorem floor_seconds (delta : ℤ) : ⌊(delta / 1000000 : ℚ)⌋ = delta / 1000000 := by
  have h := Rat.floor_intCast_div_natCast delta 1000000
  exact_mod_cast h

theorem fract_seconds (delta : ℤ) :
    Int.fract (delta / 1000000 : ℚ) = ((delta % 1000000 : ℤ) : ℚ) / 1000000 := by
  unfold Int.fract
  rw [floor_seconds, seconds_eq]
  exact add_sub_cancel_left _ _

theorem near_iff_roundsUp_of_second {delta : ℤ} (hSecond : 1000000 ≤ delta) :
    1 - Int.fract (delta / 1000000 : ℚ) ≤ 2 ^ (Int.log 2 (delta / 1000000 : ℚ) - (53 : ℕ)) ↔
      RoundsUp delta := by
  have hOne : (1 : ℚ) ≤ delta / 1000000 := by
    rw [le_div_iff₀ (by norm_num)]
    exact_mod_cast hSecond
  have hFloor : ⌊(delta / 1000000 : ℚ)⌋₊ = (delta / 1000000).toNat := by
    rw [← floor_seconds, Int.floor_toNat]
  rw [Int.log_of_one_le_right 2 hOne, hFloor, fract_seconds, zpow_sub₀ two_ne_zero, zpow_natCast,
    zpow_natCast, le_div_iff₀ (by positivity), one_sub_div (by norm_num), div_mul_eq_mul_div,
    div_le_iff₀ (by norm_num)]
  unfold RoundsUp
  rw [← Int.cast_le (R := ℚ), mul_comm (_ - _), mul_comm (2 ^ _) (1000000 : ℚ)]
  push_cast
  rfl

/-- A float of less than a second does not reach one. -/
theorem not_near_of_lt_second {delta : ℤ} (hPos : 0 < delta) (hShort : delta < 1000000) :
    ¬1 - Int.fract (delta / 1000000 : ℚ) ≤ 2 ^ (Int.log 2 (delta / 1000000 : ℚ) - (53 : ℕ)) := by
  have hQuot : (0 : ℚ) < delta / 1000000 := div_pos (Int.cast_pos.mpr hPos) (by norm_num)
  have hLast : (delta : ℚ) ≤ 999999 := by exact_mod_cast Int.lt_add_one_iff.mp hShort
  have hLog : Int.log 2 (delta / 1000000 : ℚ) < 0 := by
    rw [← Int.lt_zpow_iff_log_lt (by norm_num) hQuot, zpow_zero, div_lt_one (by norm_num)]
    exact_mod_cast hShort
  have hPlace : (2 : ℚ) ^ (Int.log 2 (delta / 1000000 : ℚ) - (53 : ℕ)) ≤ 2 ^ (-53 : ℤ) :=
    zpow_le_zpow_right₀ one_le_two (by push_cast; omega)
  rw [fract_seconds, Int.emod_eq_of_lt hPos.le hShort]
  intro hNear
  have hBound := hNear.trans hPlace
  norm_num at hBound
  linarith

/-- Whether the float of a length reaches the next second. -/
theorem near_iff_roundsUp {delta : ℤ} (hPos : 0 < delta) :
    1 - Int.fract (delta / 1000000 : ℚ) ≤ 2 ^ (Int.log 2 (delta / 1000000 : ℚ) - (53 : ℕ)) ↔
      RoundsUp delta := by
  rcases lt_or_ge delta 1000000 with hShort | hSecond
  · refine iff_of_false (not_near_of_lt_second hPos hShort) ?_
    unfold RoundsUp
    rw [Int.ediv_eq_zero_of_lt hPos.le hShort, Int.toNat_zero, Nat.log_zero_right]
    omega
  · exact near_iff_roundsUp_of_second hSecond

/-- The whole seconds that `_compute_duration_str` counts. -/
theorem totalSeconds_tdiv {delta : ℤ} (hPos : 0 < delta) (hLong : delta < 2 ^ 60) :
    (totalSeconds delta).num.tdiv (totalSeconds delta).den =
      delta / 1000000 + if RoundsUp delta then 1 else 0 := by
  have hQuot : (0 : ℚ) < delta / 1000000 := div_pos (Int.cast_pos.mpr hPos) (by norm_num)
  have hLog : Int.log 2 (delta / 1000000 : ℚ) < 51 := by
    rw [← Int.lt_zpow_iff_log_lt (by norm_num) hQuot, div_lt_iff₀ (by norm_num)]
    have hCast : (delta : ℚ) < 2 ^ 60 := by exact_mod_cast hLong
    exact hCast.trans (by norm_num)
  have hDigits : Int.log 2 (delta / 1000000 : ℚ) + 2 ≤ (53 : ℕ) := by
    push_cast
    omega
  have hNonneg : ((0 : ℤ) : ℚ) ≤ totalSeconds delta :=
    le_roundToPrecision hQuot hDigits (by exact_mod_cast hQuot.le)
  have hFloor : ⌊totalSeconds delta⌋ = _ := floor_roundToPrecision hQuot hDigits
  rw [Int.tdiv_eq_ediv_of_nonneg (Rat.num_nonneg.mpr (by exact_mod_cast hNonneg)),
    ← Rat.floor_def', hFloor, floor_seconds]
  simp only [near_iff_roundsUp hPos]
  split_ifs <;> simp

end IBKRHistoricalDataSource

/-! ## The interval of a request -/

def IBDuration.micros : IBDuration → ℤ
  | .seconds n => n * 1000000
  | .days n => n * dayMicros

/-- A positive duration whose interval up to the end holds every microsecond of the window. -/
def IBRequest.Covers (req : IBRequest) (tsStart tsEnd : DateTime) : Prop :=
  0 < req.duration.micros ∧
  Set.Ico tsStart.instant tsEnd.instant ⊆
    Set.Icc (req.endDatetime.instant - req.duration.micros) req.endDatetime.instant

/-- The end on a whole second or a microsecond past one, a second at least, and a start no
later in its second than the end, unless the length is rounded up: to whole days, or as a
float. -/
def CoverableWindow (tsStart tsEnd : DateTime) : Prop :=
  let delta := tsEnd.instant - tsStart.instant
  let seconds := delta / 1000000
  tsEnd.microsecond ≤ 1 ∧ 1000000 ≤ delta ∧
  (tsStart.microsecond ≤ tsEnd.microsecond ∨ (86400 ≤ seconds ∧ ¬86400 ∣ seconds) ∨ RoundsUp delta)

instance (tsStart tsEnd : DateTime) : Decidable (CoverableWindow tsStart tsEnd) :=
  inferInstanceAs (Decidable (_ ∧ _ ∧ (_ ∨ _ ∨ _)))

namespace DateTime

theorem microsecond_eq_emod {t : DateTime} (h : t.IsUtc) :
    (t.microsecond : ℤ) = t.instant % 1000000 := by
  rw [instant_of_isUtc h]
  unfold microsecond dayMicros
  push_cast
  omega

theorem wholeSecond_instant (t : DateTime) : t.wholeSecond.instant = t.instant - t.microsecond := by
  have hLe : t.microsecond ≤ t.micros := Nat.mod_le _ _
  unfold wholeSecond instant
  simp only
  push_cast [hLe]
  ring

theorem instant_bounds {t : DateTime} (h : t.IsUtc) : 0 ≤ t.instant ∧ t.instant < 2 ^ 60 := by
  have hMicros := t.micros_lt
  have hYear := t.date.toOrdinal_le_year.trans
    (daysBeforeYear_mono (Nat.le_add_left 1 _) (Nat.succ_le_succ t.date.year_le))
  have hLast : Date.daysBeforeYear 10000 = 3652059 := by decide
  rw [hLast] at hYear
  rw [instant_of_isUtc h]
  unfold dayMicros at *
  constructor <;> push_cast <;> omega

end DateTime

theorem ico_subset_icc_iff {a b c d : ℤ} (hNonempty : a < b) :
    Set.Ico a b ⊆ Set.Icc c d ↔ c ≤ a ∧ b - 1 ≤ d := by
  constructor
  · intro h
    have hLast : b - 1 ∈ Set.Ico a b := ⟨by omega, by omega⟩
    exact ⟨(h ⟨le_rfl, hNonempty⟩).1, (h hLast).2⟩
  · rintro ⟨hStart, hEnd⟩ x ⟨hx, hx'⟩
    exact ⟨hStart.trans hx, by omega⟩

theorem DateTime.isUtc_addMicros? {t u : DateTime} {δ : ℕ} {hδ : δ < dayMicros} (hUtc : t.IsUtc)
    (h : t.addMicros? δ hδ = some u) : u.IsUtc := by
  unfold addMicros? at h
  split_ifs at h
  · cases h
    exact hUtc
  · obtain ⟨d, -, rfl⟩ := Option.map_eq_some_iff.mp h
    exact hUtc

theorem DateTime.instant_addMicros? {t u : DateTime} {δ : ℕ} {hδ : δ < dayMicros}
    (h : t.addMicros? δ hδ = some u) : u.instant = t.instant + δ := by
  unfold addMicros? at h
  split_ifs at h
  · cases h
    unfold instant
    push_cast
    ring
  · obtain ⟨d, hDate, rfl⟩ := Option.map_eq_some_iff.mp h
    unfold instant
    rw [Date.toOrdinal_next? hDate]
    push_cast
    rw [add_mul, one_mul]
    omega

theorem RoundsUp.day_le {delta : ℤ} (h : RoundsUp delta) : 86400 ≤ delta / 1000000 := by
  unfold RoundsUp at h
  have hPow : (2 : ℤ) ^ 17 ≤ 2 ^ Nat.log 2 (delta / 1000000).toNat := by omega
  have hLog : 17 ≤ Nat.log 2 (delta / 1000000).toNat :=
    (Nat.pow_le_pow_iff_right one_lt_two).mp (by exact_mod_cast hPow)
  have hNonzero : (delta / 1000000).toNat ≠ 0 := by
    intro hZero
    rw [hZero, Nat.log_zero_right] at hLog
    omega
  have hSeconds := Nat.pow_le_of_le_log hNonzero hLog
  omega

namespace IBKRHistoricalDataSource

theorem computeDuration_micros {tsStart tsEnd : DateTime} (hStart : tsStart.IsUtc)
    (hEnd : tsEnd.IsUtc) (hOrder : tsStart.instant < tsEnd.instant) :
    (computeDuration tsStart tsEnd).micros =
      let delta := tsEnd.instant - tsStart.instant
      let counted := delta / 1000000 + if RoundsUp delta then 1 else 0
      if counted < 86400 then counted * 1000000 else (counted + 86399) / 86400 * dayMicros := by
  have hBounds := DateTime.instant_bounds hStart
  have hBounds' := DateTime.instant_bounds hEnd
  have hCounted := @totalSeconds_tdiv (tsEnd.instant - tsStart.instant) (by omega) (by omega)
  unfold computeDuration secondsPerDay
  simp only [hCounted]
  split_ifs <;> simp only [IBDuration.micros] <;> congr 2 <;> omega

theorem barsRequest_ok {useRth : Bool} {contract : ContractSymbol} {tsStart tsEnd : DateTime}
    {resolution : BarResolution} {req : IBRequest} (hEnd : tsEnd.IsUtc)
    (h : barsRequest useRth contract tsStart tsEnd resolution = .ok req) :
    tsStart.instant < tsEnd.instant ∧ req.endDatetime = tsEnd.wholeSecond ∧
      req.duration = computeDuration tsStart tsEnd := by
  obtain ⟨ordered, hOrdered, h⟩ := except_bind_ok_iff.mp h
  obtain ⟨hGuard, h⟩ := except_raise_guard_ok_iff.mp h
  cases hSize : barSize? resolution with
  | none =>
    rw [hSize] at h
    cases h
  | some barSize =>
    rw [hSize] at h
    obtain ⟨⟨symbol, lastTradeDate, exchange⟩, -, h⟩ := except_bind_ok_iff.mp h
    obtain ⟨endDatetime, hUntil, h⟩ := except_bind_ok_iff.mp h
    rw [formatEndDatetime, if_pos (DateTime.isAware_of_isUtc hEnd), toUtc,
      DateTime.toUtc?_of_isUtc hEnd] at hUntil
    cases except_pure_ok_iff.mp hUntil
    cases except_pure_ok_iff.mp h
    refine ⟨?_, rfl, rfl⟩
    simpa [(before?_ok_iff.mp hOrdered).2] using hGuard

/-- The request covers the window exactly when the window ends on a whole second and the
length in whole seconds, rounded as it is, reaches back to the start. -/
theorem barsRequest_covers_iff {useRth : Bool} {contract : ContractSymbol} {tsStart tsEnd : DateTime}
    {resolution : BarResolution} {req : IBRequest} (hStart : tsStart.IsUtc) (hEnd : tsEnd.IsUtc)
    (h : barsRequest useRth contract tsStart tsEnd resolution = .ok req) :
    req.Covers tsStart tsEnd ↔ CoverableWindow tsStart tsEnd := by
  obtain ⟨hOrder, hUntil, hDuration⟩ := barsRequest_ok hEnd h
  have hMicros := computeDuration_micros hStart hEnd hOrder
  have hFirst := DateTime.microsecond_eq_emod hStart
  have hLast := DateTime.microsecond_eq_emod hEnd
  unfold IBRequest.Covers CoverableWindow
  rw [ico_subset_icc_iff hOrder, hUntil, hDuration, hMicros, DateTime.wholeSecond_instant]
  simp only
  generalize hDelta : tsEnd.instant - tsStart.instant = delta
  by_cases hUp : RoundsUp delta
  · have hDay := hUp.day_le
    simp only [hUp, if_true, or_true, and_true]
    unfold dayMicros
    split_ifs <;> omega
  · simp only [hUp, if_false, or_false, add_zero]
    unfold dayMicros
    split_ifs <;> omega

/-- `get_bars` sends that request, and it covers the window of two times in UTC exactly when
the window is coverable. -/
theorem getBars_covers_iff {ν : Type} {useRth : Bool} {contract : ContractSymbol}
    {tsStart tsEnd : DateTime} {resolution : BarResolution} {req : IBRequest}
    (hStart : tsStart.IsUtc) (hEnd : tsEnd.IsUtc)
    (h : barsRequest useRth contract tsStart tsEnd resolution = .ok req) :
    (∀ (client : IBClient ν) numbers sha256 now,
      getBars client numbers sha256 useRth now contract tsStart tsEnd resolution = do
        ensureConnected client
        (← request client req).mapM (ibBarToRaw numbers sha256 contract resolution now)) ∧
    (req.Covers tsStart tsEnd ↔ CoverableWindow tsStart tsEnd) := by
  refine ⟨?_, barsRequest_covers_iff hStart hEnd h⟩
  intro client numbers sha256 now
  unfold getBars
  rw [h]
  rfl

theorem afternoon_isUtc (minute : Fin 90) : (afternoon minute).IsUtc := rfl

theorem getBars_covers_iff_hour :
    ∃ req, barsRequest false "ESZ25" (afternoon 0) (afternoon 60) .min1 = .ok req ∧
      req.Covers (afternoon 0) (afternoon 60) := by
  obtain ⟨req, hReq⟩ : ∃ req,
      barsRequest false "ESZ25" (afternoon 0) (afternoon 60) .min1 = .ok req := ⟨_, rfl⟩
  exact ⟨req, hReq, (getBars_covers_iff (ν := ℕ) (afternoon_isUtc 0) (afternoon_isUtc 60) hReq).2.mpr
    (by decide +kernel)⟩

/-! ## The window of the verifier -/

/-- No request for the millisecond that `verify_bar` asks for covers it. -/
theorem verifyBar_not_covered {useRth : Bool} {contract : ContractSymbol} {barTs tsEnd : DateTime}
    {resolution : BarResolution} {req : IBRequest} (hStart : barTs.IsUtc)
    (hEnd : barWindowEnd? barTs = some tsEnd)
    (h : barsRequest useRth contract barTs tsEnd resolution = .ok req) :
    ¬req.Covers barTs tsEnd := by
  have hUtc := DateTime.isUtc_addMicros? hStart hEnd
  rw [barsRequest_covers_iff hStart hUtc h]
  rintro ⟨-, hSecond, -⟩
  rw [DateTime.instant_addMicros? hEnd, barWindowEpsilon] at hSecond
  omega

theorem barWindow_uncovered :
    ∃ tsEnd req, barWindowEnd? (afternoon 0) = some tsEnd ∧
      barsRequest false "ESZ25" (afternoon 0) tsEnd .min1 = .ok req ∧
      req.duration = .seconds 0 ∧ ¬req.Covers (afternoon 0) tsEnd := by
  have hSent : (barWindowEnd? (afternoon 0)).map (fun tsEnd =>
      (barsRequest false "ESZ25" (afternoon 0) tsEnd .min1).map IBRequest.duration) =
        some (.ok (.seconds 0)) := by
    decide +kernel
  obtain ⟨tsEnd, hEnd, hReq⟩ := Option.map_eq_some_iff.mp hSent
  obtain ⟨req, hReq, hZero⟩ := except_map_ok hReq
  exact ⟨tsEnd, req, hEnd, hReq, hZero, verifyBar_not_covered (afternoon_isUtc 0) hEnd hReq⟩

end IBKRHistoricalDataSource

end Futur3.Data
