import Futur3.Execution.DecayMonitor
import Futur3.Prelude.Deviations
import Futur3.Prelude.Method
import Mathlib.Data.List.DropRight

/-! # When the verdict follows the trailing ratio

The ratio is defined on the sessions that vary. Where the trailing sessions do not, the
verdict follows the cumulative result alone, whatever those sessions lost.
-/

namespace Futur3.Execution

open Prelude Deviations

theorem sliceFrom_neg {α : Type} (xs : List α) {w : ℤ} (hw : 1 ≤ w) : sliceFrom xs (-w) = xs.rtake w.toNat := by
  have hStart : (-w + xs.length).toNat = xs.length - w.toNat := by omega
  rw [sliceFrom, if_pos (by omega), hStart, List.rtake]

/-! ## The ratio -/

variable {K : Type} [Field K] [LinearOrder K]

/-- What each verdict rests on. -/
theorem healthVerdict_cases (n : ℕ) (cumulative : K) (rollingSr : Option K) (rollingWindow minSessions : ℤ) :
    (n < minSessions ∧ (healthVerdict n cumulative rollingSr rollingWindow minSessions).1 = .warmingUp) ∨
      (minSessions ≤ n ∧ (cumulative ≤ 0 ∨ ∃ sr ∈ rollingSr, sr ≤ 0) ∧
        (healthVerdict n cumulative rollingSr rollingWindow minSessions).1 = .decayed) ∨
      (minSessions ≤ n ∧ 0 < cumulative ∧ (∀ sr ∈ rollingSr, 0 < sr) ∧
        (healthVerdict n cumulative rollingSr rollingWindow minSessions).1 = .healthy) := by
  unfold healthVerdict
  split_ifs with hFew hDecay
  · exact .inl ⟨hFew, rfl⟩
  · exact .inr (.inl ⟨not_lt.mp hFew, hDecay, rfl⟩)
  · push Not at hDecay
    exact .inr (.inr ⟨not_lt.mp hFew, hDecay.1, hDecay.2, rfl⟩)

theorem assessDecay_ok {sqrt : K → K} {pnl : List K} {periodsPerYear : K} {rollingWindow minSessions : ℤ}
    {status : DecayStatus K}
    (h : assessDecay sqrt pnl periodsPerYear rollingWindow minSessions = .ok status) :
    sharpe sqrt (sliceFrom pnl (-rollingWindow)) periodsPerYear = .ok status.rollingSharpe ∧
      status.verdict =
        (healthVerdict pnl.length pnl.sum status.rollingSharpe rollingWindow minSessions).1 := by
  obtain ⟨fullSr, -, h⟩ := except_bind_ok_iff.mp h
  obtain ⟨rollingSr, hRolling, h⟩ := except_bind_ok_iff.mp h
  cases h
  exact ⟨hRolling, rfl⟩

variable [IsStrictOrderedRing K] {sqrt : K → K} {pnl : List K} {periodsPerYear : K}

theorem sharpe_of_same (h : ¬Varies pnl) : sharpe sqrt pnl periodsPerYear = .ok none := by
  have hVar : squares pnl / (pnl.length - 1) ≤ 0 := (variance_of_same h).le
  rcases lt_or_ge pnl.length minForSharpe with hShort | hLong
  · exact if_pos hShort
  · exact (if_neg (not_lt.mpr hLong)).trans (if_pos hVar)

variable (sqrt periodsPerYear) in
theorem sharpe_of_varies (h : Varies pnl) : ∃ var, 0 < var ∧
    sharpe sqrt pnl periodsPerYear =
      (mathSqrt sqrt periodsPerYear).map fun year => some (mean pnl / sqrt var * year) := by
  have hVar := h.variance_pos
  refine ⟨_, hVar, ?_⟩
  apply (if_neg (not_lt.mpr h.length)).trans
  apply (if_neg (not_le.mpr hVar)).trans
  change (mathSqrt sqrt (squares pnl / (pnl.length - 1)) >>= fun deviation => mathSqrt sqrt periodsPerYear >>=
    fun year => pure (some (mean pnl / deviation * year))) = _
  rw [mathSqrt, if_neg (not_lt.mpr hVar.le)]
  cases mathSqrt sqrt periodsPerYear <;> rfl

theorem sharpe_some {sr : K} (hSqrt : IsSqrt sqrt) (h : sharpe sqrt pnl periodsPerYear = .ok (some sr)) :
    Varies pnl ∧ (0 < sr → 0 < pnl.sum) := by
  have hVaries : Varies pnl := by
    by_contra hSame
    rw [sharpe_of_same hSame] at h
    cases h
  obtain ⟨var, hVar, hRatio⟩ := sharpe_of_varies sqrt periodsPerYear hVaries
  rw [hRatio] at h
  obtain ⟨year, hYear, hValue⟩ := except_map_ok h
  cases hValue
  refine ⟨hVaries, fun hPos => ?_⟩
  have hRoot : 0 ≤ year := by
    unfold mathSqrt at hYear
    split at hYear
    · cases hYear
    · cases hYear
      exact hSqrt.nonneg _ (not_lt.mp ‹_›)
  have hMean : 0 < mean pnl := by
    by_contra hLow
    have hRatio := div_nonpos_of_nonpos_of_nonneg (not_lt.mp hLow) (hSqrt.nonneg var hVar.le)
    exact absurd hPos (not_lt.mpr (mul_nonpos_of_nonpos_of_nonneg hRatio hRoot))
  have hCount : (0 : K) < pnl.length := by
    have := hVaries.length
    exact_mod_cast (show 0 < pnl.length by omega)
  rw [← mean_mul_length]
  exact mul_pos hMean hCount

variable (sqrt) in
theorem sharpe_returns (hYear : 0 ≤ periodsPerYear) (pnl : List K) :
    ∃ sr, sharpe sqrt pnl periodsPerYear = .ok sr := by
  by_cases hVaries : Varies pnl
  · obtain ⟨var, -, hRatio⟩ := sharpe_of_varies sqrt periodsPerYear hVaries
    rw [hRatio, mathSqrt, if_neg (not_lt.mpr hYear)]
    exact ⟨_, rfl⟩
  · exact ⟨_, sharpe_of_same hVaries⟩

/-! ## The verdict -/

variable (sqrt) in
theorem assessDecay_returns (hYear : 0 ≤ periodsPerYear) (pnl : List K) (rollingWindow minSessions : ℤ) :
    ∃ status, assessDecay sqrt pnl periodsPerYear rollingWindow minSessions = .ok status := by
  obtain ⟨fullSr, hFull⟩ := sharpe_returns sqrt hYear pnl
  obtain ⟨rollingSr, hRolling⟩ := sharpe_returns sqrt hYear (sliceFrom pnl (-rollingWindow))
  unfold assessDecay
  rw [except_bind_of_ok hFull, except_bind_of_ok hRolling]
  exact ⟨_, rfl⟩

/-- The verdict that the documented rule gives to the sessions. -/
structure SoundVerdict (pnl : List K) (rollingWindow minSessions : ℤ) (status : DecayStatus K) : Prop where
  warmingUp : status.verdict = .warmingUp ↔ pnl.length < minSessions
  healthy : minSessions ≤ pnl.length →
    (status.verdict = .healthy ↔ 0 < pnl.sum ∧ ∃ sr, status.rollingSharpe = some sr ∧ 0 < sr)
  decayed : minSessions ≤ pnl.length →
    (status.verdict = .decayed ↔ ¬(0 < pnl.sum ∧ ∃ sr, status.rollingSharpe = some sr ∧ 0 < sr))
  losing : (pnl.rtake rollingWindow.toNat).sum ≤ 0 → status.verdict ≠ .healthy

variable {rollingWindow minSessions : ℤ} {status : DecayStatus K}

theorem healthy_of_same (hWindow : 1 ≤ rollingWindow) (hMany : minSessions ≤ pnl.length)
    (hGain : 0 < pnl.sum) (hSame : ¬Varies (pnl.rtake rollingWindow.toNat))
    (h : assessDecay sqrt pnl periodsPerYear rollingWindow minSessions = .ok status) :
    status.rollingSharpe = none ∧ status.verdict = .healthy := by
  obtain ⟨hRolling, hVerdict⟩ := assessDecay_ok h
  rw [sliceFrom_neg pnl hWindow, sharpe_of_same hSame] at hRolling
  have hNone : status.rollingSharpe = none := (Except.ok.inj hRolling).symm
  refine ⟨hNone, ?_⟩
  rw [hVerdict, hNone, healthVerdict, if_neg (not_lt.mpr hMany), if_neg (by simpa using hGain)]

theorem exists_sharpe_of_varies (hWindow : 1 ≤ rollingWindow)
    (hVaries : Varies (pnl.rtake rollingWindow.toNat))
    (h : assessDecay sqrt pnl periodsPerYear rollingWindow minSessions = .ok status) :
    ∃ sr, status.rollingSharpe = some sr := by
  obtain ⟨var, -, hRatio⟩ := sharpe_of_varies sqrt periodsPerYear hVaries
  have hRolling := (assessDecay_ok h).1
  rw [sliceFrom_neg pnl hWindow, hRatio] at hRolling
  obtain ⟨year, -, hSome⟩ := except_map_ok hRolling
  exact ⟨_, hSome.symm⟩

theorem soundVerdict_iff (hSqrt : IsSqrt sqrt) (hWindow : 1 ≤ rollingWindow)
    (h : assessDecay sqrt pnl periodsPerYear rollingWindow minSessions = .ok status) :
    SoundVerdict pnl rollingWindow minSessions status ↔
      pnl.length < minSessions ∨ pnl.sum ≤ 0 ∨ Varies (pnl.rtake rollingWindow.toNat) := by
  constructor
  · intro hSound
    by_contra hDefect
    push Not at hDefect
    obtain ⟨hMany, hGain, hSame⟩ := hDefect
    obtain ⟨hNone, hHealthy⟩ := healthy_of_same hWindow hMany hGain hSame h
    obtain ⟨-, sr, hSome, -⟩ := (hSound.healthy hMany).mp hHealthy
    rw [hNone] at hSome
    cases hSome
  · intro hCondition
    obtain ⟨hRolling, hVerdict⟩ := assessDecay_ok h
    rw [sliceFrom_neg pnl hWindow] at hRolling
    rcases healthVerdict_cases pnl.length pnl.sum status.rollingSharpe rollingWindow minSessions with
      ⟨hFew, hCase⟩ | ⟨hMany, hDecay, hCase⟩ | ⟨hMany, hGain, hRatio, hCase⟩ <;> rw [hCase] at hVerdict
    · exact ⟨by simp [hVerdict, hFew], fun hMany => absurd hFew (not_lt.mpr hMany),
        fun hMany => absurd hFew (not_lt.mpr hMany), by simp [hVerdict]⟩
    · have hPoor : ¬(0 < pnl.sum ∧ ∃ sr, status.rollingSharpe = some sr ∧ 0 < sr) := by
        rintro ⟨hGain, sr, hSome, hPos⟩
        rcases hDecay with hLoss | ⟨sr', hSome', hLow⟩
        · exact absurd hGain (not_lt.mpr hLoss)
        · rw [hSome] at hSome'
          cases hSome'
          exact absurd hPos (not_lt.mpr hLow)
      exact ⟨by simp [hVerdict, hMany], fun _ => iff_of_false (by simp [hVerdict]) hPoor,
        fun _ => iff_of_true hVerdict hPoor, by simp [hVerdict]⟩
    · have hVaries := (hCondition.resolve_left (not_lt.mpr hMany)).resolve_left (not_le.mpr hGain)
      obtain ⟨sr, hSome⟩ := exists_sharpe_of_varies hWindow hVaries h
      have hPos : 0 < sr := hRatio sr hSome
      have hGood : 0 < pnl.sum ∧ ∃ sr, status.rollingSharpe = some sr ∧ 0 < sr := ⟨hGain, sr, hSome, hPos⟩
      refine ⟨by simp [hVerdict, hMany], fun _ => iff_of_true hVerdict hGood,
        fun _ => iff_of_false (by simp [hVerdict]) (not_not.mpr hGood), fun hLoss => ?_⟩
      rw [hSome] at hRolling
      exact absurd ((sharpe_some hSqrt hRolling).2 hPos) (not_lt.mpr hLoss)

/-- A losing window of sessions that do not vary is the one that passes for healthy. -/
theorem losing_iff (hSqrt : IsSqrt sqrt) (hWindow : 1 ≤ rollingWindow)
    (h : assessDecay sqrt pnl periodsPerYear rollingWindow minSessions = .ok status) :
    ((pnl.rtake rollingWindow.toNat).sum ≤ 0 → status.verdict ≠ .healthy) ↔
      pnl.length < minSessions ∨ pnl.sum ≤ 0 ∨ Varies (pnl.rtake rollingWindow.toNat) ∨
        0 < (pnl.rtake rollingWindow.toNat).sum := by
  constructor
  · intro hLosing
    by_contra hDefect
    push Not at hDefect
    obtain ⟨hMany, hGain, hSame, hLoss⟩ := hDefect
    exact hLosing hLoss (healthy_of_same hWindow hMany hGain hSame h).2
  · intro hCondition hLoss
    refine ((soundVerdict_iff hSqrt hWindow h).mpr ?_).losing hLoss
    exact hCondition.imp_right fun hRest => hRest.imp_right fun hRest =>
      hRest.resolve_right (not_lt.mpr hLoss)

/-- Reals stand for decimals and floats. -/
theorem assessDecay_sound_iff (pnl : List ℝ) (periodsPerYear : ℝ) {rollingWindow : ℤ}
    (hWindow : 1 ≤ rollingWindow) (minSessions : ℤ) :
    (0 ≤ periodsPerYear →
      ∃ status, assessDecay Real.sqrt pnl periodsPerYear rollingWindow minSessions = .ok status) ∧
    ∀ status, assessDecay Real.sqrt pnl periodsPerYear rollingWindow minSessions = .ok status →
      (SoundVerdict pnl rollingWindow minSessions status ↔
        pnl.length < minSessions ∨ pnl.sum ≤ 0 ∨ Varies (pnl.rtake rollingWindow.toNat)) ∧
      (((pnl.rtake rollingWindow.toNat).sum ≤ 0 → status.verdict ≠ .healthy) ↔
        pnl.length < minSessions ∨ pnl.sum ≤ 0 ∨ Varies (pnl.rtake rollingWindow.toNat) ∨
          0 < (pnl.rtake rollingWindow.toNat).sum) := by
  constructor
  · exact fun hYear => assessDecay_returns Real.sqrt hYear pnl rollingWindow minSessions
  · intro status h
    exact ⟨soundVerdict_iff isSqrt_real hWindow h, losing_iff isSqrt_real hWindow h⟩

theorem assessDecay_sound_iff_gain : (0 ≤ (252 : ℝ) →
      ∃ status, assessDecay Real.sqrt [1, 2] 252 2 2 = .ok status) ∧
    ∀ status, assessDecay Real.sqrt [1, 2] 252 2 2 = .ok status →
      (SoundVerdict [1, 2] 2 2 status ↔
        (2 : ℤ) < 2 ∨ [(1 : ℝ), 2].sum ≤ 0 ∨ Varies ([(1 : ℝ), 2].rtake 2)) ∧
      ((([(1 : ℝ), 2].rtake 2).sum ≤ 0 → status.verdict ≠ .healthy) ↔
        (2 : ℤ) < 2 ∨ [(1 : ℝ), 2].sum ≤ 0 ∨ Varies ([(1 : ℝ), 2].rtake 2) ∨
          0 < ([(1 : ℝ), 2].rtake 2).sum) :=
  assessDecay_sound_iff [1, 2] 252 (by decide) 2

/-- Three equal losses after one gain. -/
theorem assessDecay_losing_healthy : ∃ status,
    assessDecay Real.sqrt [100, -1, -1, -1] 252 3 3 = .ok status ∧
      status.verdict = .healthy ∧ status.rollingSharpe = none ∧
      ([(100 : ℝ), -1, -1, -1].rtake 3).sum = -3 ∧
      ¬SoundVerdict [100, -1, -1, -1] 3 3 status := by
  have hYear : (0 : ℝ) ≤ 252 := by norm_num
  obtain ⟨status, hStatus⟩ := assessDecay_returns Real.sqrt hYear [100, -1, -1, -1] 3 3
  have hWindow : [(100 : ℝ), -1, -1, -1].rtake (3 : ℤ).toNat = [-1, -1, -1] := rfl
  have hSame : ¬Varies ([(100 : ℝ), -1, -1, -1].rtake (3 : ℤ).toNat) := by
    rw [hWindow]
    simp [Varies]
  have hLoss : ([(100 : ℝ), -1, -1, -1].rtake (3 : ℤ).toNat).sum = -3 := by
    rw [hWindow]
    norm_num
  obtain ⟨hNone, hHealthy⟩ := healthy_of_same (by decide) (by decide) (by norm_num) hSame hStatus
  exact ⟨status, hStatus, hHealthy, hNone, hLoss, fun hSound => hSound.losing (by linarith) hHealthy⟩

end Futur3.Execution
