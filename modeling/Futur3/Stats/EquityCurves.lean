import Futur3.Stats.Performance
import Futur3.Stats.PromotionSpec

/-! # What an equity curve is read for

The drawdown is the worst fall from a point to a later one. The period returns of a curve
compound back to it, and those of a blown account to the curve with zeros from the breach
on. Neither sees the unit of the money.
-/

namespace Futur3.Stats

open Prelude Execution Deviations

/-! ## Drawdowns -/

section Drawdown

variable {K : Type} [Field K] [LinearOrder K] [IsStrictOrderedRing K] {equity : List K} {d : K}

omit [IsStrictOrderedRing K] in
theorem fall_eq {peak : K} (h : 0 < peak) (x : K) : fall peak x = 1 - x / peak := by
  rw [fall, sub_div, div_self h.ne']

omit [LinearOrder K] [IsStrictOrderedRing K] in
theorem fall_self (x : K) : fall x x = 0 := by
  rw [fall, sub_self, zero_div]

theorem fall_mono (p q x : K) (hp : 0 < p) (hq : 0 < q) (hx : 0 < x) (h : p ≤ q) : fall p x ≤ fall q x := by
  rw [fall_eq hp, fall_eq hq]
  exact sub_le_sub_left (div_le_div_of_nonneg_left hx.le hp h) 1

/-- The drawdown is the worst fall from a point to a later one. -/
theorem maxDrawdown_le_iff (hNil : equity ≠ []) (hEquity : ∀ x ∈ equity, 0 < x) :
    maxDrawdown equity ≤ d ↔ 0 ≤ d ∧ equity.Pairwise fun high low => fall high low ≤ d := by
  obtain ⟨first, rest, rfl⟩ := List.exists_cons_of_ne_nil hNil
  rw [maxDrawdown, List.headD_cons, worstFrom_le_iff fall_mono hEquity (hEquity first List.mem_cons_self)]
  refine and_congr_right fun hd => and_iff_right_of_imp fun hPairs => ?_
  simp only [fall_self, hd, and_true, List.forall_mem_cons, true_and]
  exact (List.pairwise_cons.mp hPairs).1

/-- There is no drawdown on a curve that never falls, and on no other. -/
theorem maxDrawdown_pos_iff (hNil : equity ≠ []) (hEquity : ∀ x ∈ equity, 0 < x) :
    0 < maxDrawdown equity ↔ ¬equity.Pairwise (· ≤ ·) := by
  rw [← not_le, maxDrawdown_le_iff hNil hEquity, and_iff_right le_rfl, not_iff_not]
  refine List.Pairwise.iff_of_mem fun {high low} hHigh _ => ?_
  rw [fall_eq (hEquity high hHigh), sub_nonpos, one_le_div (hEquity high hHigh)]

theorem maxDrawdown_lt_one (hNil : equity ≠ []) (hEquity : ∀ x ∈ equity, 0 < x) : maxDrawdown equity < 1 := by
  obtain ⟨first, rest, rfl⟩ := List.exists_cons_of_ne_nil hNil
  refine worstFrom_lt (fun p x hp hx => ?_) hEquity (hEquity first List.mem_cons_self) one_pos
  rw [fall_eq hp]
  exact sub_lt_self 1 (div_pos hx hp)

theorem maxDrawdown_scaled {c : K} (hc : 0 < c) (equity : List K) :
    maxDrawdown (equity.map fun x => c * x) = maxDrawdown equity := by
  have hLoop : ∀ (xs : List K) (peak worst : K),
      worstFrom fall (c * peak) worst (xs.map fun x => c * x) = worstFrom fall peak worst xs := by
    intro xs
    induction xs with
    | nil => exact fun _ _ => rfl
    | cons x rest ih =>
      intro peak worst
      have hFall : ∀ p, fall (c * p) (c * x) = fall p x := by
        intro p
        rw [fall, fall, ← mul_sub, mul_div_mul_left _ _ hc.ne']
      rw [List.map_cons, worstFrom, worstFrom, ← mul_max_of_nonneg _ _ hc.le, hFall, ih]
  cases equity with
  | nil => rfl
  | cons first rest => exact hLoop (first :: rest) first 0

end Drawdown

/-! ## The summary -/

section Summary

variable {K : Type} [Field K] {equity : List K}

theorem length_periodReturns (equity : List K) : (periodReturns equity).length = equity.length - 1 := by
  rw [periodReturns, List.length_zipWith, List.length_tail]
  omega

theorem periodReturns_scaled {c : K} (hc : c ≠ 0) (equity : List K) :
    periodReturns (equity.map fun x => c * x) = periodReturns equity := by
  rw [periodReturns, ← List.map_tail, List.zipWith_map]
  simp only [mul_div_mul_left _ _ hc]
  rfl

/-- The periods compound to the total. -/
theorem prod_periodReturns {first : K} {rest : List K} (h : ∀ x ∈ first :: rest, x ≠ 0) :
    ((periodReturns (first :: rest)).map fun r => 1 + r).prod = (first :: rest).getLastD 0 / first := by
  induction rest generalizing first with
  | nil =>
    have hFirst : first ≠ 0 := h first List.mem_cons_self
    simp [periodReturns, div_self hFirst]
  | cons x rest ih =>
    obtain ⟨hFirst, hRest⟩ := List.forall_mem_cons.mp h
    have hx : x ≠ 0 := hRest x List.mem_cons_self
    have hSplit : periodReturns (first :: x :: rest) = (x / first - 1) :: periodReturns (x :: rest) := rfl
    have hLast : (first :: x :: rest).getLastD 0 = (x :: rest).getLastD 0 := by
      simp
    rw [hSplit, List.map_cons, List.prod_cons, ih hRest, hLast, add_sub_cancel]
    field_simp

variable [LinearOrder K] [IsStrictOrderedRing K]

omit [IsStrictOrderedRing K] in
theorem computeMetrics_ok {math : StatsModule K} {periodsPerYear : K} (hPositive : 0 < periodsPerYear)
    (hCount : minEquityPoints ≤ equity.length) (hEquity : ∀ x ∈ equity, 0 < x) (riskFreeRate : K) :
    ∃ metrics, computeMetrics math equity periodsPerYear riskFreeRate = .ok metrics ∧
      metrics.totalReturn = equity.getLastD 0 / equity.headD 0 - 1 ∧
      metrics.annualizedReturn =
        math.pow (equity.getLastD 0 / equity.headD 0) (periodsPerYear / (periodReturns equity).length) - 1 ∧
      metrics.maxDrawdown = maxDrawdown equity ∧
      metrics.calmar =
        if 0 < maxDrawdown equity then some (metrics.annualizedReturn / maxDrawdown equity) else none := by
  have hAny : (equity.any fun x => x ≤ 0) = false := by
    simpa using hEquity
  unfold computeMetrics
  dsimp only
  rw [if_neg (not_le.mpr hPositive), if_neg (not_lt.mpr hCount), hAny]
  exact ⟨_, rfl, rfl, rfl, rfl, rfl⟩

theorem computeMetrics_scaled (math : StatsModule K) {c : K} (hc : 0 < c) (equity : List K)
    (periodsPerYear riskFreeRate : K) :
    computeMetrics math (equity.map fun x => c * x) periodsPerYear riskFreeRate =
      computeMetrics math equity periodsPerYear riskFreeRate := by
  have hAny : ((equity.map fun x => c * x).any fun x => x ≤ 0) = equity.any fun x => x ≤ 0 := by
    have hSign : ∀ x, c * x ≤ 0 ↔ x ≤ 0 := by
      intro x
      rw [← not_lt, ← not_lt, mul_pos_iff_of_pos_left hc]
    simp only [List.any_map, Function.comp_def, hSign]
  have hRatio : (equity.map fun x => c * x).getLastD 0 / (equity.map fun x => c * x).headD 0 =
      equity.getLastD 0 / equity.headD 0 := by
    have hHead : (equity.map fun x => c * x).headD 0 = c * equity.headD 0 := by
      cases equity <;> simp
    have hLast : (equity.map fun x => c * x).getLastD 0 = c * equity.getLastD 0 := by
      rw [List.getLastD_eq_getLast?, List.getLastD_eq_getLast?, List.getLast?_map]
      cases equity.getLast? <;> simp
    rw [hHead, hLast, mul_div_mul_left _ _ hc.ne']
  unfold computeMetrics
  simp only [hAny, hRatio, List.length_map, periodReturns_scaled hc.ne', maxDrawdown_scaled hc]

end Summary

/-- The drawdown of an accepted curve is its worst fall from a point to a later one and less than all of it; the
ratio to it is missing exactly on a curve that never falls, and is positive exactly on one that ends higher. The
periods compound to the total return, and the unit of the money does not matter. -/
theorem computeMetrics_drawdown {periodsPerYear : ℝ} (hPositive : 0 < periodsPerYear) {equityCurve : List ℝ}
    (hCount : 2 ≤ equityCurve.length) (hEquity : ∀ x ∈ equityCurve, 0 < x) (riskFreeRate : ℝ) : ∃ metrics,
    computeMetrics realStats equityCurve periodsPerYear riskFreeRate = .ok metrics ∧
      (∀ d, metrics.maxDrawdown ≤ d ↔ 0 ≤ d ∧ equityCurve.Pairwise fun high low => (high - low) / high ≤ d) ∧
      metrics.maxDrawdown < 1 ∧ (metrics.calmar = none ↔ equityCurve.Pairwise (· ≤ ·)) ∧
      (∀ calmar ∈ metrics.calmar, 0 < calmar ↔ equityCurve.headD 0 < equityCurve.getLastD 0) ∧
      1 + metrics.totalReturn = ((periodReturns equityCurve).map fun r => 1 + r).prod ∧
      ∀ c : ℝ, 0 < c →
        computeMetrics realStats (equityCurve.map fun x => c * x) periodsPerYear riskFreeRate = .ok metrics := by
  obtain ⟨metrics, hOk, hTotal, hAnnual, hDrawdown, hCalmar⟩ := computeMetrics_ok hPositive hCount hEquity riskFreeRate
  have hNil : equityCurve ≠ [] := List.ne_nil_of_length_pos (zero_lt_two.trans_le hCount)
  have hFalls := maxDrawdown_pos_iff hNil hEquity
  refine ⟨metrics, hOk, fun d => ?_, ?_, ?_, fun calmar hSome => ?_, ?_, fun c hc => ?_⟩
  · rw [hDrawdown]
    exact maxDrawdown_le_iff hNil hEquity
  · rw [hDrawdown]
    exact maxDrawdown_lt_one hNil hEquity
  · rw [hCalmar, ite_eq_right_iff, ← not_iff_not, ← hFalls]
    simp
  · rw [hCalmar] at hSome
    split_ifs at hSome with hPos
    · obtain rfl := Option.some.inj hSome
      have hPeriods : 0 < (periodReturns equityCurve).length := by
        rw [length_periodReturns]
        omega
      have hExponent : 0 < periodsPerYear / (periodReturns equityCurve).length :=
        div_pos hPositive (Nat.cast_pos.mpr hPeriods)
      have hFirst : 0 < equityCurve.headD 0 := by
        obtain ⟨first, rest, rfl⟩ := List.exists_cons_of_ne_nil hNil
        exact hEquity first List.mem_cons_self
      have hLast : 0 < equityCurve.getLastD 0 := by
        rw [List.getLastD_eq_getLast?, List.getLast?_eq_getLast_of_ne_nil hNil]
        exact hEquity _ (List.getLast_mem hNil)
      rw [div_pos_iff_of_pos_right hPos, hAnnual, sub_pos]
      change 1 < (equityCurve.getLastD 0 / equityCurve.headD 0) ^ (_ : ℝ) ↔ _
      rw [Real.one_lt_rpow_iff_of_pos (div_pos hLast hFirst), one_lt_div hFirst]
      constructor
      · rintro (⟨hAbove, -⟩ | ⟨-, hNeg⟩)
        · exact hAbove
        · exact absurd hNeg hExponent.le.not_gt
      · exact fun hAbove => .inl ⟨hAbove, hExponent⟩
    · cases hSome
  · obtain ⟨first, rest, rfl⟩ := List.exists_cons_of_ne_nil hNil
    rw [hTotal, prod_periodReturns fun x hx => (hEquity x hx).ne', add_sub_cancel]
    rfl
  · rw [computeMetrics_scaled realStats hc, hOk]

/-- A curve that falls by a half and comes back. -/
theorem computeMetrics_drawdown_half : ∃ metrics, computeMetrics realStats [2, 1, 3] 252 0 = .ok metrics ∧
    metrics.maxDrawdown = 1 / 2 := by
  obtain ⟨metrics, hOk, hBound, -⟩ := computeMetrics_drawdown (show (0 : ℝ) < 252 by norm_num)
    (show 2 ≤ [(2 : ℝ), 1, 3].length by simp) (by simp) 0
  refine ⟨metrics, hOk, le_antisymm ((hBound _).mpr (by norm_num)) ?_⟩
  obtain ⟨-, hPairs⟩ := (hBound metrics.maxDrawdown).mp le_rfl
  have hFirst := (List.pairwise_cons.mp hPairs).1 1 (by simp)
  norm_num at hFirst
  linarith

end Futur3.Stats
