import Mathlib.Analysis.Convex.SpecificFunctions.Basic

/-! # Compounding at a fraction of the exposure

Wealth is multiplied by `1 + x` in each period. Scaled down to a fraction `t` of the
exposure it stays above the `t`-th power of the full wealth, so it never falls
through a floor that the full wealth kept.
-/

namespace Futur3.Prelude

/-- Wealth `e'` at the fraction `t` of the exposure keeps up with the full wealth `e`. -/
structure KeepsUp (t e e' : ℝ) : Prop where
  full_pos : 0 < e
  power_le : e ^ t ≤ e'

namespace KeepsUp

variable {t e e' x : ℝ}

theorem start : KeepsUp t 1 1 where
  full_pos := one_pos
  power_le := (Real.one_rpow t).le

theorem pos (h : KeepsUp t e e') : 0 < e' :=
  (Real.rpow_pos_of_pos h.full_pos t).trans_le h.power_le

/-- One period: Bernoulli's inequality for the factor. -/
theorem period (h : KeepsUp t e e') (hNonneg : 0 ≤ t) (hLe : t ≤ 1) (hFactor : 0 < 1 + x) :
    KeepsUp t (e * (1 + x)) (e' * (1 + t * x)) where
  full_pos := mul_pos h.full_pos hFactor
  power_le := by
    have hBernoulli : (1 + x) ^ t ≤ 1 + t * x :=
      rpow_one_add_le_one_add_mul_self (by linarith) hNonneg hLe
    calc (e * (1 + x)) ^ t = e ^ t * (1 + x) ^ t := Real.mul_rpow h.full_pos.le hFactor.le
      _ ≤ e' * (1 + t * x) := by
        apply mul_le_mul h.power_le hBernoulli
        · exact (Real.rpow_pos_of_pos hFactor t).le
        · exact h.pos.le

/-- A floor below the initial wealth that the full wealth keeps, the scaled wealth keeps. -/
theorem above_floor (h : KeepsUp t e e') (hNonneg : 0 ≤ t) (hLe : t ≤ 1) {floor : ℝ}
    (hFloor : floor < 1) (hAbove : floor < e) : floor < e' := by
  apply lt_of_lt_of_le _ h.power_le
  rcases le_total 1 e with hGain | hLoss
  · exact hFloor.trans_le (Real.one_le_rpow hGain hNonneg)
  · exact hAbove.trans_le (Real.self_le_rpow_of_le_one h.full_pos.le hLoss hLe)

end KeepsUp

end Futur3.Prelude
