import Futur3.Execution.RiskManager
import Futur3.Prelude.Method

/-! # The fixed-size sizer

A positive edge is sized to a fixed number of contracts, cut down to what the other
caps can fund. Of both sizers it holds that the survival cap binds only when
returns are given.
-/

namespace Futur3.Execution

open Data Prelude

/-- "contracts must be >= 1". -/
structure FixedSize where
  contracts : ℤ
  contracts_pos : 1 ≤ contracts

/-- `FixedSizeRiskManager(contracts, params, margin_source)`. -/
def RiskManager.fixedSize (fixed : FixedSize) (params : RiskParams) (marginSource : MarginSource)
    (bootstrap : SurvivalBootstrap) : RiskManager where
  sizePosition contract fullKellyFraction accountEquity price returns seed := do
    let base ← (RiskManager.base params marginSource bootstrap).sizePosition contract
      fullKellyFraction accountEquity price returns seed
    if fullKellyFraction ≤ 0 then pure base
    else
      let affordable := base.survivalContracts.elim (min base.marginContracts base.leverageContracts)
        (min (min base.marginContracts base.leverageContracts))
      SizingDecision.create (min fixed.contracts affordable) base.bindingConstraint
        base.kellyContracts base.marginContracts base.leverageContracts base.notionalPerContract
        base.marginPerContract base.survivalContracts

/-- Asked without returns, the sizer never answers that the survival cap bound. -/
def RiskManager.SurvivalOnRequest (risk : RiskManager) : Prop :=
  ∀ contract fullKellyFraction accountEquity price decision,
    risk.sizePosition contract fullKellyFraction accountEquity price none none = .ok decision →
    decision.bindingConstraint ≠ .survival

theorem SizingDecision.create_binding {contracts : ℤ} {constraint : BindingConstraint}
    {kelly margin leverage : ℤ} {notional marginPer : ℚ} {survival : Option ℤ}
    {decision : SizingDecision}
    (h : SizingDecision.create contracts constraint kelly margin leverage notional marginPer survival =
      .ok decision) : decision.bindingConstraint = constraint := by
  unfold SizingDecision.create at h
  split at h
  · cases h
  · cases h
    rfl

theorem binding_ne_survival (kelly margin leverage : ℤ) :
    binding kelly margin leverage none ≠ .survival := by
  change (if kelly = min (min kelly margin) leverage then BindingConstraint.kelly
    else if margin = min (min kelly margin) leverage then .margin
    else if leverage = min (min kelly margin) leverage then .leverage else .survival) ≠ _
  by_cases hKelly : kelly = min (min kelly margin) leverage
  · rw [if_pos hKelly]
    decide
  by_cases hMargin : margin = min (min kelly margin) leverage
  · rw [if_neg hKelly, if_pos hMargin]
    decide
  · -- the least of the three is one of them
    have hLeverage : leverage = min (min kelly margin) leverage := by omega
    rw [if_neg hKelly, if_neg hMargin, if_pos hLeverage]
    decide

variable (params : RiskParams) (marginSource : MarginSource) (bootstrap : SurvivalBootstrap)

theorem base_survivalOnRequest :
    (RiskManager.base params marginSource bootstrap).SurvivalOnRequest := by
  intro contract fullKellyFraction accountEquity price decision h
  simp only [RiskManager.base, except_raise_guard_ok_iff, except_bind_ok_iff] at h
  obtain ⟨-, -, root, -, margin, -, multiplier, -, -, h⟩ := h
  split at h
  · rw [SizingDecision.create_binding h]
    decide
  · simp only [Option.map_none, ite_self] at h
    rw [SizingDecision.create_binding h]
    exact binding_ne_survival _ _ _

theorem fixedSize_survivalOnRequest (fixed : FixedSize) :
    (RiskManager.fixedSize fixed params marginSource bootstrap).SurvivalOnRequest := by
  intro contract fullKellyFraction accountEquity price decision h
  obtain ⟨base, hBase, h⟩ := except_bind_ok_iff.mp h
  have hBinding := base_survivalOnRequest params marginSource bootstrap _ _ _ _ base hBase
  split at h
  · cases h
    exact hBinding
  · rw [SizingDecision.create_binding h]
    exact hBinding

end Futur3.Execution
