import Futur3.Execution.MockBroker

/-! # Trade gates of the mock brokers

The engine takes a `MockBroker` or its prop-account subclass. They differ in the
pre-trade gate and in what a metrics poll observes, so a broker is the common
ledger with a guard. Every guard lets an order through that strictly shrinks the
position, unless all trades are blocked.
-/

namespace Futur3.Execution

open Data

def MockBroker.Reduces (b : MockBroker) (contract : ContractSymbol) (side : Side) (quantity : ℤ) :
    Prop :=
  |b.net contract + side.signed quantity| < |b.net contract|

instance (b : MockBroker) (contract : ContractSymbol) (side : Side) (quantity : ℤ) :
    Decidable (b.Reduces contract side quantity) :=
  inferInstanceAs (Decidable (_ < _))

structure TradeGuard (ρ : Type) where
  isTradeAllowed : MockBroker → ContractSymbol → Side → ℤ → ρ → Option TradeBlock × ρ
  /-- The effect of one `get_account_metrics` poll, given its equity. -/
  observe : ℚ → ρ → ρ
  reducing_allowed : ∀ b contract side quantity r, 0 < quantity → b.config.blockAllTrades = false →
    b.Reduces contract side quantity → (isTradeAllowed b contract side quantity r).1 = none
  all_blocked : ∀ b contract side quantity r, b.config.blockAllTrades = true →
    (isTradeAllowed b contract side quantity r).1 ≠ none

def TradeGuard.plain : TradeGuard Unit where
  isTradeAllowed b _ _ quantity r := (b.isTradeAllowed quantity, r)
  observe _ r := r
  reducing_allowed b _ _ quantity _ hPos hOpen _ := by
    simp [MockBroker.isTradeAllowed, not_le.mpr hPos, hOpen]
  all_blocked b _ _ quantity _ hAll := by
    unfold MockBroker.isTradeAllowed
    split_ifs <;> simp

/-! ## The prop-account guard -/

structure PropLimits where
  dailyLossLimit : ℚ
  trailingMaxLossLimit : ℚ
  maxContracts : ℤ
  daily_pos : 0 < dailyLossLimit
  trailing_pos : 0 < trailingMaxLossLimit
  max_pos : 1 ≤ maxContracts

structure PropState where
  equityPeak : ℚ
  halted : Option Halt
deriving DecidableEq

def PropState.observe (equity : ℚ) (r : PropState) : PropState :=
  { r with equityPeak := max r.equityPeak equity }

/-- The reason a risk-increasing order is blocked; a breach latches. -/
def increasingBlockReason (limits : PropLimits) (b : MockBroker) (resultingAbsQty : ℤ)
    (r : PropState) : Option TradeBlock × PropState :=
  match r.halted with
  | some halt => (some (.halted halt), r)
  | none =>
    if resultingAbsQty > limits.maxContracts then
      (some (.maxContracts resultingAbsQty limits.maxContracts), r)
    else
      let equity := b.currentEquity
      let r := r.observe equity
      if b.realizedPnlToday ≤ -limits.dailyLossLimit then
        let halt := Halt.dailyLoss b.realizedPnlToday limits.dailyLossLimit
        (some (.breached halt), { r with halted := some halt })
      else if r.equityPeak - equity ≥ limits.trailingMaxLossLimit then
        let halt := Halt.trailing (r.equityPeak - equity) limits.trailingMaxLossLimit
        (some (.breached halt), { r with halted := some halt })
      else (none, r)

def propTradeAllowed (limits : PropLimits) (b : MockBroker) (contract : ContractSymbol) (side : Side)
    (quantity : ℤ) (r : PropState) : Option TradeBlock × PropState :=
  match b.isTradeAllowed quantity with
  | some block => (some block, r)
  | none =>
    if b.Reduces contract side quantity then (none, r)
    else increasingBlockReason limits b |b.net contract + side.signed quantity| r

def TradeGuard.prop (limits : PropLimits) : TradeGuard PropState where
  isTradeAllowed := propTradeAllowed limits
  observe := PropState.observe
  reducing_allowed b contract side quantity r hPos hOpen hReduces := by
    have hBase : b.isTradeAllowed quantity = none := by
      simp [MockBroker.isTradeAllowed, not_le.mpr hPos, hOpen]
    simp [propTradeAllowed, hBase, hReduces]
  all_blocked b contract side quantity r hAll := by
    have hBase : b.isTradeAllowed quantity ≠ none := by
      unfold MockBroker.isTradeAllowed
      split_ifs <;> simp
    unfold propTradeAllowed
    cases h : b.isTradeAllowed quantity with
    | none => exact absurd h hBase
    | some block => simp

/-- A halted account still refuses every order that does not shrink its position. -/
theorem halted_blocks_increasing {limits : PropLimits} {b : MockBroker} {contract : ContractSymbol}
    {side : Side} {quantity : ℤ} {r : PropState} {halt : Halt} (hHalted : r.halted = some halt)
    (hIncreasing : ¬b.Reduces contract side quantity) :
    (propTradeAllowed limits b contract side quantity r).1 ≠ none := by
  unfold propTradeAllowed
  cases b.isTradeAllowed quantity with
  | some block => simp
  | none => simp [hIncreasing, increasingBlockReason, hHalted]

/-- A halt is never lifted by a later check. -/
theorem halt_latches {limits : PropLimits} {b : MockBroker} {contract : ContractSymbol} {side : Side}
    {quantity : ℤ} {r : PropState} {halt : Halt} (hHalted : r.halted = some halt) :
    (propTradeAllowed limits b contract side quantity r).2.halted = some halt := by
  unfold propTradeAllowed
  cases b.isTradeAllowed quantity with
  | some block => exact hHalted
  | none =>
    simp only [increasingBlockReason, hHalted]
    split <;> exact hHalted

end Futur3.Execution
