import Futur3.Execution.BrokerReach
import Futur3.Execution.TradeGuard
import Mathlib.Algebra.Order.BigOperators.Group.List

/-! # The prop account

The broker with its guard, as one object: orders and fills go to the broker, a poll
of the metrics and a check before a trade go to the guard as well. A halt is never
lifted; a breach halts the account only where a check gets as far as the limits.
-/

namespace Futur3.Execution

open Data Prelude Method

/-- `PropAwareMockBroker`: the ledger it inherits and its own two fields. -/
structure PropAwareMockBroker where
  broker : MockBroker
  guard : PropState

structure PropConfig where
  config : BrokerConfig
  limits : PropLimits
  initialEquityPeak : Option ℚ
  peak_ge : ∀ peak ∈ initialEquityPeak, config.startingEquity ≤ peak

abbrev PropM (α : Type) := Method Raised PropAwareMockBroker α

inductive PropOp where
  | trade (op : BrokerOp)
  | poll
  | check (contract : ContractSymbol) (side : Side) (quantity : ℤ)

theorem MockBroker.getAccountMetrics_ok (b : MockBroker) :
    ∃ metrics, b.getAccountMetrics = .ok metrics ∧ metrics.equity = b.currentEquity := by
  have hMargin : 0 ≤ (b.positions.values.map Position.marginUsed).sum := by
    refine List.sum_nonneg fun m hMem => ?_
    obtain ⟨p, -, rfl⟩ := List.mem_map.mp hMem
    exact p.margin_nonneg
  have hAvailable := le_max_left 0 (b.currentEquity - (b.positions.values.map Position.marginUsed).sum)
  have hLeverage : 0 ≤ if 0 < b.currentEquity then
      (b.positions.values.map Position.marginUsed).sum / b.currentEquity else 0 := by
    split
    · rename_i hEquity
      exact div_nonneg hMargin hEquity.le
    · exact le_rfl
  unfold currentEquity at hAvailable hLeverage
  unfold getAccountMetrics AccountMetrics.create
  rw [dif_neg (not_lt.mpr hMargin), dif_neg (not_lt.mpr hAvailable), dif_neg (not_lt.mpr hLeverage)]
  exact ⟨_, rfl, rfl⟩

namespace PropAwareMockBroker

def fresh (setup : PropConfig) : PropAwareMockBroker where
  broker := .fresh setup.config
  guard := ⟨setup.initialEquityPeak.getD setup.config.startingEquity, none⟩

def inherited {α : Type} (x : BrokerM α) : PropM α := fun s =>
  match x s.broker with
  | .ok a b => .ok a { s with broker := b }
  | .error e b => .error e { s with broker := b }

def getAccountMetrics : PropM AccountMetrics := do
  let s ← get
  let metrics ← Method.liftExcept (s.broker.getAccountMetrics.mapError .broker)
  modify fun s => { s with guard := s.guard.observe metrics.equity }
  pure metrics

def isTradeAllowed (limits : PropLimits) (contract : ContractSymbol) (side : Side) (quantity : ℤ) :
    PropM (Option TradeBlock) := do
  let s ← get
  let (block, guard) := propTradeAllowed limits s.broker contract side quantity s.guard
  set { s with guard := guard }
  pure block

end PropAwareMockBroker

def PropOp.perform (limits : PropLimits) : PropOp → PropM PUnit
  | trade op => PropAwareMockBroker.inherited op.perform
  | poll => PropAwareMockBroker.getAccountMetrics.forget
  | check contract side quantity =>
    (PropAwareMockBroker.isTradeAllowed limits contract side quantity).forget

namespace PropAwareMockBroker

/-- The loss limits are reached: the realized loss, or the fall from the trailing peak. -/
def Breached (limits : PropLimits) (s : PropAwareMockBroker) : Prop :=
  s.broker.realizedPnlToday ≤ -limits.dailyLossLimit ∨
    limits.trailingMaxLossLimit ≤
      max s.guard.equityPeak s.broker.currentEquity - s.broker.currentEquity

instance (limits : PropLimits) (s : PropAwareMockBroker) : Decidable (s.Breached limits) :=
  inferInstanceAs (Decidable (_ ∨ _))

/-- No order passes any more unless it shrinks its position. -/
def Shut (s : PropAwareMockBroker) : Prop :=
  s.broker.config.blockAllTrades = true ∨ s.guard.halted.isSome

instance (s : PropAwareMockBroker) : Decidable s.Shut := inferInstanceAs (Decidable (_ ∨ _))

/-- The check gets past the checks of the plain broker, the exemption and the position cap. -/
def TestsLimits (limits : PropLimits) (s : PropAwareMockBroker) (contract : ContractSymbol)
    (side : Side) (quantity : ℤ) : Prop :=
  s.broker.isTradeAllowed quantity = none ∧ ¬s.broker.Reduces contract side quantity ∧
    |s.broker.net contract + side.signed quantity| ≤ limits.maxContracts

instance (limits : PropLimits) (s : PropAwareMockBroker) (contract : ContractSymbol) (side : Side)
    (quantity : ℤ) : Decidable (s.TestsLimits limits contract side quantity) :=
  inferInstanceAs (Decidable (_ ∧ _ ∧ _))

section Steps

variable {limits : PropLimits} {s : PropAwareMockBroker}

theorem after_inherited {α : Type} (x : BrokerM α) :
    (inherited x).after s = { s with broker := x.after s.broker } := by
  unfold Method.after inherited
  cases x s.broker <;> rfl

theorem after_trade (op : BrokerOp) :
    ((PropOp.trade op).perform limits).after s = { s with broker := op.perform.after s.broker } :=
  after_inherited op.perform

theorem after_check (contract : ContractSymbol) (side : Side) (quantity : ℤ) :
    ((PropOp.check contract side quantity).perform limits).after s =
      { s with guard := (propTradeAllowed limits s.broker contract side quantity s.guard).2 } := rfl

theorem after_poll :
    (PropOp.poll.perform limits).after s =
      { s with guard := s.guard.observe s.broker.currentEquity } := by
  obtain ⟨metrics, hMetrics, hEquity⟩ := s.broker.getAccountMetrics_ok
  rw [PropOp.perform, after_forget, getAccountMetrics, after_get_bind, hMetrics, ← hEquity]
  rfl

theorem halted_perform {halt : Halt} (h : s.guard.halted = some halt) (op : PropOp) :
    ((op.perform limits).after s).guard.halted = some halt := by
  cases op with
  | trade op =>
    rw [after_trade]
    exact h
  | poll =>
    rw [after_poll]
    exact h
  | check contract side quantity =>
    rw [after_check]
    exact halt_latches h

/-- A check of a breached account that tests the limits halts it. -/
theorem breach_halts {contract : ContractSymbol} {side : Side} {quantity : ℤ}
    (hBreached : s.Breached limits) (hTests : s.TestsLimits limits contract side quantity) :
    (propTradeAllowed limits s.broker contract side quantity s.guard).2.halted.isSome := by
  obtain ⟨hBase, hIncreases, hCap⟩ := hTests
  simp only [propTradeAllowed, hBase, hIncreases, if_false, increasingBlockReason]
  cases hHalted : s.guard.halted with
  | some halt => simp [hHalted]
  | none =>
    simp only [not_lt.mpr hCap, if_false]
    split
    · rfl
    · rename_i hDaily
      have hTrailing : (s.guard.observe s.broker.currentEquity).equityPeak - s.broker.currentEquity ≥
          limits.trailingMaxLossLimit := hBreached.resolve_left hDaily
      rw [if_pos hTrailing]
      rfl

/-- Every order that does not shrink its position is refused on a breached account. -/
theorem breached_blocks {contract : ContractSymbol} {side : Side} {quantity : ℤ}
    (hBreached : s.Breached limits) (hIncreases : ¬s.broker.Reduces contract side quantity) :
    (propTradeAllowed limits s.broker contract side quantity s.guard).1 ≠ none := by
  unfold propTradeAllowed
  cases s.broker.isTradeAllowed quantity with
  | some block => simp
  | none =>
    simp only [hIncreases, if_false, increasingBlockReason]
    cases s.guard.halted with
    | some halt => simp
    | none =>
      dsimp only
      split_ifs with hCap hDaily hTrailing
      · simp
      · simp
      · simp
      · exact absurd (hBreached.resolve_left hDaily) hTrailing

theorem shut_blocks {contract : ContractSymbol} {side : Side} {quantity : ℤ} (hShut : s.Shut)
    (hIncreases : ¬s.broker.Reduces contract side quantity) :
    (propTradeAllowed limits s.broker contract side quantity s.guard).1 ≠ none := by
  rcases hShut with hAll | hHalted
  · exact (TradeGuard.prop limits).all_blocked s.broker contract side quantity s.guard hAll
  · obtain ⟨halt, hHalt⟩ := Option.isSome_iff_exists.mp hHalted
    exact halted_blocks_increasing hHalt hIncreases

end Steps

/-! ## Runs -/

/-- A poll or a check, which sees the account as it is. -/
def Sees : PropOp → Prop
  | .trade _ => False
  | .poll => True
  | .check .. => True

/-- No poll and no check sees a breach that it lets pass without a halt. -/
def HaltsOnBreach (limits : PropLimits) (s : PropAwareMockBroker) : PropOp → Prop
  | .trade _ => True
  | .poll => s.Shut ∨ ¬s.Breached limits
  | .check contract side quantity =>
    s.Shut ∨ ¬s.Breached limits ∨ s.TestsLimits limits contract side quantity

instance (limits : PropLimits) (s : PropAwareMockBroker) : DecidablePred (s.HaltsOnBreach limits)
  | .trade _ => inferInstanceAs (Decidable True)
  | .poll => inferInstanceAs (Decidable (_ ∨ _))
  | .check .. => inferInstanceAs (Decidable (_ ∨ _ ∨ _))

section Runs

variable {limits : PropLimits} {s : PropAwareMockBroker}

structure Settled (config : BrokerConfig) (s : PropAwareMockBroker) : Prop where
  consistent : MockBroker.Consistent s.broker
  config_eq : s.broker.config = config

theorem Settled.perform {config : BrokerConfig} (h : Settled config s) (op : PropOp) :
    Settled config ((op.perform limits).after s) := by
  cases op with
  | trade op =>
    rw [after_trade]
    exact ⟨MockBroker.perform_consistent h.consistent op,
      (MockBroker.perform_config h.consistent op).trans h.config_eq⟩
  | poll =>
    rw [after_poll]
    exact ⟨h.consistent, h.config_eq⟩
  | check contract side quantity =>
    rw [after_check]
    exact ⟨h.consistent, h.config_eq⟩

theorem Settled.run {config : BrokerConfig} (h : Settled config s) (limits : PropLimits)
    (ops : List PropOp) :
    Settled config (runAll (PropOp.perform limits) s ops) :=
  follows_rule (Settled config) (fun _ op hs _ => hs.perform op) h (follows_true s ops)

theorem fresh_settled (setup : PropConfig) : Settled setup.config (fresh setup) :=
  ⟨(MockBroker.fresh_idle setup.config).toConsistent, rfl⟩

theorem Shut.perform {config : BrokerConfig} (h : s.Shut) (hSettled : Settled config s)
    (op : PropOp) : ((op.perform limits).after s).Shut := by
  rcases h with hAll | hHalted
  · left
    rw [(hSettled.perform op).config_eq, ← hSettled.config_eq]
    exact hAll
  · obtain ⟨halt, hHalt⟩ := Option.isSome_iff_exists.mp hHalted
    exact .inr (Option.isSome_iff_exists.mpr ⟨halt, halted_perform hHalt op⟩)

theorem Shut.run {config : BrokerConfig} (h : s.Shut) (limits : PropLimits)
    (hSettled : Settled config s) (ops : List PropOp) : (runAll (PropOp.perform limits) s ops).Shut :=
  (follows_rule (fun t => t.Shut ∧ Settled config t)
    (fun _ op ht _ => ⟨ht.1.perform ht.2 op, ht.2.perform op⟩) ⟨h, hSettled⟩ (follows_true s ops)).1

/-- A poll or a check that sees a breach, where it halts on it, leaves the account shut. -/
theorem seen_breach_shuts {config : BrokerConfig} (hSettled : Settled config s) {op : PropOp}
    (hSees : Sees op) (hBreached : s.Breached limits) (h : s.HaltsOnBreach limits op) :
    ((op.perform limits).after s).Shut := by
  cases op with
  | trade => exact hSees.elim
  | poll => exact (h.resolve_right (not_not.mpr hBreached)).perform hSettled _
  | check contract side quantity =>
    rcases h with hShut | hNot | hTests
    · exact hShut.perform hSettled _
    · exact absurd hBreached hNot
    · exact .inr (breach_halts hBreached hTests)

end Runs

/-- In every run whose polls and checks let no breach pass without a halt: once one of them sees
the account in breach, no order passes that does not shrink its position, then and ever after. -/
theorem halts_latch {setup : PropConfig} {ops : List PropOp}
    (h : Follows (PropOp.perform setup.limits) (HaltsOnBreach setup.limits) (fresh setup) ops)
    {before after : List PropOp} {op : PropOp} (hOps : ops = before ++ op :: after)
    (hSees : Sees op)
    (hBreached : (runAll (PropOp.perform setup.limits) (fresh setup) before).Breached setup.limits) :
    ∀ now, now <+: op :: after →
      let s := runAll (PropOp.perform setup.limits) (fresh setup) (before ++ now)
      ∀ contract side quantity, ¬s.broker.Reduces contract side quantity →
        (propTradeAllowed setup.limits s.broker contract side quantity s.guard).1 ≠ none := by
  intro now hNow s contract side quantity hIncreases
  have hSettled := (fresh_settled setup).run setup.limits before
  subst hOps
  obtain ⟨-, hHalts, -⟩ := (follows_append _ _ _).mp h
  cases now with
  | nil =>
    have hs : s = runAll (PropOp.perform setup.limits) (fresh setup) before := by
      simp only [s, List.append_nil]
    rw [hs] at hIncreases ⊢
    exact breached_blocks hBreached hIncreases
  | cons op' later =>
    obtain ⟨rfl, -⟩ := List.cons_prefix_cons.mp hNow
    have hShut := (seen_breach_shuts hSettled hSees hBreached hHalts).run
      setup.limits (hSettled.perform op') later
    refine shut_blocks ?_ hIncreases
    simp only [s, runAll_append, runAll_cons]
    exact hShut

/-- The default account: a loss of 400 in a day or of 2000 from the peak, two contracts at most. -/
def smallAccount : PropConfig where
  config := .steady
  limits := ⟨400, 2000, 2, by norm_num, by norm_num, by norm_num⟩
  initialEquityPeak := none
  peak_ge := by simp

def roundTrip (first : ℕ) (entry exit : ℚ) : List PropOp :=
  [.trade (.place (.atMarket "ESM26" .buy 1 Int.one_pos (some "in"))),
    .trade (.fill ⟨first⟩ entry none),
    .trade (.place (.atMarket "ESM26" .sell 1 Int.one_pos (some "out"))),
    .trade (.fill ⟨first + 1⟩ exit none)]

/-- A day's loss of 500, seen by a check, and a gain of 1000 after it. -/
def checkedLoss : List PropOp :=
  roundTrip 1 5000 4990 ++ [.check "ESM26" .buy 1] ++ roundTrip 3 4990 5010

theorem halts_latch_checked_loss :
    let s := runAll (PropOp.perform smallAccount.limits) (fresh smallAccount) checkedLoss
    s.broker.realizedPnlToday = 500 ∧
      (propTradeAllowed smallAccount.limits s.broker "ESM26" .buy 1 s.guard).1 ≠ none := by
  have hHalts : Follows (PropOp.perform smallAccount.limits) (HaltsOnBreach smallAccount.limits)
      (fresh smallAccount) checkedLoss := by decide +kernel
  have hBreached : (runAll (PropOp.perform smallAccount.limits) (fresh smallAccount)
      (roundTrip 1 5000 4990)).Breached smallAccount.limits := by decide +kernel
  have hSplit : checkedLoss = roundTrip 1 5000 4990 ++ .check "ESM26" .buy 1 ::
      roundTrip 3 4990 5010 := rfl
  exact ⟨by decide +kernel, halts_latch hHalts hSplit trivial hBreached _ (List.prefix_refl _)
    "ESM26" .buy 1 (by decide +kernel)⟩

/-- A poll that sees the breach does not halt the account: after the gain an order opens. -/
theorem polled_loss_forgotten :
    ¬∀ (setup : PropConfig) (before after : List PropOp) (op : PropOp), Sees op →
      (runAll (PropOp.perform setup.limits) (fresh setup) before).Breached setup.limits →
      ∀ now, now <+: op :: after →
        let s := runAll (PropOp.perform setup.limits) (fresh setup) (before ++ now)
        ∀ contract side quantity, ¬s.broker.Reduces contract side quantity →
          (propTradeAllowed setup.limits s.broker contract side quantity s.guard).1 ≠ none := by
  intro hClaim
  refine hClaim smallAccount (roundTrip 1 5000 4990) (roundTrip 3 4990 5010) .poll trivial
    (by decide +kernel) _ (List.prefix_refl _) "ESM26" .buy 1 (by decide +kernel) ?_
  decide +kernel

end PropAwareMockBroker

end Futur3.Execution
