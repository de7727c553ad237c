import Futur3.Engine.Backtest
import Futur3.Execution.VolParity
import Futur3.Prelude.Selection
import Mathlib.Data.Prod.Lex
import Mathlib.Data.String.Basic

/-! # The portfolio backtest

The date axis is the union of the dates of all streams. On each date: every bar of the
date fills the orders of its contract, the rolls of the date run, equity is marked once,
and the signals of all legs are sized and placed against one snapshot of the positions.
The record of a date keeps the broker after each bar and around each leg.
-/

namespace Futur3.Engine

open Data Execution Prelude

inductive PortfolioFailure where
  | run (e : RunFailure)
  -- KeyError: a signalled stream that is not one of the histories
  | unknownStream (key : ContractSymbol)
deriving DecidableEq

/-- A cross-sectional strategy with its own memory; it reads the history of every stream. -/
structure CrossSectionalStrategy (σ : Type) where
  generateSignals : Dict ContractSymbol (List VerifiedBar) → σ →
    Except String (Dict ContractSymbol Signal × σ)

/-- `xs[start:]`. -/
def sliceFrom {α : Type} (start : ℤ) (xs : List α) : List α :=
  xs.drop (if start < 0 then xs.length + start else start).toNat

/-- `_trailing_returns`: simple returns of the last `lookback + 1` closes. -/
def trailingReturns (bars : List VerifiedBar) (lookback : ℤ) : Except RunFailure (List ℚ) :=
  BacktestEngine.closeReturns ((sliceFrom (-(lookback + 1)) bars).map VerifiedBar.close)

structure PortfolioBacktestEngine (σ ρ : Type) where
  strategy : CrossSectionalStrategy σ
  guard : TradeGuard ρ
  risk : RiskManager
  slippage : Option SlippageModel
  targetPosition : Bool
  rollEvents : List RollEvent
  riskParity : Bool
  volLookback : ℤ
  sqrt : ℚ → ℚ

structure PortfolioState (σ ρ : Type) where
  broker : MockBroker
  guard : ρ
  strategy : σ
  history : Dict ContractSymbol (List VerifiedBar)
  lastClose : Dict ContractSymbol ℚ
  equityCurve : List ℚ
  signalsEmitted : ℕ
  orders : ℕ
  fills : ℕ
  rollsExecuted : ℕ
  totalRollCost : ℚ

def PortfolioState.start {σ ρ : Type} (broker : MockBroker) (guard : ρ) (strategy : σ)
    (histories : Dict ContractSymbol (List VerifiedBar)) : PortfolioState σ ρ where
  broker := broker
  guard := guard
  strategy := strategy
  history := .ofList (histories.keys.map fun key => (key, []))
  lastClose := .empty
  equityCurve := []
  signalsEmitted := 0
  orders := 0
  fills := 0
  rollsExecuted := 0
  totalRollCost := 0

abbrev PortfolioM (σ ρ α : Type) := Method PortfolioFailure (PortfolioState σ ρ) α

inductive LegOutcome where
  | noPrice
  | held
  | alreadyFlat
  | flattened (id : BrokerOrderId)
  | flatBlocked
  | cappedToZero (decision : SizingDecision)
  | onTarget (decision : SizingDecision)
  | blocked (decision : SizingDecision)
  | ordered (decision : SizingDecision) (id : BrokerOrderId)

structure LegRecord where
  signal : Signal
  before : MockBroker
  outcome : LegOutcome
  after : MockBroker

structure BarFill where
  key : ContractSymbol
  bar : VerifiedBar
  filled : List OrderEvent
  after : MockBroker

structure DateRecord where
  date : Date
  bars : List BarFill
  marked : MockBroker
  legs : List LegRecord

abbrev StreamBar := ContractSymbol × VerifiedBar

/-- All bars by date, then by the name of their stream. -/
def indexed (histories : Dict ContractSymbol (List VerifiedBar)) : List StreamBar :=
  Selection.sortBy (fun p : StreamBar => toLex (p.2.ts.date, p.1))
    (histories.items.flatMap fun p => p.2.map fun bar => (p.1, bar))

/-- `groupby` of the date: a group and the date of its bars. -/
def byDate (bars : List StreamBar) : List (Date × List StreamBar) :=
  (bars.splitBy fun p q => p.2.ts.date = q.2.ts.date).filterMap fun group =>
    group.head?.map fun p => (p.2.ts.date, group)

def legs (signals : Dict ContractSymbol Signal) : List (ContractSymbol × Signal) :=
  Selection.sortBy (fun p : ContractSymbol × Signal => p.2.contract) signals.items

namespace PortfolioBacktestEngine

variable {σ ρ : Type}

def onBroker {α : Type} (x : BrokerM α) : PortfolioM σ ρ α := fun s =>
  match x s.broker with
  | .ok a b => .ok a { s with broker := b }
  | .error e b => .error (.run (.broker e)) { s with broker := b }

def rollsOn (e : PortfolioBacktestEngine σ ρ) (date : Date) : List RollEvent :=
  e.rollEvents.filter fun event => event.rollDate = date

/-- `get_account_metrics`, observed by the guard; returns the equity. -/
def accountEquity (e : PortfolioBacktestEngine σ ρ) : PortfolioM σ ρ ℚ := do
  let s ← get
  let metrics ← Method.liftExcept
    (s.broker.getAccountMetrics.mapError (.run ∘ .broker ∘ .broker))
  modify fun s => { s with guard := e.guard.observe metrics.equity s.guard }
  pure metrics.equity

def isTradeAllowed (e : PortfolioBacktestEngine σ ρ) (contract : ContractSymbol) (side : Side)
    (quantity : ℤ) : PortfolioM σ ρ (Option TradeBlock) := do
  let s ← get
  let (block, r) := e.guard.isTradeAllowed s.broker contract side quantity s.guard
  modify fun s => { s with guard := r }
  pure block

def placeMarket (contract : ContractSymbol) (side : Side) (quantity : ℤ) (clientOrderId : String) :
    PortfolioM σ ρ BrokerOrderId := do
  let order ← Method.liftExcept ((Order.market contract side quantity clientOrderId).mapError
    (.run ∘ .broker ∘ .broker))
  let id ← onBroker (MockBroker.placeOrder order)
  modify fun s => { s with orders := s.orders + 1 }
  pure id

/-- The body of the loop of `_execute_rolls`. -/
def executeRoll (event : RollEvent) : PortfolioM σ ρ PUnit := do
  let rolled ← onBroker (MockBroker.rollPosition event.oldContract event.newContract
    event.frontSettle event.backSettle)
  if rolled = 0 then pure ⟨⟩
  else
    let mult ← Method.liftExcept
      ((multiplierFor event.newContract).mapError (.run ∘ RunFailure.sizing))
    let cost := (event.backSettle - event.frontSettle) * rolled * mult
    modify fun s => { s with rollsExecuted := s.rollsExecuted + 1
                             totalRollCost := s.totalRollCost + cost }

/-- The body of the loop over the bars of a date. -/
def takeBar (e : PortfolioBacktestEngine σ ρ) (p : StreamBar) : PortfolioM σ ρ BarFill := do
  let filled ← onBroker (MockBroker.advance p.2 e.slippage)
  modify fun s => { s with fills := s.fills + filled.length
                           lastClose := s.lastClose.set p.2.contract p.2.close
                           history := s.history.set p.1 ((s.history.get? p.1).getD [] ++ [p.2]) }
  let s ← get
  pure { key := p.1, bar := p.2, filled, after := s.broker }

def legReturns (e : PortfolioBacktestEngine σ ρ) (history : Dict ContractSymbol (List VerifiedBar))
    (key : ContractSymbol) : Except PortfolioFailure (ContractSymbol × List ℚ) :=
  match history.get? key with
  | none => throw (.unknownStream key)
  | some bars => do
    let returns ← (trailingReturns bars e.volLookback).mapError .run
    pure (key, returns)

def legWeights (e : PortfolioBacktestEngine σ ρ) (signals : Dict ContractSymbol Signal)
    (history : Dict ContractSymbol (List VerifiedBar)) :
    Except PortfolioFailure (Option (Dict ContractSymbol ℚ)) :=
  if !e.riskParity then pure none
  else do
    let returns ← signals.keys.mapM (e.legReturns history)
    pure (some (inverseVolWeights e.sqrt (.ofList returns)))

/-- Side and quantity of a leg's order; `none` when the target is already held. -/
def resolveOrder (e : PortfolioBacktestEngine σ ρ) (decision : SizingDecision) (signal : Signal)
    (positions : List Position) (contract : ContractSymbol) : Option (Side × ℤ) :=
  if e.targetPosition then
    let target := if signal.direction > 0 then decision.contracts else -decision.contracts
    let delta := target - netPosition positions contract
    if delta = 0 then none else some (if delta > 0 then .buy else .sell, |delta|)
  else some (if signal.direction > 0 then .buy else .sell, decision.contracts)

/-- `{strategy_id}@{signal.ts.isoformat()}#{contract}`. -/
def legTag (signal : Signal) (contract : ContractSymbol) : String :=
  signal.strategyId ++ "@" ++ signal.ts.isoformat ++ "#" ++ contract

def flatten (e : PortfolioBacktestEngine σ ρ) (contract : ContractSymbol)
    (positions : List Position) : PortfolioM σ ρ LegOutcome := do
  let net := netPosition positions contract
  if net = 0 then pure .alreadyFlat
  else
    let side := if net > 0 then Side.sell else Side.buy
    let block ← e.isTradeAllowed contract side |net|
    if block ≠ none then pure .flatBlocked
    else
      let id ← placeMarket contract side |net| ("flat@" ++ contract)
      pure (.flattened id)

/-- A leg with a direction: size it, resolve its order, gate and place. -/
def tradeLeg (e : PortfolioBacktestEngine σ ρ) (positions : List Position) (mtmEquity : ℚ)
    (weights : Option (Dict ContractSymbol ℚ)) (key : ContractSymbol) (signal : Signal)
    (price : ℚ) : PortfolioM σ ρ LegOutcome := do
  let contract := signal.contract
  let kelly := weights.elim signal.fullKellyFraction fun w =>
    signal.fullKellyFraction * (w.get? key).getD 1
  let decision ← Method.liftExcept ((e.risk.sizePosition contract kelly mtmEquity price none
    none).mapError (.run ∘ RunFailure.sizing))
  if decision.contracts ≤ 0 then pure (.cappedToZero decision)
  else
    match e.resolveOrder decision signal positions contract with
    | none => pure (.onTarget decision)
    | some (side, quantity) =>
      let block ← e.isTradeAllowed contract side quantity
      if block ≠ none then pure (.blocked decision)
      else
        let id ← placeMarket contract side quantity (legTag signal contract)
        pure (.ordered decision id)

/-- The body of the loop of `_place_signals`. -/
def placeLeg (e : PortfolioBacktestEngine σ ρ) (positions : List Position)
    (lastClose : Dict ContractSymbol ℚ) (mtmEquity : ℚ)
    (weights : Option (Dict ContractSymbol ℚ)) (leg : ContractSymbol × Signal) :
    PortfolioM σ ρ LegOutcome :=
  match lastClose.get? leg.2.contract with
  | none => pure .noPrice
  | some price =>
    if leg.2.direction = 0 then
      if e.targetPosition then e.flatten leg.2.contract positions else pure .held
    else e.tradeLeg positions mtmEquity weights leg.1 leg.2 price

def recordLeg (e : PortfolioBacktestEngine σ ρ) (positions : List Position)
    (lastClose : Dict ContractSymbol ℚ) (mtmEquity : ℚ)
    (weights : Option (Dict ContractSymbol ℚ)) (leg : ContractSymbol × Signal) :
    PortfolioM σ ρ LegRecord := do
  let s ← get
  let outcome ← e.placeLeg positions lastClose mtmEquity weights leg
  let s' ← get
  pure { signal := leg.2, before := s.broker, outcome, after := s'.broker }

def mark (e : PortfolioBacktestEngine σ ρ) : PortfolioM σ ρ (ℚ × List Position) := do
  let equity ← e.accountEquity
  let s ← get
  let positions := s.broker.getPositions
  let mtmEquity ← Method.liftExcept
    ((markToMarket equity positions s.lastClose).mapError (.run ∘ RunFailure.sizing))
  modify fun s => { s with equityCurve := s.equityCurve ++ [mtmEquity] }
  pure (mtmEquity, positions)

/-- The decisions of a date: nothing once ruined, else every leg of the signals. -/
def decide (e : PortfolioBacktestEngine σ ρ) (mtmEquity : ℚ) (positions : List Position) :
    PortfolioM σ ρ (List LegRecord) := do
  if mtmEquity ≤ 0 then pure []
  else
    let s ← get
    let (signals, memory) ← Method.liftExcept
      ((e.strategy.generateSignals s.history s.strategy).mapError (.run ∘ RunFailure.strategy))
    modify fun s => { s with strategy := memory }
    if signals.items = [] then pure []
    else
      modify fun s => { s with signalsEmitted := s.signalsEmitted + signals.items.length }
      let weights ← Method.liftExcept (e.legWeights signals s.history)
      Method.each (e.recordLeg positions s.lastClose mtmEquity weights) (legs signals)

def processDate (e : PortfolioBacktestEngine σ ρ) (group : Date × List StreamBar) :
    PortfolioM σ ρ DateRecord := do
  let bars ← Method.each e.takeBar group.2
  let _ ← Method.each executeRoll (e.rollsOn group.1)
  let (mtmEquity, positions) ← e.mark
  let s ← get
  let legs ← e.decide mtmEquity positions
  pure { date := group.1, bars, marked := s.broker, legs }

def run (e : PortfolioBacktestEngine σ ρ) (histories : Dict ContractSymbol (List VerifiedBar)) :
    PortfolioM σ ρ (RunResult × List DateRecord) := do
  let records ← Method.each e.processDate (byDate (indexed histories))
  let finalEquity ← e.accountEquity
  let s ← get
  let result : RunResult :=
    { barsProcessed := (indexed histories).length
      signalsGenerated := s.signalsEmitted
      ordersPlaced := s.orders
      fills := s.fills
      finalEquity := s.equityCurve.getLast?.getD finalEquity
      realizedPnl := s.broker.realizedPnlToday
      finalPositions := s.broker.getPositions
      equityCurve := s.equityCurve
      survivalCappedBars := 0
      rollsExecuted := s.rollsExecuted
      totalRollCost := s.totalRollCost
      tradePnls := s.broker.tradePnls }
  pure (result, records)

end PortfolioBacktestEngine

end Futur3.Engine
