import Futur3.Data.Continuous
import Futur3.Execution.TradeGuard

/-! # The backtest loop

For each bar: fill prior orders, roll, mark to market, then signal, size, gate and
order. A pass over one bar returns a record of what it did, with the broker as it
stood after the fills and at the end of the pass.
-/

namespace Futur3.Engine

open Data Execution Prelude

inductive RunFailure where
  | broker (e : Raised)
  | sizing (e : SizingFailure)
  | strategy (text : String)
  -- decimal.DivisionByZero or InvalidOperation of a return on a zero close
  | zeroClose
deriving DecidableEq

/-- One strategy's directional signal: the sign is in `direction`, the edge is nonnegative. -/
@[ext]
structure Signal where
  contract : ContractSymbol
  ts : DateTime
  strategyId : String
  direction : ℤ
  fullKellyFraction : ℚ
  confidence : ℚ
  direction_mem : direction = -1 ∨ direction = 0 ∨ direction = 1
  kelly_nonneg : 0 ≤ fullKellyFraction
  confidence_nonneg : 0 ≤ confidence
  confidence_le : confidence ≤ 1
  flat_zero : direction = 0 → fullKellyFraction = 0

instance : DecidableEq Signal := fun _ _ => decidable_of_iff' _ Signal.ext_iff

theorem kelly_nonneg_of_guard {kelly : ℚ} (h : ¬kelly < 0) : 0 ≤ kelly := not_lt.mp h

def Signal.create (contract : ContractSymbol) (ts : DateTime) (strategyId : String) (direction : ℤ)
    (fullKellyFraction confidence : ℚ) : Except String Signal :=
  if hDirection : direction = -1 ∨ direction = 0 ∨ direction = 1 then
    if hKelly : fullKellyFraction < 0 then throw "Signal.full_kelly_fraction must be >= 0"
    else if hConfidence : 0 ≤ confidence ∧ confidence ≤ 1 then
      if hFlat : direction = 0 ∧ fullKellyFraction ≠ 0 then
        throw "Signal: direction==0 (flat) requires full_kelly_fraction==0"
      else
        pure { contract, ts, strategyId, direction, fullKellyFraction, confidence
               direction_mem := hDirection
               kelly_nonneg := kelly_nonneg_of_guard hKelly
               confidence_nonneg := hConfidence.1
               confidence_le := hConfidence.2
               flat_zero := fun h => not_not.mp fun hNe => hFlat ⟨h, hNe⟩ }
    else throw "Signal.confidence must be in [0, 1]"
  else throw "Signal.direction must be -1/0/+1"

/-- A strategy with its own memory; it reads the bar history, the current bar last. -/
structure Strategy (σ : Type) where
  generateSignal : List VerifiedBar → σ → Except String (Option Signal × σ)

/-! ## Marking positions -/

/-- The loop of `_mark_to_market` over the positions. -/
def addUnrealized (lastClose : Dict ContractSymbol ℚ) : ℚ → List Position → Except SizingFailure ℚ
  | unrealized, [] => pure unrealized
  | unrealized, p :: rest =>
    if p.quantity = 0 then addUnrealized lastClose unrealized rest
    else
      match lastClose.get? p.contract with
      | none => addUnrealized lastClose unrealized rest
      | some price => do
        let mult ← multiplierFor p.contract
        addUnrealized lastClose (unrealized + (price - p.avgEntryPrice) * p.quantity * mult) rest

def markToMarket (realizedEquity : ℚ) (positions : List Position)
    (lastClose : Dict ContractSymbol ℚ) : Except SizingFailure ℚ := do
  let unrealized ← addUnrealized lastClose 0 positions
  pure (realizedEquity + unrealized)

def netPosition (positions : List Position) (contract : ContractSymbol) : ℤ :=
  ((positions.filter fun p => p.contract = contract).map Position.quantity).sum

/-! ## The engine -/

structure BacktestEngine (σ ρ : Type) where
  strategy : Strategy σ
  guard : TradeGuard ρ
  risk : RiskManager
  slippage : Option SlippageModel
  survivalGate : Bool
  survivalSeed : ℤ
  targetPosition : Bool
  rollEvents : List RollEvent
  stopLossPct : Option ℚ
  stop_loss_pos : ∀ pct ∈ stopLossPct, 0 < pct

/-- What `run` keeps between two bars. -/
structure LoopState (σ ρ : Type) where
  broker : MockBroker
  guard : ρ
  strategy : σ
  history : List VerifiedBar
  lastClose : Dict ContractSymbol ℚ
  closesByContract : Dict ContractSymbol (List ℚ)
  equityCurve : List ℚ
  signals : ℕ
  orders : ℕ
  fills : ℕ
  survivalCapped : ℕ
  rollsExecuted : ℕ
  totalRollCost : ℚ

abbrev EngineM (σ ρ α : Type) := Method RunFailure (LoopState σ ρ) α

inductive BarOutcome where
  | ruined
  | stopLoss (id : BrokerOrderId)
  | noSignal
  | flat (signal : Signal) (closing : Option BrokerOrderId)
  | cappedToZero (signal : Signal) (decision : SizingDecision)
  | onTarget (signal : Signal) (decision : SizingDecision)
  | blocked (signal : Signal) (decision : SizingDecision)
  | ordered (signal : Signal) (decision : SizingDecision) (id : BrokerOrderId)

def BarOutcome.placed : BarOutcome → Option BrokerOrderId
  | stopLoss id => some id
  | flat _ closing => closing
  | ordered _ _ id => some id
  | _ => none

/-- The signal of this bar with what the sizing gate returned for it. -/
def BarOutcome.sized : BarOutcome → Option (Signal × SizingDecision)
  | cappedToZero signal decision => some (signal, decision)
  | onTarget signal decision => some (signal, decision)
  | blocked signal decision => some (signal, decision)
  | ordered signal decision _ => some (signal, decision)
  | _ => none

structure BarRecord where
  filled : List OrderEvent
  advanced : MockBroker
  outcome : BarOutcome
  processed : MockBroker

structure RunResult where
  barsProcessed : ℕ
  signalsGenerated : ℕ
  ordersPlaced : ℕ
  fills : ℕ
  finalEquity : ℚ
  realizedPnl : ℚ
  finalPositions : List Position
  equityCurve : List ℚ
  survivalCappedBars : ℕ
  rollsExecuted : ℕ
  totalRollCost : ℚ
  tradePnls : List ℚ

variable {σ ρ : Type}

def LoopState.start (broker : MockBroker) (guard : ρ) (strategy : σ) : LoopState σ ρ where
  broker := broker
  guard := guard
  strategy := strategy
  history := []
  lastClose := .empty
  closesByContract := .empty
  equityCurve := []
  signals := 0
  orders := 0
  fills := 0
  survivalCapped := 0
  rollsExecuted := 0
  totalRollCost := 0

def onBroker {α : Type} (x : BrokerM α) : EngineM σ ρ α := fun s =>
  match x s.broker with
  | .ok a b => .ok a { s with broker := b }
  | .error e b => .error (.broker e) { s with broker := b }

namespace BacktestEngine

/-- The roll events by date: the last event of a date wins. -/
def rollByDate (e : BacktestEngine σ ρ) : Dict Date RollEvent :=
  .ofList (e.rollEvents.map fun event => (event.rollDate, event))

/-- `get_account_metrics`, observed by the guard; returns the equity. -/
def accountEquity (e : BacktestEngine σ ρ) : EngineM σ ρ ℚ := do
  let s ← get
  let metrics ← Method.liftExcept (s.broker.getAccountMetrics.mapError (.broker ∘ .broker))
  modify fun s => { s with guard := e.guard.observe metrics.equity s.guard }
  pure metrics.equity

def isTradeAllowed (e : BacktestEngine σ ρ) (contract : ContractSymbol) (side : Side)
    (quantity : ℤ) : EngineM σ ρ (Option TradeBlock) := do
  let s ← get
  let (block, r) := e.guard.isTradeAllowed s.broker contract side quantity s.guard
  modify fun s => { s with guard := r }
  pure block

def placeMarket (contract : ContractSymbol) (side : Side) (quantity : ℤ) (clientOrderId : String) :
    EngineM σ ρ BrokerOrderId := do
  let order ← Method.liftExcept ((Order.market contract side quantity clientOrderId).mapError
    (.broker ∘ .broker))
  let id ← onBroker (MockBroker.placeOrder order)
  modify fun s => { s with orders := s.orders + 1 }
  pure id

def executeRoll (e : BacktestEngine σ ρ) (bar : VerifiedBar) : EngineM σ ρ PUnit := do
  match e.rollByDate.get? bar.ts.date with
  | none => pure ⟨⟩
  | some event =>
    let s ← get
    if netPosition s.broker.getPositions event.oldContract = 0 then pure ⟨⟩
    else
      let rolled ← onBroker (MockBroker.rollPosition event.oldContract event.newContract
        event.frontSettle event.backSettle)
      if rolled = 0 then pure ⟨⟩
      else
        let mult ← Method.liftExcept ((multiplierFor event.newContract).mapError RunFailure.sizing)
        let cost := (event.backSettle - event.frontSettle) * rolled * mult
        modify fun s => { s with rollsExecuted := s.rollsExecuted + 1
                                 totalRollCost := s.totalRollCost + cost }

/-- `closes[j] / closes[j - 1] - 1` over consecutive closes. -/
def closeReturns : List ℚ → Except RunFailure (List ℚ)
  | prev :: next :: rest =>
    if prev = 0 then throw .zeroClose
    else do
      let returns ← closeReturns (next :: rest)
      pure ((next / prev - 1) :: returns)
  | _ => pure []

def minClosesForSurvival : ℕ := 3

def survivalInputs (e : BacktestEngine σ ρ) (closesByContract : Dict ContractSymbol (List ℚ))
    (contract : ContractSymbol) (barIndex : ℕ) : Except RunFailure (Option (List ℚ) × Option ℤ) :=
  if !e.survivalGate then pure (none, none)
  else
    match closesByContract.get? contract with
    | none => pure (none, none)
    | some closes =>
      if closes.length < minClosesForSurvival then pure (none, none)
      else do
        let returns ← closeReturns closes
        pure (some returns, some (e.survivalSeed + barIndex))

/-- Side and quantity of this bar's order; `none` when the target is already held. -/
def resolveOrder (e : BacktestEngine σ ρ) (decision : SizingDecision) (signal : Signal)
    (positions : List Position) : Option (Side × ℤ) :=
  if e.targetPosition then
    let target := if signal.direction > 0 then decision.contracts else -decision.contracts
    let delta := target - netPosition positions signal.contract
    if delta = 0 then none else some (if delta > 0 then .buy else .sell, |delta|)
  else some (if signal.direction > 0 then .buy else .sell, decision.contracts)

/-- `{strategy_id}@{bar.ts.isoformat()}`. -/
def orderTag (tag : String) (bar : VerifiedBar) : String := tag ++ "@" ++ bar.ts.isoformat

def flattenOnFlat (e : BacktestEngine σ ρ) (signal : Signal) (positions : List Position)
    (bar : VerifiedBar) : EngineM σ ρ (Option BrokerOrderId) := do
  let net := netPosition positions signal.contract
  if net = 0 then pure none
  else
    let closeSide := if net > 0 then Side.sell else Side.buy
    let block ← e.isTradeAllowed signal.contract closeSide |net|
    if block ≠ none then pure none
    else
      let id ← placeMarket signal.contract closeSide |net| (orderTag signal.strategyId bar)
      pure (some id)

def applyStopLoss (e : BacktestEngine σ ρ) (bar : VerifiedBar) (positions : List Position)
    (stopLossPct : ℚ) : EngineM σ ρ (Option BrokerOrderId) := do
  match positions.find? fun p => p.contract = bar.contract ∧ p.quantity ≠ 0 with
  | none => pure none
  | some pos =>
    if pos.avgEntryPrice ≤ 0 then pure none
    else
      let adverse :=
        if pos.quantity > 0 then (pos.avgEntryPrice - bar.close) / pos.avgEntryPrice
        else (bar.close - pos.avgEntryPrice) / pos.avgEntryPrice
      if adverse < stopLossPct then pure none
      else
        let closeSide := if pos.quantity > 0 then Side.sell else Side.buy
        let block ← e.isTradeAllowed bar.contract closeSide |pos.quantity|
        if block ≠ none then pure none
        else
          let id ← placeMarket bar.contract closeSide |pos.quantity| (orderTag "stop" bar)
          pure (some id)

/-- Steps 4 to 6 of the loop: size a signal with a direction, resolve its order, gate and place. -/
def tradeSignal (e : BacktestEngine σ ρ) (i : ℕ) (bar : VerifiedBar) (mtmEquity : ℚ)
    (positions : List Position) (signal : Signal) : EngineM σ ρ BarOutcome := do
  let s ← get
  let (returns, seed) ← Method.liftExcept (e.survivalInputs s.closesByContract signal.contract i)
  let decision ← Method.liftExcept ((e.risk.sizePosition signal.contract signal.fullKellyFraction
    mtmEquity bar.close returns seed).mapError RunFailure.sizing)
  modify fun s => { s with survivalCapped :=
    s.survivalCapped + if decision.bindingConstraint = .survival then 1 else 0 }
  if decision.contracts ≤ 0 then pure (.cappedToZero signal decision)
  else
    match e.resolveOrder decision signal positions with
    | none => pure (.onTarget signal decision)
    | some (side, quantity) =>
      let block ← e.isTradeAllowed signal.contract side quantity
      if block ≠ none then pure (.blocked signal decision)
      else
        let id ← placeMarket signal.contract side quantity (orderTag signal.strategyId bar)
        pure (.ordered signal decision id)

/-- Steps 3 to 6 of the loop. -/
def decide (e : BacktestEngine σ ρ) (i : ℕ) (bar : VerifiedBar) (mtmEquity : ℚ)
    (positions : List Position) : EngineM σ ρ BarOutcome := do
  let s ← get
  let (signal, memory) ← Method.liftExcept
    ((e.strategy.generateSignal s.history s.strategy).mapError RunFailure.strategy)
  modify fun s => { s with strategy := memory }
  match signal with
  | none => pure .noSignal
  | some signal =>
    modify fun s => { s with signals := s.signals + 1 }
    if signal.direction = 0 then
      if e.targetPosition then
        let closing ← e.flattenOnFlat signal positions bar
        pure (.flat signal closing)
      else pure (.flat signal none)
    else e.tradeSignal i bar mtmEquity positions signal

/-- The loop body after the bar is marked: ruin, stop-loss, then the decision. -/
def act (e : BacktestEngine σ ρ) (i : ℕ) (bar : VerifiedBar) (mtmEquity : ℚ)
    (positions : List Position) : EngineM σ ρ BarOutcome :=
  if mtmEquity ≤ 0 then pure .ruined
  else
    match e.stopLossPct with
    | none => e.decide i bar mtmEquity positions
    | some pct => do
      let stopped ← e.applyStopLoss bar positions pct
      match stopped with
      | some id => pure (.stopLoss id)
      | none => e.decide i bar mtmEquity positions

/-- Steps 1 and 2 of the loop: fills of prior orders and the roll of this date. -/
def fillAndRoll (e : BacktestEngine σ ρ) (bar : VerifiedBar) :
    EngineM σ ρ (List OrderEvent × MockBroker) := do
  let filled ← onBroker (MockBroker.advance bar e.slippage)
  modify fun s => { s with fills := s.fills + filled.length
                           lastClose := s.lastClose.set bar.contract bar.close }
  let s ← get
  e.executeRoll bar
  if e.survivalGate then
    modify fun s =>
      let closes := (s.closesByContract.get? bar.contract).getD []
      { s with closesByContract := s.closesByContract.set bar.contract (closes ++ [bar.close]) }
  pure (filled, s.broker)

def mark (e : BacktestEngine σ ρ) (bar : VerifiedBar) : EngineM σ ρ (ℚ × List Position) := do
  let equity ← e.accountEquity
  let s ← get
  let positions := s.broker.getPositions
  let mtmEquity ← Method.liftExcept
    ((markToMarket equity positions s.lastClose).mapError RunFailure.sizing)
  modify fun s => { s with equityCurve := s.equityCurve ++ [mtmEquity]
                           history := s.history ++ [bar] }
  pure (mtmEquity, positions)

def processBar (e : BacktestEngine σ ρ) (step : VerifiedBar × ℕ) : EngineM σ ρ BarRecord := do
  let (filled, advanced) ← e.fillAndRoll step.1
  let (mtmEquity, positions) ← e.mark step.1
  let outcome ← e.act step.2 step.1 mtmEquity positions
  let s ← get
  pure { filled, advanced, outcome, processed := s.broker }

def run (e : BacktestEngine σ ρ) (bars : List VerifiedBar) : EngineM σ ρ (RunResult × List BarRecord) := do
  let records ← Method.each e.processBar bars.zipIdx
  let finalEquity ← e.accountEquity
  let s ← get
  let result : RunResult :=
    { barsProcessed := bars.length
      signalsGenerated := s.signals
      ordersPlaced := s.orders
      fills := s.fills
      finalEquity := s.equityCurve.getLast?.getD finalEquity
      realizedPnl := s.broker.realizedPnlToday
      finalPositions := s.broker.getPositions
      equityCurve := s.equityCurve
      survivalCappedBars := s.survivalCapped
      rollsExecuted := s.rollsExecuted
      totalRollCost := s.totalRollCost
      tradePnls := s.broker.tradePnls }
  pure (result, records)

end BacktestEngine

/-! ## A scripted market -/

/-- A strategy that plays a list of directions and Kelly fractions on the current bar. -/
def scripted : Strategy (List (ℤ × ℚ)) where
  generateSignal history script :=
    match history.getLast?, script with
    | some bar, (direction, kelly) :: rest => do
      let signal ← Signal.create bar.contract bar.ts "scripted" direction kelly 1
      pure (some signal, rest)
    | _, _ => pure (none, [])

theorem no_stop_loss : ∀ pct ∈ (none : Option ℚ), 0 < pct := by simp

def Signal.long (contract : ContractSymbol) (ts : DateTime) (strategyId : String) (kelly : ℚ)
    (h : 0 ≤ kelly) : Signal where
  contract := contract
  ts := ts
  strategyId := strategyId
  direction := 1
  fullKellyFraction := kelly
  confidence := 1
  direction_mem := by decide
  kelly_nonneg := h
  confidence_nonneg := by norm_num
  confidence_le := by norm_num
  flat_zero := by simp

/-- The scripted strategy on a plain broker with the default sizer and no options. -/
def scriptedEngine (targetPosition : Bool) (rollEvents : List RollEvent) :
    BacktestEngine (List (ℤ × ℚ)) Unit where
  strategy := scripted
  guard := .plain
  risk := .default fun _ _ _ _ _ _ => 1
  slippage := none
  survivalGate := false
  survivalSeed := 0
  targetPosition := targetPosition
  rollEvents := rollEvents
  stopLossPct := none
  stop_loss_pos := no_stop_loss

def dailyBar (contract : ContractSymbol) (date : Date) (price : ℚ) : VerifiedBar where
  contract := contract
  ts := .utcMidnight date
  resolution := .day1
  openPrice := price
  high := price
  low := price
  close := price
  volume := 100
  nSourcesAgreed := 2
  sourceProvenanceHashes := []
  verifierRunHash := String.ofList (List.replicate sha256HexLength '0')
  prevBarHash := none
  tierUsed := .t2Exchange
  policyId := "phase_a1_default_v1"
  ts_aware := DateTime.utcMidnight_aware date
  run_hash_length := length_zeros
  prev_hash_length := by simp

def freshBroker : MockBroker := .fresh (.default fun _ => .utcMidnight .dec8)

end Futur3.Engine
