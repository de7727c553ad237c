import Futur3.Execution.RiskManager
import Futur3.Data.VerifierPolicy
import Futur3.Prelude.Method
import Mathlib.Data.Finset.Insert
import Mathlib.Data.List.Sort

/-! # The in-memory broker

Every method of `MockBroker` runs on the mutable object: when it raises, the
changes it made before raising stay. The clock is the sequence of its readings,
the system clock being one whose readings are in UTC.
-/

namespace Futur3.Execution

open Data Prelude

inductive Raised where
  | broker (e : BrokerFailure)
  | sizing (e : SizingFailure)
  | slippage (e : SlippageFailure)
  | keyError (id : BrokerOrderId)
deriving DecidableEq

inductive Halt where
  -- "DLL breached: realized {realized} <= -{limit}"
  | dailyLoss (realized limit : ℚ)
  -- "trailing MLL breached: drawdown {drawdown} >= {limit}"
  | trailing (drawdown limit : ℚ)
deriving DecidableEq

inductive TradeBlock where
  -- "MockBroker: quantity must be > 0; got {quantity}"
  | quantity (quantity : ℤ)
  -- "MockBroker: block_all_trades=True (test config)"
  | blockAllTrades
  -- "PropGuard: account halted ({halt})"
  | halted (halt : Halt)
  -- "PropGuard: resulting position {resulting} exceeds max_contracts {limit}"
  | maxContracts (resulting limit : ℤ)
  -- "PropGuard: {halt}", when the breach is first seen
  | breached (halt : Halt)
deriving DecidableEq

structure BrokerConfig where
  startingEquity : ℚ
  accountId : String
  blockAllTrades : Bool
  restrictSupportedTo : Option (List OrderType)
  clockNow : ℕ → DateTime
  starting_pos : 0 < startingEquity
  account_nonempty : accountId ≠ ""

def BrokerConfig.default (clockNow : ℕ → DateTime) : BrokerConfig where
  startingEquity := 50000
  accountId := "MOCK-ACCT-001"
  blockAllTrades := false
  restrictSupportedTo := none
  clockNow := clockNow
  starting_pos := by norm_num
  account_nonempty := by decide

structure MockBroker where
  config : BrokerConfig
  orders : Dict BrokerOrderId Order
  cancelled : Finset BrokerOrderId
  filledQty : Dict BrokerOrderId ℤ
  events : List OrderEvent
  positions : Dict ContractSymbol Position
  realizedPnlToday : ℚ
  tradePnls : List ℚ
  openTradePnl : Dict ContractSymbol ℚ
  nextOrderIdSeq : ℕ
  clockReads : ℕ

abbrev BrokerM (α : Type) := Method Raised MockBroker α

def raise {α : Type} (e : BrokerFailure) : BrokerM α := throw (.broker e)

def orRaise {α : Type} (x : Except BrokerFailure α) : BrokerM α :=
  Method.liftExcept (x.mapError .broker)

namespace MockBroker

def fresh (config : BrokerConfig) : MockBroker where
  config := config
  orders := .empty
  cancelled := ∅
  filledQty := .empty
  events := []
  positions := .empty
  realizedPnlToday := 0
  tradePnls := []
  openTradePnl := .empty
  nextOrderIdSeq := 0
  clockReads := 0

def supportedOrderTypes (b : MockBroker) : List OrderType :=
  b.config.restrictSupportedTo.getD OrderType.all

/-- `is_trade_allowed` of the plain broker: the reason it is not, or `none`. -/
def isTradeAllowed (b : MockBroker) (quantity : ℤ) : Option TradeBlock :=
  if quantity ≤ 0 then some (.quantity quantity)
  else if b.config.blockAllTrades then some .blockAllTrades
  else none

def net (b : MockBroker) (contract : ContractSymbol) : ℤ :=
  (b.positions.get? contract).elim 0 Position.quantity

def getPositions (b : MockBroker) : List Position :=
  b.positions.values.insertionSort fun p q => p.contract ≤ q.contract

def currentEquity (b : MockBroker) : ℚ :=
  b.config.startingEquity + b.realizedPnlToday + (b.positions.values.map Position.unrealizedPnl).sum

def getAccountMetrics (b : MockBroker) : Except BrokerFailure AccountMetrics :=
  let unrealized := (b.positions.values.map Position.unrealizedPnl).sum
  let marginUsed := (b.positions.values.map Position.marginUsed).sum
  let equity := b.config.startingEquity + b.realizedPnlToday + unrealized
  AccountMetrics.create b.config.accountId equity (b.config.startingEquity + b.realizedPnlToday)
    marginUsed (max 0 (equity - marginUsed)) (if 0 < equity then marginUsed / equity else 0)
    b.realizedPnlToday unrealized

/-! ## Events and positions -/

/-- `order.client_order_id or fallback`: the empty text counts as missing. -/
def clientId (order : Order) (fallback : String) : String :=
  match order.clientOrderId with
  | some id => if id = "" then fallback else id
  | none => fallback

def emitEvent (brokerOrderId : BrokerOrderId) (clientOrderId : String) (contract : ContractSymbol)
    (eventType : OrderEventType) (fillPrice : Option ℚ) (fillQuantity : Option ℤ)
    (cumulativeFilled remainingQuantity : ℤ) : BrokerM OrderEvent := do
  let b ← get
  modify fun b => { b with clockReads := b.clockReads + 1 }
  let event ← orRaise (OrderEvent.create brokerOrderId clientOrderId contract eventType fillPrice
    fillQuantity cumulativeFilled remainingQuantity (b.config.clockNow b.clockReads))
  modify fun b => { b with events := b.events ++ [event] }
  pure event

def setPosition (contract : ContractSymbol) (position : Except BrokerFailure Position) :
    BrokerM PUnit := do
  let p ← orRaise position
  modify fun b => { b with positions := b.positions.set contract p }

/-- Append the open tally of a bet that ended to the trade ledger. -/
def bookTrade (contract : ContractSymbol) : BrokerM PUnit :=
  modify fun b =>
    { b with tradePnls := b.tradePnls ++ [(b.openTradePnl.get? contract).getD 0]
             openTradePnl := b.openTradePnl.erase contract }

/-- The branch of `_apply_fill_to_position` that realizes PnL on the closed portion. -/
def closeAgainst (contract : ContractSymbol) (existing : Position) (delta : ℤ) (fillPrice : ℚ)
    (isRoll : Bool) : BrokerM PUnit := do
  let oldQty := existing.quantity
  let newQty := oldQty + delta
  let closingQty := min |oldQty| |delta|
  let mult ← Method.liftExcept ((multiplierFor contract).mapError Raised.sizing)
  let realizedDelta :=
    if 0 < oldQty then (fillPrice - existing.avgEntryPrice) * closingQty * mult
    else (existing.avgEntryPrice - fillPrice) * closingQty * mult
  let cumulativeRealized := existing.realizedPnlToday + realizedDelta
  modify fun b =>
    { b with realizedPnlToday := b.realizedPnlToday + realizedDelta
             openTradePnl := b.openTradePnl.set contract
               ((b.openTradePnl.get? contract).getD 0 + realizedDelta) }
  if newQty = 0 then
    if isRoll then pure ⟨⟩ else bookTrade contract
    setPosition contract (Position.create contract 0 0 0 cumulativeRealized 0)
  else if ¬(0 < oldQty ↔ 0 < newQty) then
    bookTrade contract
    setPosition contract
      (Position.create contract newQty fillPrice 0 cumulativeRealized existing.marginUsed)
  else
    setPosition contract
      (Position.create contract newQty existing.avgEntryPrice 0 cumulativeRealized existing.marginUsed)

def applyFillToPosition (contract : ContractSymbol) (side : Side) (quantity : ℤ) (fillPrice : ℚ)
    (isRoll : Bool) : BrokerM PUnit := do
  let delta := side.signed quantity
  let b ← get
  match b.positions.get? contract with
  | none => setPosition contract (Position.create contract delta fillPrice 0 0 0)
  | some existing =>
    if existing.quantity = 0 then
      -- a flat slot re-opens and keeps the day's realized PnL
      setPosition contract (Position.create contract delta fillPrice 0 existing.realizedPnlToday 0)
    else if (0 < existing.quantity ∧ 0 < delta) ∨ (existing.quantity < 0 ∧ delta < 0) then
      setPosition contract
        (Position.create contract (existing.quantity + delta)
          ((existing.avgEntryPrice * |existing.quantity| + fillPrice * |delta|) /
            |existing.quantity + delta|)
          0 existing.realizedPnlToday existing.marginUsed)
    else closeAgainst contract existing delta fillPrice isRoll

/-! ## Order entry -/

/-- `anon-{seq:06d}`. -/
def anonymousId (seq : ℕ) : String := "anon-" ++ String.ofList (zeroPadded 6 seq)

def placeOrder (order : Order) : BrokerM BrokerOrderId := do
  let b ← get
  if order.orderType ∉ b.supportedOrderTypes then
    raise (.orderTypeUnsupported order.orderType b.supportedOrderTypes)
  let seq := b.nextOrderIdSeq + 1
  let id : BrokerOrderId := ⟨seq⟩
  set { b with nextOrderIdSeq := seq, orders := b.orders.set id order
               filledQty := b.filledQty.set id 0 }
  let client := clientId order (anonymousId seq)
  let _ ← emitEvent id client order.contract .submitted none none 0 order.quantity
  let _ ← emitEvent id client order.contract .ack none none 0 order.quantity
  pure id

/-- `self._orders[id]` guarded by the membership test before it. -/
def lookupOrder (id : BrokerOrderId) : BrokerM Order := do
  let b ← get
  match b.orders.get? id with
  | some order => pure order
  | none => raise (.orderNotFound id)

/-- `self._filled_qty[id]`. -/
def lookupFilled (id : BrokerOrderId) : BrokerM ℤ := do
  let b ← get
  match b.filledQty.get? id with
  | some filled => pure filled
  | none => throw (.keyError id)

def cancelOrder (id : BrokerOrderId) : BrokerM PUnit := do
  let order ← lookupOrder id
  let b ← get
  if id ∈ b.cancelled then raise (.alreadyCancelled id)
  modify fun b => { b with cancelled := insert id b.cancelled }
  let filled ← lookupFilled id
  let _ ← emitEvent id (clientId order "anon") order.contract .cancelled none none filled
    (max 0 (order.quantity - filled))
  pure ⟨⟩

def modifyOrder (id : BrokerOrderId) (newLimitPrice newStopPrice : Option ℚ)
    (newQuantity : Option ℤ) : BrokerM PUnit := do
  if newLimitPrice = none ∧ newStopPrice = none ∧ newQuantity = none then raise .modifyNothing
  let order ← lookupOrder id
  let b ← get
  if id ∈ b.cancelled then raise (.modifyCancelled id)
  let newOrder ← orRaise (Order.create order.contract order.side (newQuantity.getD order.quantity)
    order.orderType (newLimitPrice.or order.limitPrice) (newStopPrice.or order.stopPrice)
    order.duration order.parentOrderId order.ocoGroupId order.clientOrderId)
  modify fun b => { b with orders := b.orders.set id newOrder }
  let filled ← lookupFilled id
  let _ ← emitEvent id (clientId order "anon") order.contract .modified none none filled
    (max 0 (newOrder.quantity - filled))
  pure ⟨⟩

/-! ## Fills -/

def fillOrder (id : BrokerOrderId) (fillPrice : ℚ) (fillQuantity : Option ℤ) :
    BrokerM OrderEvent := do
  let order ← lookupOrder id
  let b ← get
  if id ∈ b.cancelled then raise (.fillCancelled id)
  if fillPrice ≤ 0 then raise (.fillPrice fillPrice)
  let alreadyFilled ← lookupFilled id
  let remaining := order.quantity - alreadyFilled
  if remaining ≤ 0 then raise (.fullyFilled id alreadyFilled order.quantity)
  let actualFillQty := fillQuantity.getD remaining
  if actualFillQty ≤ 0 then raise (.fillQuantity actualFillQty)
  if actualFillQty > remaining then raise (.fillExceedsRemaining id actualFillQty remaining)
  let newFilled := alreadyFilled + actualFillQty
  modify fun b => { b with filledQty := b.filledQty.set id newFilled }
  let newRemaining := order.quantity - newFilled
  applyFillToPosition order.contract order.side actualFillQty fillPrice false
  emitEvent id (clientId order "anon") order.contract
    (if newRemaining = 0 then .filled else .partialFill) (some fillPrice) (some actualFillQty)
    newFilled newRemaining

/-- The executed price of an order against a bar, before slippage. -/
def backtestFillPrice (order : Order) (bar : VerifiedBar) : Except BrokerFailure (Option ℚ) :=
  match order.orderType with
  | .mkt => pure (some bar.openPrice)
  | .lmt =>
    match order.limitPrice with
    | none => throw .priceAssertion
    | some limit =>
      let crossed := (order.side = .buy ∧ bar.low ≤ limit) ∨ (order.side = .sell ∧ limit ≤ bar.high)
      pure (if crossed then some limit else none)
  | .stp =>
    match order.stopPrice with
    | none => throw .priceAssertion
    | some stop =>
      let triggered := (order.side = .buy ∧ stop ≤ bar.high) ∨ (order.side = .sell ∧ bar.low ≤ stop)
      pure (if triggered then some stop else none)
  | _ => pure none

/-- Slippage applies to the orders that execute at the market. -/
def slipped (slippage : Option SlippageModel) (order : Order) (bar : VerifiedBar) (price : ℚ) :
    Except SlippageFailure ℚ :=
  match slippage with
  | some model =>
    if order.orderType = .mkt ∨ order.orderType = .stp then
      model.applySlippage price order.side order.quantity order.contract bar.ts
    else pure price
  | none => pure price

/-- One turn of the loop of `advance`. -/
def advanceOrder (bar : VerifiedBar) (slippage : Option SlippageModel) (id : BrokerOrderId) :
    BrokerM (List OrderEvent) := do
  let b ← get
  if id ∈ b.cancelled then pure []
  else
    let order ← lookupOrder id
    if order.contract ≠ bar.contract then pure []
    else
      let filled ← lookupFilled id
      if filled ≥ order.quantity then pure []
      else
        let intended ← orRaise (backtestFillPrice order bar)
        match intended with
        | none => pure []
        | some price =>
          let fillPrice ← Method.liftExcept ((slipped slippage order bar price).mapError .slippage)
          let event ← fillOrder id fillPrice none
          pure [event]

def advance (bar : VerifiedBar) (slippage : Option SlippageModel) : BrokerM (List OrderEvent) := do
  let b ← get
  let fills ← Method.each (advanceOrder bar slippage) b.orders.keys
  pure fills.flatten

/-- Carry the open tally of the front contract into the back contract. -/
def carryTally (front back : ContractSymbol) : BrokerM PUnit :=
  modify fun b =>
    let carried := (b.openTradePnl.get? front).getD 0
    let popped := b.openTradePnl.erase front
    { b with openTradePnl :=
        if carried = 0 then popped else popped.set back ((popped.get? back).getD 0 + carried) }

def rollPosition (front back : ContractSymbol) (frontFill backFill : ℚ) : BrokerM ℤ := do
  let b ← get
  let qty := b.net front
  if qty = 0 then pure 0
  else
    let closeSide := if qty > 0 then Side.sell else Side.buy
    let openSide := if qty > 0 then Side.buy else Side.sell
    applyFillToPosition front closeSide |qty| frontFill true
    applyFillToPosition back openSide |qty| backFill true
    carryTally front back
    pure qty

def reset : BrokerM PUnit :=
  modify fun b => { fresh b.config with clockReads := b.clockReads }

end MockBroker

end Futur3.Execution
