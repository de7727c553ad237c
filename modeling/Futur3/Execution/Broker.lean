import Futur3.Data.Types

/-! # Orders, order events, positions and account metrics

The records of the broker seam. A constructor that validates its fields is a
function to `Except`; the record itself carries what was validated.
-/

namespace Futur3.Execution

open Data

inductive OrderType where
  | mkt
  | lmt
  | stp
  | stpLmt
  | stpPrt
  | mit
  | lit
  | moc
  | moo
  | trail
  | trailLmt
  | joinBid
  | joinAsk
deriving DecidableEq, Repr

def OrderType.all : List OrderType :=
  [.mkt, .lmt, .stp, .stpLmt, .stpPrt, .mit, .lit, .moc, .moo, .trail, .trailLmt, .joinBid, .joinAsk]

inductive Side where
  | buy
  | sell
deriving DecidableEq, Repr

/-- BUY adds, SELL subtracts. -/
def Side.signed (side : Side) (quantity : ℤ) : ℤ :=
  match side with
  | .buy => quantity
  | .sell => -quantity

inductive Duration where
  | day
  | gtc
  | gtd
deriving DecidableEq, Repr

inductive OrderEventType where
  | submitted
  | ack
  | filled
  | partialFill
  | cancelled
  | rejected
  | modified
deriving DecidableEq, Repr

/-- The number in a broker-assigned id `mock-000001`, `mock-000002`, ... -/
structure BrokerOrderId where
  seq : ℕ
deriving DecidableEq, Repr

/-- What the broker layer raises, one constructor for each raising statement. -/
inductive BrokerFailure where
  -- OrderTypeUnsupportedError: "{type} not in restricted supported_order_types: {supported}"
  | orderTypeUnsupported (orderType : OrderType) (supported : List OrderType)
  -- BrokerError: "order {id} not found"
  | orderNotFound (id : BrokerOrderId)
  -- BrokerError: "order {id} already cancelled"
  | alreadyCancelled (id : BrokerOrderId)
  -- BrokerError: "cannot modify cancelled order {id}"
  | modifyCancelled (id : BrokerOrderId)
  -- BrokerError: "cannot fill cancelled order {id}"
  | fillCancelled (id : BrokerOrderId)
  -- BrokerError: "order {id} fully filled ({filled}/{quantity})"
  | fullyFilled (id : BrokerOrderId) (filled quantity : ℤ)
  -- BrokerError: "fill_quantity {quantity} > remaining {remaining} on order {id}"
  | fillExceedsRemaining (id : BrokerOrderId) (quantity remaining : ℤ)
  -- ValueError: "at least one of new_limit_price / new_stop_price / new_quantity must be non-None"
  | modifyNothing
  -- ValueError: "fill_price must be > 0; got {price}"
  | fillPrice (price : ℚ)
  -- ValueError: "fill_quantity must be > 0; got {quantity}"
  | fillQuantity (quantity : ℤ)
  -- ValueError: "Order.quantity must be > 0 (direction in `side`); got {quantity}"
  | orderQuantity (quantity : ℤ)
  -- ValueError: "Order.limit_price required for {type}; got None"
  | limitPriceRequired (orderType : OrderType)
  -- ValueError: "Order.stop_price required for {type}; got None"
  | stopPriceRequired (orderType : OrderType)
  -- ValueError: "OrderEvent.ts_utc must be TZ-aware; got naive {ts}"
  | eventNaive (ts : DateTime)
  -- ValueError: "OrderEvent.ts_utc must be UTC; got tzinfo of {ts}"
  | eventNotUtc (ts : DateTime)
  -- ValueError: "OrderEvent.cumulative_filled must be >= 0; got {filled}"
  | eventCumulative (filled : ℤ)
  -- ValueError: "OrderEvent.remaining_quantity must be >= 0; got {remaining}"
  | eventRemaining (remaining : ℤ)
  -- ValueError: "OrderEvent.fill_quantity must be >= 0 if set; got {quantity}"
  | eventFillQuantity (quantity : ℤ)
  -- ValueError: "Position.margin_used must be >= 0; got {margin}"
  | positionMargin (margin : ℚ)
  -- ValueError: "Position.avg_entry_price must be > 0 when quantity != 0; got {price} with ..."
  | positionEntry (price : ℚ) (quantity : ℤ)
  -- ValueError: "AccountMetrics.margin_used must be >= 0; got {margin}"
  | metricsMarginUsed (margin : ℚ)
  -- ValueError: "AccountMetrics.margin_available must be >= 0; got {margin}"
  | metricsMarginAvailable (margin : ℚ)
  -- ValueError: "AccountMetrics.leverage_used must be >= 0; got {leverage}"
  | metricsLeverage (leverage : ℚ)
  -- KeyError of `self._filled_qty[id]`
  | noFilledEntry (id : BrokerOrderId)
  -- AssertionError: `order.limit_price is not None`, `order.stop_price is not None`
  | priceAssertion
deriving DecidableEq

def BrokerFailure.isBrokerError : BrokerFailure → Bool
  | orderTypeUnsupported .. | orderNotFound .. | alreadyCancelled .. | modifyCancelled ..
  | fillCancelled .. | fullyFilled .. | fillExceedsRemaining .. => true
  | _ => false

def requiresLimit : OrderType → Bool
  | .lmt | .stpLmt | .lit | .trailLmt => true
  | _ => false

def requiresStop : OrderType → Bool
  | .stp | .stpLmt | .stpPrt | .mit => true
  | _ => false

@[ext]
structure Order where
  contract : ContractSymbol
  side : Side
  quantity : ℤ
  orderType : OrderType
  limitPrice : Option ℚ
  stopPrice : Option ℚ
  duration : Duration
  parentOrderId : Option String
  ocoGroupId : Option String
  clientOrderId : Option String
  quantity_pos : 0 < quantity
  limit_present : requiresLimit orderType → limitPrice.isSome
  stop_present : requiresStop orderType → stopPrice.isSome

instance : DecidableEq Order := fun _ _ => decidable_of_iff' _ Order.ext_iff

def Order.create (contract : ContractSymbol) (side : Side) (quantity : ℤ) (orderType : OrderType)
    (limitPrice stopPrice : Option ℚ) (duration : Duration)
    (parentOrderId ocoGroupId clientOrderId : Option String) : Except BrokerFailure Order :=
  if hQuantity : quantity ≤ 0 then throw (.orderQuantity quantity)
  else if hLimit : requiresLimit orderType ∧ limitPrice = none then
    throw (.limitPriceRequired orderType)
  else if hStop : requiresStop orderType ∧ stopPrice = none then
    throw (.stopPriceRequired orderType)
  else
    pure { contract, side, quantity, orderType, limitPrice, stopPrice, duration, parentOrderId
           ocoGroupId, clientOrderId
           quantity_pos := not_le.mp hQuantity
           limit_present := fun h => Option.ne_none_iff_isSome.mp fun e => hLimit ⟨h, e⟩
           stop_present := fun h => Option.ne_none_iff_isSome.mp fun e => hStop ⟨h, e⟩ }

/-- A market order as the engine builds it: no prices, default duration, no links. -/
def Order.market (contract : ContractSymbol) (side : Side) (quantity : ℤ) (clientOrderId : String) :
    Except BrokerFailure Order :=
  Order.create contract side quantity .mkt none none .day none none (some clientOrderId)

@[ext]
structure OrderEvent where
  brokerOrderId : BrokerOrderId
  clientOrderId : String
  contract : ContractSymbol
  eventType : OrderEventType
  fillPrice : Option ℚ
  fillQuantity : Option ℤ
  cumulativeFilled : ℤ
  remainingQuantity : ℤ
  tsUtc : DateTime
  ts_aware : tsUtc.isAware
  cumulative_nonneg : 0 ≤ cumulativeFilled
  remaining_nonneg : 0 ≤ remainingQuantity

instance : DecidableEq OrderEvent := fun _ _ => decidable_of_iff' _ OrderEvent.ext_iff

def OrderEvent.create (brokerOrderId : BrokerOrderId) (clientOrderId : String)
    (contract : ContractSymbol) (eventType : OrderEventType) (fillPrice : Option ℚ)
    (fillQuantity : Option ℤ) (cumulativeFilled remainingQuantity : ℤ) (tsUtc : DateTime) :
    Except BrokerFailure OrderEvent :=
  if hAware : tsUtc.isAware then
    if tsUtc.utcoffset ≠ some 0 then throw (.eventNotUtc tsUtc)
    else if hCumulative : cumulativeFilled < 0 then throw (.eventCumulative cumulativeFilled)
    else if hRemaining : remainingQuantity < 0 then throw (.eventRemaining remainingQuantity)
    else if fillQuantity.any (· < 0) then throw (.eventFillQuantity (fillQuantity.getD 0))
    else
      pure { brokerOrderId, clientOrderId, contract, eventType, fillPrice, fillQuantity
             cumulativeFilled, remainingQuantity, tsUtc
             ts_aware := hAware
             cumulative_nonneg := not_lt.mp hCumulative
             remaining_nonneg := not_lt.mp hRemaining }
  else throw (.eventNaive tsUtc)

@[ext]
structure Position where
  contract : ContractSymbol
  quantity : ℤ
  avgEntryPrice : ℚ
  unrealizedPnl : ℚ
  realizedPnlToday : ℚ
  marginUsed : ℚ
  margin_nonneg : 0 ≤ marginUsed
  entry_pos : quantity ≠ 0 → 0 < avgEntryPrice

instance : DecidableEq Position := fun _ _ => decidable_of_iff' _ Position.ext_iff

def Position.create (contract : ContractSymbol) (quantity : ℤ)
    (avgEntryPrice unrealizedPnl realizedPnlToday marginUsed : ℚ) :
    Except BrokerFailure Position :=
  if hMargin : marginUsed < 0 then throw (.positionMargin marginUsed)
  else if hEntry : quantity ≠ 0 ∧ avgEntryPrice ≤ 0 then
    throw (.positionEntry avgEntryPrice quantity)
  else
    pure { contract, quantity, avgEntryPrice, unrealizedPnl, realizedPnlToday, marginUsed
           margin_nonneg := not_lt.mp hMargin
           entry_pos := fun h => not_le.mp fun e => hEntry ⟨h, e⟩ }

structure AccountMetrics where
  accountId : String
  equity : ℚ
  cash : ℚ
  marginUsed : ℚ
  marginAvailable : ℚ
  leverageUsed : ℚ
  realizedPnlToday : ℚ
  unrealizedPnl : ℚ
  margin_used_nonneg : 0 ≤ marginUsed
  margin_available_nonneg : 0 ≤ marginAvailable
  leverage_nonneg : 0 ≤ leverageUsed

def AccountMetrics.create (accountId : String)
    (equity cash marginUsed marginAvailable leverageUsed realizedPnlToday unrealizedPnl : ℚ) :
    Except BrokerFailure AccountMetrics :=
  if hUsed : marginUsed < 0 then throw (.metricsMarginUsed marginUsed)
  else if hAvailable : marginAvailable < 0 then throw (.metricsMarginAvailable marginAvailable)
  else if hLeverage : leverageUsed < 0 then throw (.metricsLeverage leverageUsed)
  else
    pure { accountId, equity, cash, marginUsed, marginAvailable, leverageUsed
           realizedPnlToday, unrealizedPnl
           margin_used_nonneg := not_lt.mp hUsed
           margin_available_nonneg := not_lt.mp hAvailable
           leverage_nonneg := not_lt.mp hLeverage }

/-! ## What a successful construction returns -/

@[simp] theorem Side.signed_buy (quantity : ℤ) : Side.buy.signed quantity = quantity := rfl

@[simp] theorem Side.signed_sell (quantity : ℤ) : Side.sell.signed quantity = -quantity := rfl

theorem Side.signed_close (q : ℤ) : (if q > 0 then Side.sell else Side.buy).signed |q| = -q := by
  split
  · rename_i h
    rw [Side.signed_sell, abs_of_pos h]
  · rename_i h
    rw [Side.signed_buy, abs_of_nonpos (not_lt.mp h)]

theorem Side.signed_reopen (q : ℤ) : (if q > 0 then Side.buy else Side.sell).signed |q| = q := by
  split
  · rename_i h
    rw [Side.signed_buy, abs_of_pos h]
  · rename_i h
    rw [Side.signed_sell, abs_of_nonpos (not_lt.mp h), neg_neg]

theorem Order.create_ok {contract : ContractSymbol} {side : Side} {quantity : ℤ}
    {orderType : OrderType} {limitPrice stopPrice : Option ℚ} {duration : Duration}
    {parentOrderId ocoGroupId clientOrderId : Option String} {o : Order}
    (h : Order.create contract side quantity orderType limitPrice stopPrice duration
      parentOrderId ocoGroupId clientOrderId = .ok o) :
    o.contract = contract ∧ o.side = side ∧ o.quantity = quantity ∧ o.orderType = orderType ∧
      o.limitPrice = limitPrice ∧ o.stopPrice = stopPrice ∧ o.clientOrderId = clientOrderId := by
  unfold Order.create at h
  split_ifs at h
  cases h
  exact ⟨rfl, rfl, rfl, rfl, rfl, rfl, rfl⟩

theorem Order.market_ok {contract : ContractSymbol} {side : Side} {quantity : ℤ}
    {clientOrderId : String} {o : Order} (h : Order.market contract side quantity clientOrderId = .ok o) :
    o.contract = contract ∧ o.side = side ∧ o.quantity = quantity ∧ o.orderType = .mkt := by
  obtain ⟨hContract, hSide, hQuantity, hType, _⟩ := Order.create_ok h
  exact ⟨hContract, hSide, hQuantity, hType⟩

theorem Order.market_returns {quantity : ℤ} (h : 0 < quantity) (contract : ContractSymbol)
    (side : Side) (clientOrderId : String) :
    ∃ order, Order.market contract side quantity clientOrderId = .ok order := by
  unfold Order.market Order.create
  rw [dif_neg (not_le.mpr h), dif_neg (by simp [requiresLimit]), dif_neg (by simp [requiresStop])]
  exact ⟨_, rfl⟩

theorem OrderEvent.create_ok {id : BrokerOrderId} {clientOrderId : String}
    {contract : ContractSymbol} {eventType : OrderEventType} {fillPrice : Option ℚ}
    {fillQuantity : Option ℤ} {cumulativeFilled remainingQuantity : ℤ} {ts : DateTime} {e : OrderEvent}
    (h : OrderEvent.create id clientOrderId contract eventType fillPrice fillQuantity
      cumulativeFilled remainingQuantity ts = .ok e) :
    e.brokerOrderId = id ∧ e.clientOrderId = clientOrderId ∧ e.contract = contract ∧
      e.eventType = eventType ∧ e.fillPrice = fillPrice ∧ e.fillQuantity = fillQuantity ∧
      e.cumulativeFilled = cumulativeFilled ∧ e.remainingQuantity = remainingQuantity := by
  unfold OrderEvent.create at h
  split_ifs at h
  cases h
  exact ⟨rfl, rfl, rfl, rfl, rfl, rfl, rfl, rfl⟩

theorem Position.create_ok {contract : ContractSymbol} {quantity : ℤ}
    {avgEntryPrice unrealizedPnl realizedPnlToday marginUsed : ℚ} {p : Position}
    (h : Position.create contract quantity avgEntryPrice unrealizedPnl realizedPnlToday marginUsed
      = .ok p) :
    p.contract = contract ∧ p.quantity = quantity ∧ p.avgEntryPrice = avgEntryPrice ∧
      p.unrealizedPnl = unrealizedPnl ∧ p.realizedPnlToday = realizedPnlToday := by
  unfold Position.create at h
  split_ifs at h
  cases h
  exact ⟨rfl, rfl, rfl, rfl, rfl⟩

end Futur3.Execution
