import Futur3.Execution.MockBroker
import Futur3.Prelude.AverageCost

/-! # What one broker method can do

One lemma for each method says everything a normal return tells about the state
before and after. Later modules use these and unfold no method.
-/

namespace Futur3.Execution

open Data Prelude Method

theorem raise_ok_iff {α : Type} {e : BrokerFailure} {a : α} {b b' : MockBroker} :
    (raise e : BrokerM α) b = .ok a b' ↔ False := throw_ok_iff

/-- A guard of a method body: raise, or go on with the rest. -/
theorem raise_guard_ok_iff {α β : Type} {p : Prop} [Decidable p] {e : BrokerFailure}
    {f : α → BrokerM β} {x : BrokerM β} {a : β} {b b' : MockBroker} :
    (if p then (raise e >>= f) else x) b = .ok a b' ↔ ¬p ∧ x b = .ok a b' := by
  rw [ite_ok_iff, bind_ok_iff]
  simp only [raise_ok_iff, false_and, exists_false, and_false, false_or]

theorem orRaise_ok_iff {α : Type} {x : Except BrokerFailure α} {a : α} {b b' : MockBroker} :
    (orRaise x : BrokerM α) b = .ok a b' ↔ x = .ok a ∧ b = b' := by
  rw [orRaise, liftExcept_ok_iff, mapError_ok_iff]

namespace MockBroker

/-- Realized plus unrealized result of one contract at a mark and a multiplier. -/
def contractValue (b : MockBroker) (c : ContractSymbol) (mark mult : ℚ) : ℚ :=
  (b.positions.get? c).elim 0 fun p =>
    p.realizedPnlToday + (mark - p.avgEntryPrice) * p.quantity * mult

def contractRealized (b : MockBroker) (c : ContractSymbol) : ℚ :=
  (b.positions.get? c).elim 0 Position.realizedPnlToday

structure SameBook (b b' : MockBroker) : Prop where
  config : b'.config = b.config
  orders : b'.orders = b.orders
  cancelled : b'.cancelled = b.cancelled
  filledQty : b'.filledQty = b.filledQty
  events : b'.events = b.events
  nextOrderIdSeq : b'.nextOrderIdSeq = b.nextOrderIdSeq
  clockReads : b'.clockReads = b.clockReads

theorem SameBook.refl (b : MockBroker) : SameBook b b := ⟨rfl, rfl, rfl, rfl, rfl, rfl, rfl⟩

theorem SameBook.trans {a b c : MockBroker} (h₁ : SameBook a b) (h₂ : SameBook b c) :
    SameBook a c :=
  ⟨h₂.config.trans h₁.config, h₂.orders.trans h₁.orders, h₂.cancelled.trans h₁.cancelled,
    h₂.filledQty.trans h₁.filledQty, h₂.events.trans h₁.events,
    h₂.nextOrderIdSeq.trans h₁.nextOrderIdSeq, h₂.clockReads.trans h₁.clockReads⟩

theorem SameBook.withPositions {b s : MockBroker} (h : SameBook b s)
    (positions : Dict ContractSymbol Position) :
    SameBook b { s with positions := positions } :=
  ⟨h.config, h.orders, h.cancelled, h.filledQty, h.events, h.nextOrderIdSeq, h.clockReads⟩

/-- The position a fill leaves behind: quantity, day's result and value at every mark. -/
structure FilledPosition (b : MockBroker) (c : ContractSymbol) (delta : ℤ) (price : ℚ)
    (p : Position) (gained : ℚ) : Prop where
  contract : p.contract = c
  quantity : p.quantity = b.net c + delta
  unrealized : p.unrealizedPnl = 0
  realized : p.realizedPnlToday = b.contractRealized c + gained
  value : ∀ mult, multiplierFor c = .ok mult → ∀ mark,
    p.realizedPnlToday + (mark - p.avgEntryPrice) * p.quantity * mult =
      b.contractValue c mark mult + (mark - price) * delta * mult
  configured : p.quantity = 0 → ∃ mult, multiplierFor c = .ok mult

def BookedFill (b b' : MockBroker) (c : ContractSymbol) (delta : ℤ) (price : ℚ) : Prop :=
  ∃ p gained, b'.positions = b.positions.set c p ∧
    b'.realizedPnlToday = b.realizedPnlToday + gained ∧ FilledPosition b c delta price p gained

structure Filled (b b' : MockBroker) (c : ContractSymbol) (delta : ℤ) (price : ℚ) : Prop
    extends SameBook b b' where
  booked : BookedFill b b' c delta price

/-- Only the positions and the realized total before and after matter. -/
theorem BookedFill.congr {a a' b b' : MockBroker} {c : ContractSymbol} {delta : ℤ} {price : ℚ}
    (h : BookedFill b b' c delta price) (hPositions : a.positions = b.positions)
    (hTotal : a.realizedPnlToday = b.realizedPnlToday) (hPositions' : a'.positions = b'.positions)
    (hTotal' : a'.realizedPnlToday = b'.realizedPnlToday) : BookedFill a a' c delta price := by
  obtain ⟨p, gained, hSet, hGained, hp⟩ := h
  refine ⟨p, gained, by rw [hPositions', hSet, hPositions], by rw [hTotal', hGained, hTotal], ?_⟩
  refine ⟨hp.contract, ?_, hp.unrealized, ?_, ?_, hp.configured⟩
  · simpa only [net, hPositions] using hp.quantity
  · simpa only [contractRealized, hPositions] using hp.realized
  · simpa only [contractValue, hPositions] using hp.value

theorem BookedFill.net {b b' : MockBroker} {c : ContractSymbol} {delta : ℤ} {price : ℚ}
    (h : BookedFill b b' c delta price) (c' : ContractSymbol) :
    b'.net c' = b.net c' + if c' = c then delta else 0 := by
  obtain ⟨p, gained, hSet, _, hp⟩ := h
  by_cases hc : c' = c
  · subst hc
    simp [MockBroker.net, hSet, hp.quantity]
  · simp [MockBroker.net, hSet, Dict.get?_set_of_ne _ _ hc, hc]

theorem setPosition_ok_iff {c : ContractSymbol} {x : Except BrokerFailure Position}
    {b b' : MockBroker} {u : PUnit} :
    setPosition c x b = .ok u b' ↔
      ∃ p, x = .ok p ∧ { b with positions := b.positions.set c p } = b' := by
  simp only [setPosition, bind_ok_iff, orRaise_ok_iff, modify_ok_iff]
  constructor
  · rintro ⟨p, s, ⟨hx, rfl⟩, rfl⟩
    exact ⟨p, hx, rfl⟩
  · rintro ⟨p, hx, rfl⟩
    exact ⟨p, b, ⟨hx, rfl⟩, rfl⟩

theorem bookTrade_ok {c : ContractSymbol} {b b' : MockBroker} {u : PUnit}
    (h : bookTrade c b = .ok u b') :
    SameBook b b' ∧ b'.positions = b.positions ∧ b'.realizedPnlToday = b.realizedPnlToday := by
  rw [bookTrade, modify_ok_iff] at h
  subst h
  exact ⟨⟨rfl, rfl, rfl, rfl, rfl, rfl, rfl⟩, rfl, rfl⟩

/-- The value of a position as the average-cost library states it, times the multiplier. -/
theorem scaled_value {realized gained avg avg' price mark mult : ℚ} {q d q' : ℤ}
    (h : gained + (mark - avg') * q' = (mark - avg) * q + (mark - price) * d) :
    realized + gained * mult + (mark - avg') * q' * mult =
      realized + (mark - avg) * q * mult + (mark - price) * d * mult := by
  have := congrArg (· * mult) h
  simp only [add_mul] at this
  linarith

/-- Writing a position whose value is exact, after its gain was realized. -/
theorem Filled.of_close {c : ContractSymbol} {existing : Position} {delta q : ℤ}
    {price avg margin gained mult : ℚ} {b s : MockBroker} {p : Position}
    (hExisting : b.positions.get? c = some existing) (hMult : multiplierFor c = .ok mult)
    (hSame : SameBook b s) (hPositions : s.positions = b.positions)
    (hTotal : s.realizedPnlToday = b.realizedPnlToday + gained * mult)
    (hCreate : Position.create c q avg 0 (existing.realizedPnlToday + gained * mult) margin = .ok p)
    (hq : q = existing.quantity + delta)
    (hExact : ∀ mark, gained + (mark - avg) * q =
      (mark - existing.avgEntryPrice) * existing.quantity + (mark - price) * delta) :
    Filled b { s with positions := s.positions.set c p } c delta price := by
  obtain ⟨hContract, hQuantity, hAvg, hUnrealized, hRealized⟩ := Position.create_ok hCreate
  refine ⟨hSame.withPositions _, p, gained * mult, congrArg (Dict.set · c p) hPositions, hTotal, ?_⟩
  refine ⟨hContract, ?_, hUnrealized, ?_, ?_, fun _ => ⟨mult, hMult⟩⟩
  · simp [net, hExisting, hQuantity, hq]
  · simp [contractRealized, hExisting, hRealized]
  · intro m hm mark
    have hm : m = mult := Except.ok.inj (hm.symm.trans hMult)
    simp only [contractValue, hExisting, Option.elim_some, hRealized, hAvg, hQuantity, hm]
    exact scaled_value (hExact mark)

theorem closeAgainst_ok {c : ContractSymbol} {existing : Position} {delta : ℤ} {price : ℚ}
    {isRoll : Bool} {b b' : MockBroker} {u : PUnit} (hExisting : b.positions.get? c = some existing)
    (hOpen : existing.quantity ≠ 0)
    (hOpposite : ¬((0 < existing.quantity ∧ 0 < delta) ∨ (existing.quantity < 0 ∧ delta < 0)))
    (h : closeAgainst c existing delta price isRoll b = .ok u b') : Filled b b' c delta price := by
  simp only [closeAgainst, bind_ok_iff, liftExcept_ok_iff, mapError_ok_iff, modify_ok_iff,
    ite_ok_iff, setPosition_ok_iff] at h
  obtain ⟨mult, b₁, ⟨hMult, rfl⟩, _, b₂, hb₂, h⟩ := h
  have hGain : (if 0 < existing.quantity then
        (price - existing.avgEntryPrice) * ↑(min |existing.quantity| |delta|) * mult
      else (existing.avgEntryPrice - price) * ↑(min |existing.quantity| |delta|) * mult) =
      AverageCost.realized existing.avgEntryPrice price existing.quantity delta * mult := by
    unfold AverageCost.realized
    split <;> rfl
  rw [hGain] at h hb₂
  have hSame : SameBook b b₂ := hb₂ ▸ ⟨rfl, rfl, rfl, rfl, rfl, rfl, rfl⟩
  have hPositions : b₂.positions = b.positions := hb₂ ▸ rfl
  have hTotal : b₂.realizedPnlToday = b.realizedPnlToday +
    AverageCost.realized existing.avgEntryPrice price existing.quantity delta * mult := hb₂ ▸ rfl
  rcases h with ⟨hFlat, hClose⟩ |
    ⟨hNotFlat, ⟨hFlip, _, s, hBook, p, hCreate, rfl⟩ | ⟨hKeep, p, hCreate, rfl⟩⟩
  · have hExact : ∀ mark,
        AverageCost.realized existing.avgEntryPrice price existing.quantity delta +
          (mark - 0) * ((0 : ℤ) : ℚ) =
        (mark - existing.avgEntryPrice) * existing.quantity + (mark - price) * delta := by
      intro mark
      have := AverageCost.reduce_value existing.avgEntryPrice price mark hOpen hOpposite (.inl hFlat)
      rw [hFlat] at this
      simpa using this
    -- a roll's front leg books no trade
    rcases hClose with ⟨_, p, hCreate, rfl⟩ | ⟨_, _, s, hBook, p, hCreate, rfl⟩
    · exact Filled.of_close hExisting hMult hSame hPositions hTotal hCreate hFlat.symm hExact
    · obtain ⟨hSameBook, hPositionsBook, hTotalBook⟩ := bookTrade_ok hBook
      exact Filled.of_close hExisting hMult (hSame.trans hSameBook) (hPositionsBook.trans hPositions)
        (hTotalBook.trans hTotal) hCreate hFlat.symm hExact
  · obtain ⟨hSameBook, hPositionsBook, hTotalBook⟩ := bookTrade_ok hBook
    exact Filled.of_close hExisting hMult (hSame.trans hSameBook) (hPositionsBook.trans hPositions)
      (hTotalBook.trans hTotal) hCreate rfl
      fun mark => AverageCost.flip_value existing.avgEntryPrice price mark hOpen hFlip hNotFlat
  · exact Filled.of_close hExisting hMult hSame hPositions hTotal hCreate rfl
      fun mark => AverageCost.reduce_value existing.avgEntryPrice price mark hOpen hOpposite
        (.inr (not_not.mp hKeep))

/-- Opening in an empty or flat slot keeps the day's result of the slot. -/
theorem Filled.of_open {c : ContractSymbol} {delta : ℤ} {price : ℚ} {b : MockBroker} {p : Position}
    (hDelta : delta ≠ 0) (hNet : b.net c = 0)
    (hValue : ∀ mark mult, b.contractValue c mark mult = b.contractRealized c)
    (hCreate : Position.create c delta price 0 (b.contractRealized c) 0 = .ok p) :
    Filled b { b with positions := b.positions.set c p } c delta price := by
  obtain ⟨hContract, hQuantity, hAvg, hUnrealized, hRealized⟩ := Position.create_ok hCreate
  refine ⟨(SameBook.refl b).withPositions _, p, 0, rfl, (add_zero _).symm, hContract, ?_,
    hUnrealized, ?_, ?_, ?_⟩
  · rw [hQuantity, hNet, zero_add]
  · rw [hRealized, add_zero]
  · intro mult _ mark
    rw [hValue, hRealized, hAvg, hQuantity]
  · exact fun hZero => absurd (hQuantity.symm.trans hZero) hDelta

theorem applyFillToPosition_ok {c : ContractSymbol} {side : Side} {quantity : ℤ} {price : ℚ}
    {isRoll : Bool} {b b' : MockBroker} {u : PUnit} (hQuantity : 0 < quantity)
    (h : applyFillToPosition c side quantity price isRoll b = .ok u b') :
    Filled b b' c (side.signed quantity) price := by
  have hDelta : side.signed quantity ≠ 0 := by
    cases side <;> simp <;> omega
  simp only [applyFillToPosition, bind_ok_iff, get_ok_iff] at h
  obtain ⟨_, _, ⟨rfl, rfl⟩, h⟩ := h
  cases hExisting : b.positions.get? c with
  | none =>
    simp only [hExisting, setPosition_ok_iff] at h
    obtain ⟨p, hCreate, rfl⟩ := h
    refine Filled.of_open hDelta (by simp [net, hExisting]) ?_ ?_
    · simp [contractValue, contractRealized, hExisting]
    · simpa [contractRealized, hExisting] using hCreate
  | some existing =>
    simp only [hExisting, ite_ok_iff, setPosition_ok_iff] at h
    rcases h with ⟨hFlat, p, hCreate, rfl⟩ | ⟨hOpen, ⟨hSameSide, p, hCreate, rfl⟩ | ⟨hOpposite, h⟩⟩
    · refine Filled.of_open hDelta (by simp [net, hExisting, hFlat]) ?_ ?_
      · simp [contractValue, contractRealized, hExisting, hFlat]
      · simpa [contractRealized, hExisting] using hCreate
    · obtain ⟨hContract, hNew, hAvg, hUnrealized, hRealized⟩ := Position.create_ok hCreate
      refine ⟨(SameBook.refl b).withPositions _, p, 0, rfl, (add_zero _).symm, hContract, ?_,
        hUnrealized, ?_, ?_, ?_⟩
      · simp [net, hExisting, hNew]
      · simp [contractRealized, hExisting, hRealized]
      · intro mult _ mark
        have hExact := AverageCost.add_value existing.avgEntryPrice price mark hSameSide
        simp only [contractValue, hExisting, Option.elim_some, hRealized, hAvg, hNew]
        rw [hExact]
        ring
      · intro hZero
        rw [hNew] at hZero
        rcases hSameSide with ⟨_, _⟩ | ⟨_, _⟩ <;> omega
    · exact closeAgainst_ok hExisting hOpen hOpposite h

/-! ## Events -/

structure Emitted (b b' : MockBroker) (e : OrderEvent) : Prop where
  config : b'.config = b.config
  orders : b'.orders = b.orders
  cancelled : b'.cancelled = b.cancelled
  filledQty : b'.filledQty = b.filledQty
  positions : b'.positions = b.positions
  realizedPnlToday : b'.realizedPnlToday = b.realizedPnlToday
  nextOrderIdSeq : b'.nextOrderIdSeq = b.nextOrderIdSeq
  events : b'.events = b.events ++ [e]

theorem emitEvent_ok {id : BrokerOrderId} {client : String} {c : ContractSymbol}
    {eventType : OrderEventType} {fillPrice : Option ℚ} {fillQuantity : Option ℤ} {cum rem : ℤ}
    {b b' : MockBroker} {e : OrderEvent}
    (h : emitEvent id client c eventType fillPrice fillQuantity cum rem b = .ok e b') :
    Emitted b b' e ∧ e.brokerOrderId = id ∧ e.contract = c ∧ e.eventType = eventType ∧
      e.fillPrice = fillPrice ∧ e.fillQuantity = fillQuantity ∧ e.cumulativeFilled = cum ∧
      e.remainingQuantity = rem := by
  simp only [emitEvent, bind_ok_iff, get_ok_iff, modify_ok_iff, orRaise_ok_iff, pure_ok_iff] at h
  obtain ⟨_, _, ⟨rfl, rfl⟩, _, _, rfl, event, _, ⟨hCreate, rfl⟩, _, _, rfl, rfl, rfl⟩ := h
  obtain ⟨hId, _, hContract, hType, hPrice, hQuantity, hCum, hRem⟩ := OrderEvent.create_ok hCreate
  exact ⟨⟨rfl, rfl, rfl, rfl, rfl, rfl, rfl, rfl⟩, hId, hContract, hType, hPrice, hQuantity, hCum,
    hRem⟩

theorem lookupOrder_ok_iff {id : BrokerOrderId} {order : Order} {b b' : MockBroker} :
    lookupOrder id b = .ok order b' ↔ b.orders.get? id = some order ∧ b = b' := by
  simp only [lookupOrder, bind_ok_iff, get_ok_iff]
  constructor
  · rintro ⟨_, _, ⟨rfl, rfl⟩, h⟩
    cases hGet : b.orders.get? id with
    | none =>
      simp only [hGet, raise_ok_iff] at h
    | some o =>
      simp only [hGet, pure_ok_iff] at h
      exact ⟨congrArg some h.1, h.2⟩
  · rintro ⟨hGet, rfl⟩
    exact ⟨b, b, ⟨rfl, rfl⟩, by simp only [hGet, pure_ok_iff, and_self]⟩

theorem lookupFilled_ok_iff {id : BrokerOrderId} {filled : ℤ} {b b' : MockBroker} :
    lookupFilled id b = .ok filled b' ↔ b.filledQty.get? id = some filled ∧ b = b' := by
  simp only [lookupFilled, bind_ok_iff, get_ok_iff]
  constructor
  · rintro ⟨_, _, ⟨rfl, rfl⟩, h⟩
    cases hGet : b.filledQty.get? id with
    | none =>
      simp only [hGet, throw_ok_iff] at h
    | some o =>
      simp only [hGet, pure_ok_iff] at h
      exact ⟨congrArg some h.1, h.2⟩
  · rintro ⟨hGet, rfl⟩
    exact ⟨b, b, ⟨rfl, rfl⟩, by simp only [hGet, pure_ok_iff, and_self]⟩

/-! ## Fills -/

/-- A fill of one order: what was checked, what was booked, and the event returned. -/
structure FillStep (b b' : MockBroker) (id : BrokerOrderId) (order : Order) (filled actual : ℤ)
    (price : ℚ) (e : OrderEvent) : Prop where
  order_found : b.orders.get? id = some order
  not_cancelled : id ∉ b.cancelled
  price_pos : 0 < price
  filled_found : b.filledQty.get? id = some filled
  actual_pos : 0 < actual
  actual_le : actual ≤ order.quantity - filled
  config : b'.config = b.config
  orders : b'.orders = b.orders
  cancelled : b'.cancelled = b.cancelled
  filledQty : b'.filledQty = b.filledQty.set id (filled + actual)
  nextOrderIdSeq : b'.nextOrderIdSeq = b.nextOrderIdSeq
  events : b'.events = b.events ++ [e]
  booked : BookedFill b b' order.contract (order.side.signed actual) price
  event_id : e.brokerOrderId = id
  event_contract : e.contract = order.contract
  event_price : e.fillPrice = some price
  event_quantity : e.fillQuantity = some actual

theorem fillOrder_ok {id : BrokerOrderId} {price : ℚ} {quantity : Option ℤ} {b b' : MockBroker}
    {e : OrderEvent} (h : fillOrder id price quantity b = .ok e b') :
    ∃ order filled actual, FillStep b b' id order filled actual price e ∧
      actual = quantity.getD (order.quantity - filled) := by
  simp only [fillOrder, bind_ok_iff, get_ok_iff, modify_ok_iff, raise_guard_ok_iff,
    lookupOrder_ok_iff, lookupFilled_ok_iff] at h
  obtain ⟨order, _, ⟨hOrder, rfl⟩, _, _, ⟨rfl, rfl⟩, hCancelled, hPrice, filled, _, ⟨hFilled, rfl⟩, _,
    hPos, hLe, _, b₁, hb₁, _, b₂, hApply, hEmit⟩ := h
  refine ⟨order, filled, _, ?_, rfl⟩
  generalize quantity.getD (order.quantity - filled) = actual at *
  have hBook := applyFillToPosition_ok (not_le.mp hPos) hApply
  obtain ⟨hEmitted, hId, hContract, _, hEventPrice, hEventQuantity, _⟩ := emitEvent_ok hEmit
  have hBooked : BookedFill b b' order.contract (order.side.signed actual) price :=
    hBook.booked.congr (hb₁ ▸ rfl) (hb₁ ▸ rfl) hEmitted.positions hEmitted.realizedPnlToday
  subst hb₁
  exact {
    order_found := hOrder
    not_cancelled := hCancelled
    price_pos := not_le.mp hPrice
    filled_found := hFilled
    actual_pos := not_le.mp hPos
    actual_le := not_lt.mp hLe
    config := hEmitted.config.trans hBook.config
    orders := hEmitted.orders.trans hBook.orders
    cancelled := hEmitted.cancelled.trans hBook.cancelled
    filledQty := hEmitted.filledQty.trans hBook.filledQty
    nextOrderIdSeq := hEmitted.nextOrderIdSeq.trans hBook.nextOrderIdSeq
    events := by rw [hEmitted.events, hBook.events]
    booked := hBooked
    event_id := hId
    event_contract := hContract
    event_price := hEventPrice
    event_quantity := hEventQuantity }

/-- Why the loop of `advance` passes over an order. -/
def PassedOver (b : MockBroker) (bar : VerifiedBar) (id : BrokerOrderId) : Prop :=
  id ∈ b.cancelled ∨ ∃ order, b.orders.get? id = some order ∧
    (order.contract ≠ bar.contract ∨ ∃ filled, b.filledQty.get? id = some filled ∧
      (order.quantity ≤ filled ∨ backtestFillPrice order bar = .ok none))

/-- An order that the loop fills: in full, at its intended price after slippage. -/
def FilledByBar (b b' : MockBroker) (bar : VerifiedBar) (slippage : Option SlippageModel)
    (id : BrokerOrderId) (e : OrderEvent) : Prop :=
  ∃ order filled intended price, order.contract = bar.contract ∧
    backtestFillPrice order bar = .ok (some intended) ∧ slipped slippage order bar intended = .ok price ∧
    FillStep b b' id order filled (order.quantity - filled) price e

theorem advanceOrder_ok {bar : VerifiedBar} {slippage : Option SlippageModel} {id : BrokerOrderId}
    {b b' : MockBroker} {es : List OrderEvent} (h : advanceOrder bar slippage id b = .ok es b') :
    (es = [] ∧ b' = b ∧ PassedOver b bar id) ∨ ∃ e, es = [e] ∧ FilledByBar b b' bar slippage id e := by
  simp only [advanceOrder, bind_ok_iff, get_ok_iff, ite_ok_iff, pure_ok_iff, lookupOrder_ok_iff,
    lookupFilled_ok_iff, orRaise_ok_iff] at h
  obtain ⟨_, _, ⟨rfl, rfl⟩, ⟨hCancelled, rfl, rfl⟩ | ⟨_, order, _, ⟨hOrder, rfl⟩, h⟩⟩ := h
  · exact .inl ⟨rfl, rfl, .inl hCancelled⟩
  rcases h with ⟨hContract, rfl, rfl⟩ | ⟨hContract, filled, _, ⟨hFilled, rfl⟩, h⟩
  · exact .inl ⟨rfl, rfl, .inr ⟨order, hOrder, .inl hContract⟩⟩
  rcases h with ⟨hFull, rfl, rfl⟩ | ⟨_, intended, _, ⟨hIntended, rfl⟩, h⟩
  · exact .inl ⟨rfl, rfl, .inr ⟨order, hOrder, .inr ⟨filled, hFilled, .inl hFull⟩⟩⟩
  cases intended with
  | none =>
    obtain ⟨rfl, rfl⟩ := pure_ok_iff.mp h
    exact .inl ⟨rfl, rfl, .inr ⟨order, hOrder, .inr ⟨filled, hFilled, .inr hIntended⟩⟩⟩
  | some intended =>
    simp only [bind_ok_iff, liftExcept_ok_iff, mapError_ok_iff, pure_ok_iff] at h
    obtain ⟨price, _, ⟨hSlipped, rfl⟩, e, b₁, hFill, rfl, rfl⟩ := h
    obtain ⟨order', filled', actual, hStep, hActual⟩ := fillOrder_ok hFill
    have hSameOrder : order' = order := Option.some.inj (hStep.order_found.symm.trans hOrder)
    have hSameFilled : filled' = filled := Option.some.inj (hStep.filled_found.symm.trans hFilled)
    subst hSameOrder hSameFilled hActual
    exact .inr ⟨e, rfl, order', filled', intended, price, not_not.mp hContract, hIntended, hSlipped,
      hStep⟩

/-! ## Order entry -/

/-- Nothing was executed: positions, result and configuration are the same. -/
structure NoFill (b b' : MockBroker) : Prop where
  config : b'.config = b.config
  positions : b'.positions = b.positions
  realizedPnlToday : b'.realizedPnlToday = b.realizedPnlToday

structure Placed (b b' : MockBroker) (order : Order) (id : BrokerOrderId) : Prop
    extends NoFill b b' where
  id_eq : id = ⟨b.nextOrderIdSeq + 1⟩
  supported : order.orderType ∈ b.supportedOrderTypes
  orders : b'.orders = b.orders.set id order
  cancelled : b'.cancelled = b.cancelled
  filledQty : b'.filledQty = b.filledQty.set id 0
  nextOrderIdSeq : b'.nextOrderIdSeq = b.nextOrderIdSeq + 1

theorem placeOrder_ok {order : Order} {b b' : MockBroker} {id : BrokerOrderId}
    (h : placeOrder order b = .ok id b') : Placed b b' order id := by
  simp only [placeOrder, bind_ok_iff, get_ok_iff, set_ok_iff, raise_guard_ok_iff, pure_ok_iff] at h
  obtain ⟨_, _, ⟨rfl, rfl⟩, hSupported, _, b₁, hb₁, _, b₂, hSubmitted, _, b₃, hAck, rfl, rfl⟩ := h
  obtain ⟨hFirst, _⟩ := emitEvent_ok hSubmitted
  obtain ⟨hSecond, _⟩ := emitEvent_ok hAck
  subst hb₁
  exact {
    id_eq := rfl
    supported := not_not.mp hSupported
    config := hSecond.config.trans hFirst.config
    positions := hSecond.positions.trans hFirst.positions
    realizedPnlToday := hSecond.realizedPnlToday.trans hFirst.realizedPnlToday
    orders := hSecond.orders.trans hFirst.orders
    cancelled := hSecond.cancelled.trans hFirst.cancelled
    filledQty := hSecond.filledQty.trans hFirst.filledQty
    nextOrderIdSeq := hSecond.nextOrderIdSeq.trans hFirst.nextOrderIdSeq }

theorem cancelOrder_ok {id : BrokerOrderId} {b b' : MockBroker} {u : PUnit}
    (h : cancelOrder id b = .ok u b') :
    NoFill b b' ∧ b'.orders = b.orders ∧ b'.filledQty = b.filledQty ∧
      b'.cancelled = insert id b.cancelled := by
  simp only [cancelOrder, bind_ok_iff, get_ok_iff, modify_ok_iff, raise_guard_ok_iff,
    lookupOrder_ok_iff, lookupFilled_ok_iff, pure_ok_iff] at h
  obtain ⟨order, _, ⟨_, rfl⟩, _, _, ⟨rfl, rfl⟩, _, _, b₁, hb₁, filled, _, ⟨_, rfl⟩, _, b₂, hEmit, _,
    rfl⟩ := h
  obtain ⟨hEmitted, _⟩ := emitEvent_ok hEmit
  subst hb₁
  exact ⟨⟨hEmitted.config, hEmitted.positions, hEmitted.realizedPnlToday⟩, hEmitted.orders,
    hEmitted.filledQty, hEmitted.cancelled⟩

theorem modifyOrder_ok {id : BrokerOrderId} {limit stop : Option ℚ} {quantity : Option ℤ}
    {b b' : MockBroker} {u : PUnit} (h : modifyOrder id limit stop quantity b = .ok u b') :
    NoFill b b' ∧ b'.filledQty = b.filledQty ∧ b'.cancelled = b.cancelled ∧
      ∃ order newOrder, b.orders.get? id = some order ∧ b'.orders = b.orders.set id newOrder ∧
        newOrder.contract = order.contract ∧ newOrder.side = order.side ∧
        newOrder.orderType = order.orderType := by
  simp only [modifyOrder, bind_ok_iff, get_ok_iff, modify_ok_iff, raise_guard_ok_iff,
    lookupOrder_ok_iff, lookupFilled_ok_iff, orRaise_ok_iff, pure_ok_iff] at h
  obtain ⟨_, order, _, ⟨hOrder, rfl⟩, _, _, ⟨rfl, rfl⟩, _, newOrder, _, ⟨hCreate, rfl⟩, _, b₁, hb₁,
    filled, _, ⟨_, rfl⟩, _, b₂, hEmit, _, rfl⟩ := h
  obtain ⟨hEmitted, _⟩ := emitEvent_ok hEmit
  obtain ⟨hContract, hSide, _, hType, _⟩ := Order.create_ok hCreate
  subst hb₁
  exact ⟨⟨hEmitted.config, hEmitted.positions, hEmitted.realizedPnlToday⟩, hEmitted.filledQty,
    hEmitted.cancelled, order, newOrder, hOrder, hEmitted.orders, hContract, hSide, hType⟩

/-! ## Rolls -/

structure Rolled (b b' : MockBroker) (front back : ContractSymbol) (frontFill backFill : ℚ) : Prop
    extends SameBook b b' where
  legs : ∃ b₁, BookedFill b b₁ front (-b.net front) frontFill ∧
    BookedFill b₁ b' back (b.net front) backFill

theorem rollPosition_ok {front back : ContractSymbol} {frontFill backFill : ℚ} {b b' : MockBroker}
    {qty : ℤ} (h : rollPosition front back frontFill backFill b = .ok qty b') :
    qty = b.net front ∧
      ((qty = 0 ∧ b' = b) ∨ (qty ≠ 0 ∧ Rolled b b' front back frontFill backFill)) := by
  simp only [rollPosition, bind_ok_iff, get_ok_iff, ite_ok_iff, pure_ok_iff] at h
  obtain ⟨_, _, ⟨rfl, rfl⟩, ⟨hZero, rfl, rfl⟩ | ⟨hOpen, _, b₁, hFront, _, b₂, hBack, _, b₃, hCarry, rfl,
    rfl⟩⟩ := h
  · exact ⟨hZero.symm, .inl ⟨rfl, rfl⟩⟩
  refine ⟨rfl, .inr ⟨hOpen, ?_⟩⟩
  have hAbs : 0 < |b.net front| := abs_pos.mpr hOpen
  have hFront := applyFillToPosition_ok hAbs hFront
  have hBack := applyFillToPosition_ok hAbs hBack
  have hClose : (if b.net front > 0 then Side.sell else Side.buy).signed |b.net front| =
      -b.net front := by
    split
    · rename_i hPos
      rw [Side.signed_sell, abs_of_pos hPos]
    · rename_i hPos
      rw [Side.signed_buy, abs_of_nonpos (not_lt.mp hPos)]
  have hReopen : (if b.net front > 0 then Side.buy else Side.sell).signed |b.net front| =
      b.net front := by
    split
    · rename_i hPos
      rw [Side.signed_buy, abs_of_pos hPos]
    · rename_i hPos
      rw [Side.signed_sell, abs_of_nonpos (not_lt.mp hPos), neg_neg]
  rw [hClose] at hFront
  rw [hReopen] at hBack
  rw [carryTally, modify_ok_iff] at hCarry
  subst hCarry
  have hSame := hFront.toSameBook.trans hBack.toSameBook
  exact ⟨⟨hSame.config, hSame.orders, hSame.cancelled, hSame.filledQty, hSame.events,
    hSame.nextOrderIdSeq, hSame.clockReads⟩, b₁, hFront.booked, hBack.booked.congr rfl rfl rfl rfl⟩

theorem Rolled.net_front {b b' : MockBroker} {front back : ContractSymbol} {frontFill backFill : ℚ}
    (h : Rolled b b' front back frontFill backFill) (c : ContractSymbol) :
    b'.net c = b.net c + (if c = front then -b.net front else 0) +
      (if c = back then b.net front else 0) := by
  obtain ⟨b₁, hFront, hBack⟩ := h.legs
  rw [hBack.net, hFront.net]

end MockBroker

end Futur3.Execution
