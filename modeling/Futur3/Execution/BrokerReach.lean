import Futur3.Execution.BrokerOps

/-! # What a call leaves behind

The state after each call, also when it raises, up to the event buffer and the
clock. From it every reachable broker files positions under their contract and
knows the fill count of every order.
-/

namespace Futur3.Execution

open Data Prelude Method

namespace MockBroker

def core (b : MockBroker) : MockBroker := { b with events := [], clockReads := 0 }

structure SameCore (b b' : MockBroker) : Prop where
  config : b'.config = b.config
  orders : b'.orders = b.orders
  cancelled : b'.cancelled = b.cancelled
  filledQty : b'.filledQty = b.filledQty
  positions : b'.positions = b.positions
  realizedPnlToday : b'.realizedPnlToday = b.realizedPnlToday
  tradePnls : b'.tradePnls = b.tradePnls
  openTradePnl : b'.openTradePnl = b.openTradePnl
  nextOrderIdSeq : b'.nextOrderIdSeq = b.nextOrderIdSeq

theorem sameCore {b b' : MockBroker} (h : b'.core = b.core) : SameCore b b' := by
  have hField {γ : Type} (part : MockBroker → γ) : part b'.core = part b.core := congrArg part h
  exact ⟨hField config, hField orders, hField cancelled, hField filledQty, hField positions,
    hField realizedPnlToday, hField tradePnls, hField openTradePnl, hField nextOrderIdSeq⟩

theorem emitEvent_core {id : BrokerOrderId} {client : String} {c : ContractSymbol}
    {eventType : OrderEventType} {fillPrice : Option ℚ} {fillQuantity : Option ℤ} {cum rem : ℤ} :
    Keeps core (emitEvent id client c eventType fillPrice fillQuantity cum rem) :=
  emitEvent_keeps fun _ _ _ => rfl

section After

variable {b : MockBroker} {id : BrokerOrderId}

theorem placeOrder_after (order : Order) :
    ((placeOrder order).after b).core =
      (if order.orderType ∈ b.supportedOrderTypes then b.withOrder order else b).core := by
  by_cases h : order.orderType ∈ b.supportedOrderTypes
  · rw [if_pos h, Method.after, placeOrder_accepted h]
    exact (keeps_bind emitEvent_core fun _ => keeps_bind emitEvent_core fun _ => keeps_pure _).after _
  · rw [if_neg h, after_of_error (placeOrder_refused h)]

theorem cancelOrder_after {order : Order} {filled : ℤ} (hOrder : b.orders.get? id = some order)
    (hOpen : id ∉ b.cancelled) (hFilled : b.filledQty.get? id = some filled) :
    ((cancelOrder id).after b).core = core { b with cancelled := insert id b.cancelled } := by
  rw [Method.after, cancelOrder_accepted hOrder hOpen hFilled]
  exact (keeps_bind emitEvent_core fun _ => keeps_pure _).after _

theorem modifyOrder_after {limitPrice stopPrice : Option ℚ} {quantity : Option ℤ}
    {order newOrder : Order} {filled : ℤ}
    (h : b.acceptedModify id limitPrice stopPrice quantity = some (order, newOrder))
    (hFilled : b.filledQty.get? id = some filled) :
    ((modifyOrder id limitPrice stopPrice quantity).after b).core =
      core { b with orders := b.orders.set id newOrder } := by
  rw [Method.after, modifyOrder_accepted h hFilled]
  exact (keeps_bind emitEvent_core fun _ => keeps_pure _).after _

/-- A cancellation is refused, or marks an open order. -/
theorem cancelOrder_cases (hConsistent : Consistent b) (id : BrokerOrderId) :
    (cancelOrder id).after b = b ∨
      ∃ order, b.orders.get? id = some order ∧ id ∉ b.cancelled ∧
        ((cancelOrder id).after b).core = core { b with cancelled := insert id b.cancelled } := by
  by_cases hRefused : b.orders.get? id = none ∨ id ∈ b.cancelled
  · obtain ⟨e, hError, -⟩ := cancelOrder_refused hRefused
    exact .inl (after_of_error hError)
  · rw [not_or] at hRefused
    obtain ⟨order, hOrder⟩ := Option.ne_none_iff_exists'.mp hRefused.1
    obtain ⟨filled, hFilled⟩ := hConsistent.tracked id order hOrder
    exact .inr ⟨order, hOrder, hRefused.2, cancelOrder_after hOrder hRefused.2 hFilled⟩

/-- A modification is refused, or replaces the record of an order. -/
theorem modifyOrder_cases (hConsistent : Consistent b) (id : BrokerOrderId)
    (limitPrice stopPrice : Option ℚ) (quantity : Option ℤ) :
    (modifyOrder id limitPrice stopPrice quantity).after b = b ∨
      ∃ order newOrder,
        b.acceptedModify id limitPrice stopPrice quantity = some (order, newOrder) ∧
          ((modifyOrder id limitPrice stopPrice quantity).after b).core =
            core { b with orders := b.orders.set id newOrder } := by
  cases hAccepted : b.acceptedModify id limitPrice stopPrice quantity with
  | none =>
    obtain ⟨e, hError⟩ := modifyOrder_refused hAccepted
    exact .inl (after_of_error hError)
  | some accepted =>
    obtain ⟨order, newOrder⟩ := accepted
    obtain ⟨filled, hFilled⟩ := hConsistent.tracked id order (acceptedModify_eq_some.mp hAccepted).1
    exact .inr ⟨order, newOrder, rfl, modifyOrder_after hAccepted hFilled⟩

def withFilled (b : MockBroker) (id : BrokerOrderId) (filled : ℤ) : MockBroker :=
  { b with filledQty := b.filledQty.set id filled }

theorem fillOrder_booked {price : ℚ} {quantity : Option ℤ} {order : Order} {filled actual : ℤ}
    {s : MockBroker} {u : PUnit}
    (h : b.acceptedFill id price quantity = some (order, filled, actual))
    (hApply : applyFillToPosition order.contract order.side actual price false
      (b.withFilled id (filled + actual)) = .ok u s) :
    fillOrder id price quantity b = emitEvent id (clientId order "anon") order.contract
      (if order.quantity - (filled + actual) = 0 then .filled else .partialFill) (some price)
      (some actual) (filled + actual) (order.quantity - (filled + actual)) s := by
  rw [fillOrder_accepted h]
  exact bind_of_ok hApply

/-- A fill that the position refuses has already been counted. -/
theorem fillOrder_unbooked {price : ℚ} {quantity : Option ℤ} {order : Order} {filled actual : ℤ}
    (h : b.acceptedFill id price quantity = some (order, filled, actual))
    (hTakes : ¬b.TakesFill order.contract (order.side.signed actual) price) :
    ∃ e, fillOrder id price quantity b = .error e (b.withFilled id (filled + actual)) := by
  obtain ⟨-, -, -, hPrice, -, hPos, -⟩ := acceptedFill_eq_some.mp h
  rw [fillOrder_accepted h]
  cases hApply : applyFillToPosition order.contract order.side actual price false
      (b.withFilled id (filled + actual)) with
  | ok u s => exact absurd (applyFill_ok_takes hPos hApply) hTakes
  | error e s =>
    obtain rfl := (applyFill_error hPos hApply).1.untouched (.inl hPrice)
    exact ⟨e, bind_of_error hApply⟩

theorem fillOrder_returns {price : ℚ} {quantity : Option ℤ} {order : Order} {filled actual : ℤ}
    (h : b.acceptedFill id price quantity = some (order, filled, actual)) (hNonneg : 0 ≤ filled)
    (hClock : b.ClockUtc 0) (hClosable : b.Closable order.contract [order.side.signed actual]) :
    ∃ e s, Filled (b.withFilled id (filled + actual)) s order.contract (order.side.signed actual)
        price ∧
      OrderEvent.create id (clientId order "anon") order.contract
        (if order.quantity - (filled + actual) = 0 then .filled else .partialFill) (some price)
        (some actual) (filled + actual) (order.quantity - (filled + actual))
        (b.config.clockNow b.clockReads) = .ok e ∧
      fillOrder id price quantity b =
        .ok e { s with clockReads := b.clockReads + 1, events := b.events ++ [e] } := by
  obtain ⟨-, -, -, hPrice, -, hPos, hLe⟩ := acceptedFill_eq_some.mp h
  have hTakes := (closable_one_iff order.side hPos hPrice).mp hClosable
  obtain ⟨s, hApply⟩ := (applyFill_returns_iff (b.withFilled id (filled + actual)) false
    hPos).mpr hTakes
  have hBooked := applyFillToPosition_ok hPos hApply
  have hUtc : s.ClockUtc 0 := by
    rw [ClockUtc, hBooked.config, hBooked.clockReads]
    exact hClock
  obtain ⟨e, hEmit, hCreate⟩ := emitEvent_utc id (clientId order "anon") order.contract
    (if order.quantity - (filled + actual) = 0 then .filled else .partialFill) (some price)
    (some actual) (filled + actual) (order.quantity - (filled + actual)) hUtc
    (add_nonneg hNonneg hPos.le) (by omega) (by simpa using hPos.le)
  refine ⟨e, s, hBooked, ?_, ?_⟩
  · rw [hBooked.config, hBooked.clockReads] at hCreate
    exact hCreate
  · rw [fillOrder_booked h hApply, hEmit, hBooked.clockReads, hBooked.events]
    rfl

theorem fillOrder_after_apply {price : ℚ} {quantity : Option ℤ} {order : Order} {filled actual : ℤ}
    (h : b.acceptedFill id price quantity = some (order, filled, actual)) :
    ∃ s, ((fillOrder id price quantity).after b).core = s.core ∧
      (s = b.withFilled id (filled + actual) ∨
        applyFillToPosition order.contract order.side actual price false
          (b.withFilled id (filled + actual)) = .ok ⟨⟩ s) := by
  obtain ⟨-, -, -, -, -, hPos, -⟩ := acceptedFill_eq_some.mp h
  by_cases hTakes : b.TakesFill order.contract (order.side.signed actual) price
  · obtain ⟨s, hApply⟩ :=
      (applyFill_returns_iff (b.withFilled id (filled + actual)) false hPos).mpr hTakes
    refine ⟨s, ?_, .inr hApply⟩
    rw [Method.after, fillOrder_booked h hApply]
    exact emitEvent_core.after s
  · obtain ⟨e, hError⟩ := fillOrder_unbooked h hTakes
    exact ⟨_, congrArg core (after_of_error hError), .inl rfl⟩

theorem fillOrder_after {price : ℚ} {quantity : Option ℤ} {order : Order} {filled actual : ℤ}
    (h : b.acceptedFill id price quantity = some (order, filled, actual)) :
    ∃ s, ((fillOrder id price quantity).after b).core = s.core ∧
      (s = b.withFilled id (filled + actual) ∨
        Filled (b.withFilled id (filled + actual)) s order.contract (order.side.signed actual)
          price) := by
  obtain ⟨-, -, -, -, -, hPos, -⟩ := acceptedFill_eq_some.mp h
  obtain ⟨s, hCore, hApply⟩ := fillOrder_after_apply h
  exact ⟨s, hCore, hApply.imp_right (applyFillToPosition_ok hPos)⟩

theorem fillOrder_after_book {price : ℚ} {quantity : Option ℤ} {order : Order} {filled actual : ℤ}
    (h : b.acceptedFill id price quantity = some (order, filled, actual)) :
    let b' := (fillOrder id price quantity).after b
    b'.orders = b.orders ∧ b'.cancelled = b.cancelled ∧
      b'.filledQty = b.filledQty.set id (filled + actual) := by
  obtain ⟨s, hCore, hFill⟩ := fillOrder_after h
  have hSame := sameCore hCore
  have hBook : s.orders = b.orders ∧ s.cancelled = b.cancelled ∧
      s.filledQty = b.filledQty.set id (filled + actual) := by
    rcases hFill with rfl | hFilled
    · exact ⟨rfl, rfl, rfl⟩
    · exact ⟨hFilled.orders, hFilled.cancelled, hFilled.filledQty⟩
  exact ⟨hSame.orders.trans hBook.1, hSame.cancelled.trans hBook.2.1, hSame.filledQty.trans hBook.2.2⟩

theorem fillOrder_step {b' : MockBroker} {price : ℚ} {quantity : Option ℤ} {order : Order}
    {filled actual : ℤ} {e : OrderEvent}
    (h : b.acceptedFill id price quantity = some (order, filled, actual))
    (hFill : fillOrder id price quantity b = .ok e b') :
    FillStep b b' id order filled actual price e := by
  obtain ⟨order', filled', actual', hStep, hActual⟩ := fillOrder_ok hFill
  obtain ⟨hOrder, hFilled, -, -, rfl, -⟩ := acceptedFill_eq_some.mp h
  obtain rfl := Option.some.inj (hOrder.symm.trans hStep.order_found)
  obtain rfl := Option.some.inj (hFilled.symm.trans hStep.filled_found)
  exact hActual ▸ hStep

theorem fillOrder_clockReads {b' : MockBroker} {price : ℚ} {quantity : Option ℤ} {order : Order}
    {filled actual : ℤ} {e : OrderEvent}
    (h : b.acceptedFill id price quantity = some (order, filled, actual))
    (hFill : fillOrder id price quantity b = .ok e b') : b'.clockReads = b.clockReads + 1 := by
  obtain ⟨-, -, -, -, -, hPos, -⟩ := acceptedFill_eq_some.mp h
  rw [fillOrder_accepted h, bind_ok_iff] at hFill
  obtain ⟨_, s, hApply, hEmit⟩ := hFill
  have hReads : s.clockReads = b.clockReads := (applyFillToPosition_ok hPos hApply).clockReads
  rw [emitEvent_reads hEmit, hReads]

theorem FillStep.net_own {b' : MockBroker} {price : ℚ} {order : Order} {filled actual : ℤ}
    {e : OrderEvent} (h : FillStep b b' id order filled actual price e) :
    b'.net order.contract = b.net order.contract + order.side.signed actual := by
  rw [h.booked.net, if_pos rfl]

/-- A turn at an order that is not due leaves the broker alone. -/
theorem advanceOrder_notDue {bar : VerifiedBar} (slippage : Option SlippageModel)
    (h : b.dueFill bar id = none) : (advanceOrder bar slippage id).after b = b := by
  rw [Method.after, advanceOrder, get_bind]
  by_cases hCancelled : id ∈ b.cancelled
  · rw [if_pos hCancelled]
    rfl
  rw [if_neg hCancelled]
  cases hOrder : b.orders.get? id with
  | none => exact after_of_error (bind_of_error (lookupOrder_missing hOrder))
  | some order =>
    cases hFilled : b.filledQty.get? id with
    | none =>
      rw [bind_of_ok (lookupOrder_ok_iff.mpr ⟨hOrder, rfl⟩)]
      by_cases hOther : order.contract ≠ bar.contract
      · rw [if_pos hOther]
        rfl
      · rw [if_neg hOther]
        exact after_of_error (bind_of_error (lookupFilled_missing hFilled))
    | some filled =>
      have hIdle := after_of_ok (advanceOrder_idle slippage hOrder hFilled h)
      rwa [Method.after, advanceOrder, get_bind, if_neg hCancelled] at hIdle

/-- A turn of the bar loop is a full fill of the order, or nothing. -/
theorem advanceOrder_after (bar : VerifiedBar) (slippage : Option SlippageModel) :
    (advanceOrder bar slippage id).after b = b ∨
      ∃ price, (advanceOrder bar slippage id).after b = (fillOrder id price none).after b := by
  cases hDue : b.dueFill bar id with
  | none => exact .inl (advanceOrder_notDue slippage hDue)
  | some due =>
    obtain ⟨order, remaining, intended⟩ := due
    cases hSlipped : (slipped slippage order bar intended).mapError Raised.slippage with
    | error e =>
      refine .inl (after_of_error (e := e) ?_)
      rw [advanceOrder_due hDue, hSlipped]
      rfl
    | ok price =>
      refine .inr ⟨price, ?_⟩
      rw [Method.after, advanceOrder_due hDue, hSlipped]
      cases hFill : fillOrder id price none b with
      | ok e s =>
        have hBoth : (fillOrder id price none >>= fun event => pure [event] :
          BrokerM (List OrderEvent)) b = .ok [e] s := bind_of_ok hFill
        exact (after_of_ok hBoth).trans (after_of_ok hFill).symm
      | error e s => exact (after_of_error (bind_of_error hFill)).trans (after_of_error hFill).symm

theorem barLoop_invariant {bar : VerifiedBar} {slippage : Option SlippageModel}
    {ids : List BrokerOrderId} (Inv : MockBroker → Prop)
    (hFill : ∀ id price s, Inv s → Inv ((fillOrder id price none).after s)) (h : Inv b) :
    Inv ((each (advanceOrder bar slippage) ids).after b) := by
  refine after_each_invariant Inv (fun id _ s hs => ?_) h
  rcases advanceOrder_after bar slippage with hSame | ⟨price, hSame⟩
  · rwa [hSame]
  · rw [hSame]
    exact hFill id price s hs

theorem advance_after (bar : VerifiedBar) (slippage : Option SlippageModel) :
    (advance bar slippage).after b = (each (advanceOrder bar slippage) b.orders.keys).after b := by
  cases hRun : each (advanceOrder bar slippage) b.orders.keys b with
  | ok fills s =>
    rw [after_of_ok hRun, Method.after, advance, get_bind, bind_of_ok hRun]
    rfl
  | error e s => rw [after_of_error hRun, Method.after, advance, get_bind, bind_of_error hRun]

theorem advance_raised (bar : VerifiedBar) (slippage : Option SlippageModel) :
    (advance bar slippage).raised b = (each (advanceOrder bar slippage) b.orders.keys).raised b := by
  cases hRun : each (advanceOrder bar slippage) b.orders.keys b with
  | ok fills s =>
    rw [raised_of_ok hRun, Method.raised, advance, get_bind, bind_of_ok hRun]
    rfl
  | error e s => rw [raised_of_error hRun, Method.raised, advance, get_bind, bind_of_error hRun]

theorem advance_invariant {bar : VerifiedBar} {slippage : Option SlippageModel}
    (Inv : MockBroker → Prop)
    (hFill : ∀ id price s, Inv s → Inv ((fillOrder id price none).after s)) (h : Inv b) :
    Inv ((advance bar slippage).after b) := by
  rw [advance_after]
  exact barLoop_invariant Inv hFill h

theorem fillOrder_after_orders (price : ℚ) (quantity : Option ℤ) :
    ((fillOrder id price quantity).after b).orders = b.orders := by
  cases hAccepted : b.acceptedFill id price quantity with
  | none =>
    obtain ⟨e, hError⟩ := fillOrder_refused hAccepted
    rw [after_of_error hError]
  | some accepted =>
    obtain ⟨order, filled, actual⟩ := accepted
    exact (fillOrder_after_book hAccepted).1

end After

/-! ## Rolls -/

section Roll

variable {b : MockBroker} {front back : ContractSymbol} {frontFill backFill : ℚ}

theorem rollPosition_flat (h : b.net front = 0) :
    rollPosition front back frontFill backFill b = .ok 0 b := by
  rw [rollPosition, get_bind, if_pos h]
  rfl

theorem rollPosition_open (h : b.net front ≠ 0) :
    rollPosition front back frontFill backFill b = (do
      applyFillToPosition front (if b.net front > 0 then .sell else .buy) |b.net front| frontFill true
      applyFillToPosition back (if b.net front > 0 then .buy else .sell) |b.net front| backFill true
      carryTally front back
      pure (b.net front) : BrokerM ℤ) b := by
  rw [rollPosition, get_bind, if_neg h]

theorem takesFill_close {c : ContractSymbol} (price : ℚ) (h : b.net c ≠ 0) :
    b.TakesFill c (-b.net c) price ↔ (multiplierFor c).isOk := by
  unfold TakesFill
  cases hGet : b.positions.get? c with
  | none => exact absurd (by simp [net, hGet]) h
  | some p =>
    have hNet : b.net c = p.quantity := by simp [net, hGet]
    have hOpposite : ¬((0 < p.quantity ∧ 0 < -p.quantity) ∨ (p.quantity < 0 ∧ -p.quantity < 0)) := by
      omega
    rw [hNet] at h ⊢
    simp only [h, hOpposite, if_false]
    simp

theorem rollPosition_refused (back : ContractSymbol) (frontFill backFill : ℚ)
    (hOpen : b.net front ≠ 0) (hMult : ¬(multiplierFor front).isOk) :
    ∃ e, rollPosition front back frontFill backFill b = .error e b := by
  rw [rollPosition_open hOpen]
  cases hApply : applyFillToPosition front (if b.net front > 0 then .sell else .buy) |b.net front|
      frontFill true b with
  | ok u s =>
    have hTakes := applyFill_ok_takes (abs_pos.mpr hOpen) hApply
    rw [Side.signed_close, takesFill_close frontFill hOpen] at hTakes
    exact absurd hTakes hMult
  | error e s =>
    obtain rfl := (applyFill_error (abs_pos.mpr hOpen) hApply).1.untouched (.inr hMult)
    exact ⟨e, bind_of_error hApply⟩

theorem rollPosition_front (back : ContractSymbol) (frontFill backFill : ℚ)
    (hOpen : b.net front ≠ 0) (hMult : (multiplierFor front).isOk) :
    ∃ s, applyFillToPosition front (if b.net front > 0 then .sell else .buy) |b.net front|
        frontFill true b = .ok ⟨⟩ s ∧ Filled b s front (-b.net front) frontFill ∧
      rollPosition front back frontFill backFill b = (do
        applyFillToPosition back (if b.net front > 0 then .buy else .sell) |b.net front| backFill true
        carryTally front back
        pure (b.net front) : BrokerM ℤ) s := by
  have hAbs : 0 < |b.net front| := abs_pos.mpr hOpen
  have hTakes := (takesFill_close frontFill hOpen).mpr hMult
  rw [← Side.signed_close] at hTakes
  obtain ⟨s, hApply⟩ := (applyFill_returns_iff b true hAbs).mpr hTakes
  have hFilled := applyFillToPosition_ok hAbs hApply
  rw [Side.signed_close] at hFilled
  refine ⟨s, hApply, hFilled, ?_⟩
  rw [rollPosition_open hOpen, bind_of_ok hApply]

theorem rollPosition_back (front : ContractSymbol) {s : MockBroker} {q : ℤ} (hq : q ≠ 0)
    (hTakes : s.TakesFill back q backFill) :
    ∃ s', applyFillToPosition back (if q > 0 then .buy else .sell) |q| backFill true s = .ok ⟨⟩ s' ∧
      (do
        applyFillToPosition back (if q > 0 then .buy else .sell) |q| backFill true
        carryTally front back
        pure q : BrokerM ℤ) s = .ok q ((carryTally front back).after s') := by
  rw [← Side.signed_reopen q] at hTakes
  obtain ⟨s', hApply⟩ := (applyFill_returns_iff s true (abs_pos.mpr hq)).mpr hTakes
  refine ⟨s', hApply, ?_⟩
  rw [bind_of_ok hApply]
  rfl

theorem rollPosition_back_refused (front : ContractSymbol) {s : MockBroker} {q : ℤ} (hq : q ≠ 0)
    (hTakes : ¬s.TakesFill back q backFill) :
    ∃ e s', Refusal s s' back backFill ∧ (do
        applyFillToPosition back (if q > 0 then .buy else .sell) |q| backFill true
        carryTally front back
        pure q : BrokerM ℤ) s = .error e s' := by
  rw [← Side.signed_reopen q] at hTakes
  cases hApply : applyFillToPosition back (if q > 0 then .buy else .sell) |q| backFill true s with
  | ok u s' => exact absurd (applyFill_ok_takes (abs_pos.mpr hq) hApply) hTakes
  | error e s' =>
    exact ⟨e, s', (applyFill_error (abs_pos.mpr hq) hApply).1, bind_of_error hApply⟩

/-- The back month takes the position the front month gives up. -/
def TakesRoll (b : MockBroker) (front back : ContractSymbol) (backFill : ℚ) : Prop :=
  if back = front then 0 < backFill else b.TakesFill back (b.net front) backFill

instance (b : MockBroker) (front back : ContractSymbol) (backFill : ℚ) :
    Decidable (b.TakesRoll front back backFill) :=
  inferInstanceAs (Decidable (ite _ _ _))

/-- After the front month is closed the back month takes the position exactly when it would
have taken it before. -/
theorem takesRoll_iff {s : MockBroker}
    (hFront : Filled b s front (-b.net front) frontFill) :
    s.TakesFill back (b.net front) backFill ↔ b.TakesRoll front back backFill := by
  obtain ⟨p, gained, hSet, -, hp⟩ := hFront.booked
  unfold TakesRoll
  split
  · rename_i hSame
    subst hSame
    have hFlat : p.quantity = 0 := by rw [hp.quantity, add_neg_cancel]
    simp only [TakesFill, hSet, Dict.get?_set_self, hFlat, if_true]
  · rename_i hOther
    simp only [TakesFill, hSet, Dict.get?_set_of_ne _ _ hOther]

theorem rollPosition_sameBook : SameBook b ((rollPosition front back frontFill backFill).after b) := by
  by_cases hFlat : b.net front = 0
  · rw [after_of_ok (rollPosition_flat hFlat)]
    exact SameBook.refl b
  by_cases hMult : (multiplierFor front).isOk
  · obtain ⟨s, -, hFront, hRun⟩ := rollPosition_front back frontFill
      backFill hFlat hMult
    rw [Method.after, hRun]
    by_cases hTakes : s.TakesFill back (b.net front) backFill
    · obtain ⟨s', hApply, hBack⟩ := rollPosition_back front hFlat hTakes
      have hFilled := applyFillToPosition_ok (abs_pos.mpr hFlat) hApply
      have hCarried : SameBook s' ((carryTally front back).after s') :=
        ⟨rfl, rfl, rfl, rfl, rfl, rfl, rfl⟩
      rw [hBack]
      exact (hFront.toSameBook.trans hFilled.toSameBook).trans hCarried
    · obtain ⟨e, s', hRefusal, hError⟩ := rollPosition_back_refused front hFlat hTakes
      rw [hError]
      exact hFront.toSameBook.trans hRefusal.toSameBook
  · obtain ⟨e, hError⟩ := rollPosition_refused back frontFill
      backFill hFlat hMult
    rw [after_of_error hError]
    exact SameBook.refl b

end Roll

/-! ## Every reachable broker -/

section Reach

variable {b b' : MockBroker}

theorem Consistent.of_core (h : Consistent b) (hCore : b'.core = b.core) : Consistent b' := by
  have hSame := sameCore hCore
  constructor
  · exact hSame.positions ▸ h.keyed
  · rw [hSame.orders, hSame.nextOrderIdSeq]
    exact h.numbered
  · rw [hSame.orders, hSame.filledQty]
    exact h.tracked
  · rw [hSame.cancelled, hSame.nextOrderIdSeq]
    exact h.cancelled_numbered

theorem Consistent.sameBook (h : Consistent b) (hSame : SameBook b b')
    (hKeyed : ∀ c p, b'.positions.get? c = some p → p.contract = c) : Consistent b' where
  keyed := hKeyed
  numbered := by
    rw [hSame.orders, hSame.nextOrderIdSeq]
    exact h.numbered
  tracked := by
    rw [hSame.orders, hSame.filledQty]
    exact h.tracked
  cancelled_numbered := by
    rw [hSame.cancelled, hSame.nextOrderIdSeq]
    exact h.cancelled_numbered

theorem Consistent.filled {c : ContractSymbol} {delta : ℤ} {price : ℚ} (h : Consistent b)
    (hFilled : Filled b b' c delta price) : Consistent b' :=
  h.sameBook hFilled.toSameBook (keyed_book h.keyed hFilled.booked)

theorem Consistent.refusal {c : ContractSymbol} {price : ℚ} (h : Consistent b)
    (hRefusal : Refusal b b' c price) : Consistent b' :=
  h.sameBook hRefusal.toSameBook (hRefusal.positions ▸ h.keyed)

theorem Consistent.withOrder (h : Consistent b) (order : Order) : Consistent (b.withOrder order) where
  keyed := h.keyed
  numbered id order' hGet := by
    rw [MockBroker.withOrder, Dict.get?_set] at hGet
    change id.seq ≤ b.nextOrderIdSeq + 1
    split at hGet
    · rename_i hId
      rw [hId]
    · exact (h.numbered id order' hGet).trans (Nat.le_succ _)
  tracked id order' hGet := by
    rw [MockBroker.withOrder, Dict.get?_set] at hGet
    rw [MockBroker.withOrder, Dict.get?_set]
    split
    · exact ⟨0, rfl⟩
    · rename_i hId
      rw [if_neg hId] at hGet
      exact h.tracked id order' hGet
  cancelled_numbered id hMem := (h.cancelled_numbered id hMem).trans (Nat.le_succ _)

theorem Consistent.withFilled (h : Consistent b) (id : BrokerOrderId) (filled : ℤ) :
    Consistent (b.withFilled id filled) where
  keyed := h.keyed
  numbered := h.numbered
  tracked id' order hGet := by
    rw [MockBroker.withFilled, Dict.get?_set]
    split
    · exact ⟨filled, rfl⟩
    · exact h.tracked id' order hGet
  cancelled_numbered := h.cancelled_numbered

theorem Consistent.withCancelled (h : Consistent b) {id : BrokerOrderId} {order : Order}
    (hOrder : b.orders.get? id = some order) :
    Consistent { b with cancelled := insert id b.cancelled } where
  keyed := h.keyed
  numbered := h.numbered
  tracked := h.tracked
  cancelled_numbered id' hMem := by
    rcases Finset.mem_insert.mp hMem with rfl | hOld
    · exact h.numbered id' order hOrder
    · exact h.cancelled_numbered id' hOld

theorem Consistent.withModified (h : Consistent b) {id : BrokerOrderId} {order : Order}
    (hOrder : b.orders.get? id = some order) (newOrder : Order) :
    Consistent { b with orders := b.orders.set id newOrder } where
  keyed := h.keyed
  numbered id' order' hGet := by
    rw [Dict.get?_set] at hGet
    split at hGet
    · rename_i hId
      exact hId ▸ h.numbered id order hOrder
    · exact h.numbered id' order' hGet
  tracked id' order' hGet := by
    rw [Dict.get?_set] at hGet
    split at hGet
    · rename_i hId
      exact hId ▸ h.tracked id order hOrder
    · exact h.tracked id' order' hGet
  cancelled_numbered := h.cancelled_numbered

theorem fillOrder_consistent (h : Consistent b) (id : BrokerOrderId) (price : ℚ)
    (quantity : Option ℤ) : Consistent ((fillOrder id price quantity).after b) := by
  cases hAccepted : b.acceptedFill id price quantity with
  | none =>
    obtain ⟨e, hError⟩ := fillOrder_refused hAccepted
    rwa [after_of_error hError]
  | some accepted =>
    obtain ⟨order, filled, actual⟩ := accepted
    obtain ⟨s, hCore, hFill⟩ := fillOrder_after hAccepted
    have hBook := h.withFilled id (filled + actual)
    rcases hFill with rfl | hFilled
    · exact hBook.of_core hCore
    · exact (hBook.filled hFilled).of_core hCore

theorem modifyOrder_consistent (h : Consistent b) (id : BrokerOrderId)
    (limitPrice stopPrice : Option ℚ) (quantity : Option ℤ) :
    Consistent ((modifyOrder id limitPrice stopPrice quantity).after b) := by
  rcases modifyOrder_cases h id limitPrice stopPrice quantity with
    hSame | ⟨order, newOrder, hAccepted, hCore⟩
  · rwa [hSame]
  · have hOrder := (acceptedModify_eq_some.mp hAccepted).1
    exact (h.withModified hOrder newOrder).of_core hCore

theorem cancelOrder_consistent (h : Consistent b) (id : BrokerOrderId) :
    Consistent ((cancelOrder id).after b) := by
  rcases cancelOrder_cases h id with hSame | ⟨order, hOrder, -, hCore⟩
  · rwa [hSame]
  · exact (h.withCancelled hOrder).of_core hCore

theorem rollPosition_consistent (h : Consistent b) (front back : ContractSymbol)
    (frontFill backFill : ℚ) :
    Consistent ((rollPosition front back frontFill backFill).after b) := by
  by_cases hFlat : b.net front = 0
  · rwa [after_of_ok (rollPosition_flat hFlat)]
  by_cases hMult : (multiplierFor front).isOk
  · obtain ⟨s, -, hFront, hRun⟩ := rollPosition_front back frontFill
      backFill hFlat hMult
    have hs := h.filled hFront
    rw [Method.after, hRun]
    by_cases hTakes : s.TakesFill back (b.net front) backFill
    · obtain ⟨s', hApply, hBack⟩ := rollPosition_back front hFlat hTakes
      have hFilled := applyFillToPosition_ok (abs_pos.mpr hFlat) hApply
      have hCarried : Consistent ((carryTally front back).after s') :=
        ⟨(hs.filled hFilled).keyed, (hs.filled hFilled).numbered, (hs.filled hFilled).tracked,
          (hs.filled hFilled).cancelled_numbered⟩
      rw [hBack]
      exact hCarried
    · obtain ⟨e, s', hRefusal, hError⟩ := rollPosition_back_refused front hFlat hTakes
      rw [hError]
      exact hs.refusal hRefusal
  · obtain ⟨e, hError⟩ := rollPosition_refused back frontFill
      backFill hFlat hMult
    rwa [after_of_error hError]

/-- Every call keeps the book consistent, also when it raises. -/
theorem perform_consistent (h : Consistent b) (op : BrokerOp) :
    Consistent (op.perform.after b) := by
  cases op with
  | place order =>
    rw [BrokerOp.perform, after_forget]
    refine Consistent.of_core ?_ (placeOrder_after order)
    split
    · exact h.withOrder order
    · exact h
  | cancel id => exact cancelOrder_consistent h id
  | modify id limitPrice stopPrice quantity =>
    exact modifyOrder_consistent h id limitPrice stopPrice quantity
  | fill id price quantity =>
    rw [BrokerOp.perform, after_forget]
    exact fillOrder_consistent h id price quantity
  | advance bar slippage =>
    rw [BrokerOp.perform, after_forget]
    exact advance_invariant Consistent (fun id price s hs => fillOrder_consistent hs id price none) h
  | roll front back frontFill backFill =>
    rw [BrokerOp.perform, after_forget]
    exact rollPosition_consistent h front back frontFill backFill

theorem fillOrder_after_config (id : BrokerOrderId) (price : ℚ) (quantity : Option ℤ) :
    ((fillOrder id price quantity).after b).config = b.config := by
  cases hAccepted : b.acceptedFill id price quantity with
  | none =>
    obtain ⟨e, hError⟩ := fillOrder_refused hAccepted
    rw [after_of_error hError]
  | some accepted =>
    obtain ⟨order, filled, actual⟩ := accepted
    obtain ⟨s, hCore, hFill⟩ := fillOrder_after hAccepted
    rw [(sameCore hCore).config]
    rcases hFill with rfl | hFilled
    · rfl
    · exact hFilled.config

theorem perform_config (h : Consistent b) (op : BrokerOp) :
    (op.perform.after b).config = b.config := by
  cases op with
  | place order =>
    rw [BrokerOp.perform, after_forget, (sameCore (placeOrder_after order)).config]
    split <;> rfl
  | cancel id =>
    rw [BrokerOp.perform]
    rcases cancelOrder_cases h id with hSame | ⟨-, -, -, hCore⟩
    · rw [hSame]
    · exact (sameCore hCore).config
  | modify id limitPrice stopPrice quantity =>
    rw [BrokerOp.perform]
    rcases modifyOrder_cases h id limitPrice stopPrice quantity with hSame | ⟨-, newOrder, -, hCore⟩
    · rw [hSame]
    · exact (sameCore hCore).config
  | fill id price quantity =>
    rw [BrokerOp.perform, after_forget]
    exact fillOrder_after_config id price quantity
  | advance bar slippage =>
    rw [BrokerOp.perform, after_forget]
    exact advance_invariant (fun s => s.config = b.config)
      (fun id price s hs => (fillOrder_after_config id price none).trans hs) rfl
  | roll front back frontFill backFill =>
    rw [BrokerOp.perform, after_forget]
    exact rollPosition_sameBook.config

end Reach

/-- A broker that some sequence of calls leads to, raising calls included. -/
def Reachable (b : MockBroker) : Prop :=
  ∃ config ops, b = runAll BrokerOp.perform (fresh config) ops

theorem Reachable.invariant {b : MockBroker} (Inv : MockBroker → Prop)
    (hStart : ∀ config, Inv (fresh config))
    (hStep : ∀ s (op : BrokerOp), Inv s → Inv (op.perform.after s)) (h : Reachable b) : Inv b := by
  obtain ⟨config, ops, rfl⟩ := h
  exact follows_rule Inv (fun s op hs _ => hStep s op hs) (hStart config) (follows_true _ ops)

theorem Reachable.consistent {b : MockBroker} (h : Reachable b) : Consistent b :=
  h.invariant Consistent (fun config => (fresh_idle config).toConsistent)
    fun _ op hs => perform_consistent hs op

end MockBroker

/-! ## A small session -/

def BrokerConfig.steady : BrokerConfig := .default fun _ => .utcMidnight .dec8

def Order.atMarket (contract : ContractSymbol) (side : Side) (quantity : ℤ) (h : 0 < quantity)
    (clientOrderId : Option String) : Order where
  contract := contract
  side := side
  quantity := quantity
  orderType := .mkt
  limitPrice := none
  stopPrice := none
  duration := .day
  parentOrderId := none
  ocoGroupId := none
  clientOrderId := clientOrderId
  quantity_pos := h
  limit_present := by simp [requiresLimit]
  stop_present := by simp [requiresStop]

theorem two_contracts : (0 : ℤ) < 2 := by decide

theorem three_contracts : (0 : ℤ) < 3 := by decide

end Futur3.Execution
