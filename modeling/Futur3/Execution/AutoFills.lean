import Futur3.Execution.BrokerReach
import Futur3.Execution.OpenOrders

/-! # The prices of automatic fills

Every event that a bar adds to the broker is a fill of an order of the bar's
contract: a market order at the open, a limit order at its limit and a stop order
at its stop. Without slippage the price is one the bar traded at, unless the
whole bar lies beyond the price of the order.
-/

namespace Futur3.Execution

open Data Prelude Method

namespace MockBroker

def InRange (bar : VerifiedBar) (price : ℚ) : Prop := bar.low ≤ price ∧ price ≤ bar.high

def namedPrice (order : Order) (bar : VerifiedBar) : Option ℚ :=
  match order.orderType with
  | .mkt => some bar.openPrice
  | .lmt => order.limitPrice
  | .stp => order.stopPrice
  | _ => none

/-- The whole bar lies beyond the price: below the limit of a buyer or the stop of a seller, above
the limit of a seller or the stop of a buyer. -/
def GapsBeyond (order : Order) (bar : VerifiedBar) (price : ℚ) : Prop :=
  (order.orderType = .lmt ∧ order.side = .buy ∨ order.orderType = .stp ∧ order.side = .sell) ∧
      bar.high < price ∨
    (order.orderType = .lmt ∧ order.side = .sell ∨ order.orderType = .stp ∧ order.side = .buy) ∧
      price < bar.low

/-- A fill of a known order at the price it names, which is off the bar only when the bar gaps
beyond that price. -/
def AutoFill (b : MockBroker) (bar : VerifiedBar) (e : OrderEvent) : Prop :=
  ∃ order price, b.orders.get? e.brokerOrderId = some order ∧ order.contract = bar.contract ∧
    e.fillPrice = some price ∧ namedPrice order bar = some price ∧
    (InRange bar price ↔ ¬ GapsBeyond order bar price)

/-! ## The executed price -/

theorem backtestFillPrice_named {order : Order} {bar : VerifiedBar} {price : ℚ}
    (hOpen : InRange bar bar.openPrice) (h : backtestFillPrice order bar = .ok (some price)) :
    namedPrice order bar = some price ∧ (InRange bar price ↔ ¬ GapsBeyond order bar price) := by
  unfold backtestFillPrice at h
  split at h
  · rename_i hType
    rw [except_pure_ok_iff, Option.some.injEq] at h
    subst h
    simp [namedPrice, hType, GapsBeyond, hOpen]
  · rename_i hType
    split at h
    · simp [except_throw_ok_iff] at h
    · rename_i limit hLimit
      rw [except_pure_ok_iff] at h
      split at h
      · rename_i hCrossed
        cases h
        refine ⟨by simp [namedPrice, hType, hLimit], ?_⟩
        rcases hCrossed with ⟨hSide, hReach⟩ | ⟨hSide, hReach⟩
        · simp [InRange, GapsBeyond, hType, hSide, hReach]
        · simp [InRange, GapsBeyond, hType, hSide, hReach]
      · cases h
  · rename_i hType
    split at h
    · simp [except_throw_ok_iff] at h
    · rename_i stop hStop
      rw [except_pure_ok_iff] at h
      split at h
      · rename_i hTriggered
        cases h
        refine ⟨by simp [namedPrice, hType, hStop], ?_⟩
        rcases hTriggered with ⟨hSide, hReach⟩ | ⟨hSide, hReach⟩
        · simp [InRange, GapsBeyond, hType, hSide, hReach]
        · simp [InRange, GapsBeyond, hType, hSide, hReach]
      · cases h
  · rw [except_pure_ok_iff] at h
    cases h

/-! ## The events of a bar -/

section Events

variable {b : MockBroker} {id : BrokerOrderId}

theorem emitEvent_error_events {client : String} {c : ContractSymbol} {eventType : OrderEventType}
    {fillPrice : Option ℚ} {fillQuantity : Option ℤ} {cum rem : ℤ} {b' : MockBroker} {failure : Raised}
    (h : emitEvent id client c eventType fillPrice fillQuantity cum rem b = .error failure b') :
    b'.events = b.events := by
  have hTurn : (emitEvent id client c eventType fillPrice fillQuantity cum rem) b =
      (orRaise (OrderEvent.create id client c eventType fillPrice fillQuantity cum rem
        (b.config.clockNow b.clockReads)) >>= fun event => do
          modify fun b => { b with events := b.events ++ [event] }
          pure event : BrokerM OrderEvent) { b with clockReads := b.clockReads + 1 } := rfl
  rw [hTurn] at h
  cases hCreate : OrderEvent.create id client c eventType fillPrice fillQuantity cum rem
      (b.config.clockNow b.clockReads) with
  | ok e =>
    rw [hCreate] at h
    cases h
  | error err =>
    rw [hCreate] at h
    cases h
    rfl

/-- A fill that raises reports nothing. -/
theorem fillOrder_error_events {price : ℚ} {quantity : Option ℤ} {b' : MockBroker} {failure : Raised}
    (h : fillOrder id price quantity b = .error failure b') : b'.events = b.events := by
  cases hAccepted : b.acceptedFill id price quantity with
  | none =>
    obtain ⟨e, hError⟩ := fillOrder_refused hAccepted
    rw [hError] at h
    cases h
    rfl
  | some accepted =>
    obtain ⟨order, filled, actual⟩ := accepted
    obtain ⟨-, -, -, -, -, hPos, -⟩ := acceptedFill_eq_some.mp hAccepted
    by_cases hTakes : b.TakesFill order.contract (order.side.signed actual) price
    · obtain ⟨s, hApply⟩ :=
        (applyFill_returns_iff (b.withFilled id (filled + actual)) false hPos).mpr hTakes
      rw [fillOrder_booked hAccepted hApply] at h
      rw [emitEvent_error_events h, (applyFillToPosition_ok hPos hApply).events]
      rfl
    · obtain ⟨e, hError⟩ := fillOrder_unbooked hAccepted hTakes
      rw [hError] at h
      cases h
      rfl

theorem advanceOrder_error_events {bar : VerifiedBar} {slippage : Option SlippageModel}
    {b' : MockBroker} {failure : Raised} (h : advanceOrder bar slippage id b = .error failure b') :
    b'.events = b.events ∧ b'.orders = b.orders := by
  cases hDue : b.dueFill bar id with
  | none =>
    have hSame := advanceOrder_notDue slippage hDue
    rw [after_of_error h] at hSame
    rw [hSame]
    exact ⟨rfl, rfl⟩
  | some due =>
    obtain ⟨order, remaining, intended⟩ := due
    rw [advanceOrder_due hDue] at h
    cases hSlipped : (slipped slippage order bar intended).mapError Raised.slippage with
    | error e =>
      rw [hSlipped] at h
      cases h
      exact ⟨rfl, rfl⟩
    | ok price =>
      rw [hSlipped] at h
      have hTurn : (fillOrder id price none >>= fun event => pure [event] :
        BrokerM (List OrderEvent)) b = .error failure b' := h
      rcases bind_error_iff.mp hTurn with hFill | ⟨e, s, hFill, hPure⟩
      · have hOrders : ((fillOrder id price none).after b).orders = b.orders :=
          fillOrder_after_orders price none
        rw [after_of_error hFill] at hOrders
        exact ⟨fillOrder_error_events hFill, hOrders⟩
      · cases hPure

/-- What a loop over orders adds to the events, also when a turn of it raises. -/
structure AddedFills (b s : MockBroker) (bar : VerifiedBar) : Prop where
  orders : s.orders = b.orders
  events : ∃ new, s.events = b.events ++ new ∧ ∀ e ∈ new, AutoFill b bar e

theorem AddedFills.turn {s : MockBroker} {bar : VerifiedBar} (hOpen : InRange bar bar.openPrice)
    (h : AddedFills b s bar) (id : BrokerOrderId) :
    AddedFills b ((advanceOrder bar none id).after s) bar := by
  obtain ⟨hOrders, new, hEvents, hFills⟩ := h
  cases hRun : advanceOrder bar none id s with
  | error e s' =>
    rw [after_of_error hRun]
    obtain ⟨hEvents', hOrders'⟩ := advanceOrder_error_events hRun
    exact ⟨hOrders'.trans hOrders, new, hEvents'.trans hEvents, hFills⟩
  | ok es s' =>
    rw [after_of_ok hRun]
    rcases advanceOrder_ok hRun with
      ⟨-, rfl, -⟩ | ⟨e, -, order, filled, intended, price, hContract, hIntended, hSlipped, hStep⟩
    · exact ⟨hOrders, new, hEvents, hFills⟩
    · refine ⟨hStep.orders.trans hOrders, new ++ [e], ?_, ?_⟩
      · rw [hStep.events, hEvents, List.append_assoc]
      · intro e' he'
        rcases List.mem_append.mp he' with he' | he'
        · exact hFills e' he'
        · obtain rfl := List.mem_singleton.mp he'
          rw [slipped, except_pure_ok_iff] at hSlipped
          obtain ⟨hNamed, hRange⟩ := backtestFillPrice_named hOpen hIntended
          refine ⟨order, price, ?_, hContract, hStep.event_price, hSlipped ▸ hNamed,
            hSlipped ▸ hRange⟩
          rw [← hOrders, hStep.event_id]
          exact hStep.order_found

/-- The fills of a bar, without slippage: those it returns and all that it reports. -/
theorem advance_autoFills (b : MockBroker) {bar : VerifiedBar} (hOpen : InRange bar bar.openPrice) :
    (∀ events b', advance bar none b = .ok events b' → ∀ e ∈ events, AutoFill b bar e) ∧
      ∃ new, ((advance bar none).after b).events = b.events ++ new ∧ ∀ e ∈ new, AutoFill b bar e := by
  constructor
  · intro events b' hRun e he
    have hAdvanced := advance_ok hRun
    have hOwn : e ∈ eventsOf e.brokerOrderId events := List.mem_filter.mpr ⟨he, by simp⟩
    by_cases hKnown : e.brokerOrderId ∈ b.orders.keys
    · rcases hAdvanced.fills _ hKnown with ⟨hNone, -⟩ | ⟨order, filled, intended, price, event, hOne, -,
        hWas, hContract, hIntended, hSlipped, -, -, hPrice, -⟩
      · rw [hNone] at hOwn
        cases hOwn
      · rw [hOne] at hOwn
        obtain rfl := List.mem_singleton.mp hOwn
        rw [slipped, except_pure_ok_iff] at hSlipped
        obtain ⟨hNamed, hRange⟩ := backtestFillPrice_named hOpen hIntended
        exact ⟨order, price, hWas.order_found, hContract, hPrice, hSlipped ▸ hNamed, hSlipped ▸ hRange⟩
    · rw [hAdvanced.unknown _ hKnown] at hOwn
      cases hOwn
  · rw [advance_after]
    exact (after_each_invariant (fun s => AddedFills b s bar) (fun id _ s hs => hs.turn hOpen id)
      ⟨rfl, [], by simp, by simp⟩).events

end Events

end MockBroker

/-! ### A stop the bar opens beyond -/

theorem no_prev_hash : ∀ h ∈ (none : Option String), h.length = sha256HexLength := by simp

/-- A bar of ES that opens at 105 and trades between 104 and 106. -/
def barAbove : VerifiedBar where
  contract := "ESM26"
  ts := .utcMidnight .dec10
  resolution := .day1
  openPrice := 105
  high := 106
  low := 104
  close := 105
  volume := 100
  nSourcesAgreed := 2
  sourceProvenanceHashes := []
  verifierRunHash := String.ofList (List.replicate sha256HexLength '0')
  prevBarHash := none
  tierUsed := .t2Exchange
  policyId := "phase_a1_default_v1"
  ts_aware := DateTime.utcMidnight_aware .dec10
  run_hash_length := length_zeros
  prev_hash_length := no_prev_hash

theorem stop_needs_no_limit {price : Option ℚ} : requiresLimit .stp → price.isSome := by
  simp [requiresLimit]

theorem isSome_of_stop {price : ℚ} : requiresStop .stp → (some price).isSome := fun _ => rfl

def stopAtHundred : Order where
  contract := "ESM26"
  side := .buy
  quantity := 1
  orderType := .stp
  limitPrice := none
  stopPrice := some 100
  duration := .day
  parentOrderId := none
  ocoGroupId := none
  clientOrderId := none
  quantity_pos := Int.one_pos
  limit_present := stop_needs_no_limit
  stop_present := isSome_of_stop

def brokerWithStop : MockBroker := (MockBroker.placeOrder stopAtHundred).after (.fresh .steady)

theorem advance_autoFills_barAbove :
    (∀ events b', MockBroker.advance barAbove none brokerWithStop = .ok events b' →
      ∀ e ∈ events, MockBroker.AutoFill brokerWithStop barAbove e) ∧
    ∃ new, ((MockBroker.advance barAbove none).after brokerWithStop).events =
      brokerWithStop.events ++ new ∧ ∀ e ∈ new, MockBroker.AutoFill brokerWithStop barAbove e :=
  MockBroker.advance_autoFills brokerWithStop
    (show barAbove.low ≤ barAbove.openPrice ∧ barAbove.openPrice ≤ barAbove.high by decide +kernel)

/-- The stop is filled at its own price, below everything the bar traded at. -/
theorem stop_filled_below_bar : ∃ events b',
    MockBroker.advance barAbove none brokerWithStop = .ok events b' ∧
      (∃ e ∈ events, e.fillPrice = some 100) ∧
      MockBroker.InRange barAbove barAbove.openPrice ∧ MockBroker.InRange barAbove barAbove.close ∧
      100 < barAbove.low ∧ 100 < barAbove.openPrice := by
  obtain ⟨events, b', hRun, hFill⟩ := exists_ok_of_returns
    (show Method.returns (MockBroker.advance barAbove none) brokerWithStop
      (fun events _ => events.any fun e => e.fillPrice = some 100) = true by decide +kernel)
  obtain ⟨e, he, hPrice⟩ := List.any_eq_true.mp hFill
  refine ⟨events, b', hRun, ⟨e, he, of_decide_eq_true hPrice⟩, ?_, ?_, ?_, ?_⟩
  · exact show barAbove.low ≤ barAbove.openPrice ∧ barAbove.openPrice ≤ barAbove.high by decide +kernel
  · exact show barAbove.low ≤ barAbove.close ∧ barAbove.close ≤ barAbove.high by decide +kernel
  · decide +kernel
  · decide +kernel

end Futur3.Execution
