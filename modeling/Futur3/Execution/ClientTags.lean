import Futur3.Execution.TradeGuard
import Futur3.Prelude.TwoRuns

/-! # Client ids

A client id is a label. The broker copies it from an order to the events of that
order and decides nothing by it: two brokers that differ in the client ids of their
orders and in their event buffers fill, place and roll alike.
-/

namespace Futur3.Execution

open Data Prelude Method

def SameTerms (order order' : Order) : Prop := ∃ id, order' = { order with clientOrderId := id }

structure SameOrders (orders orders' : Dict BrokerOrderId Order) : Prop where
  keys : orders.keys = orders'.keys
  terms : ∀ id, Option.Rel SameTerms (orders.get? id) (orders'.get? id)

theorem SameOrders.set {orders orders' : Dict BrokerOrderId Order} (h : SameOrders orders orders')
    {order order' : Order} (hOrder : SameTerms order order') (id : BrokerOrderId) :
    SameOrders (orders.set id order) (orders'.set id order') := by
  constructor
  · have hKeys : orders.items.map Prod.fst = orders'.items.map Prod.fst := h.keys
    change (Dict.assign id order orders.items).map Prod.fst =
      (Dict.assign id order' orders'.items).map Prod.fst
    rw [Dict.map_fst_assign, Dict.map_fst_assign, hKeys]
  · intro id'
    rw [Dict.get?_set, Dict.get?_set]
    split
    · exact .some hOrder
    · exact h.terms id'

def SameLedger (b b' : MockBroker) : Prop :=
  ∃ orders events, SameOrders b.orders orders ∧ b' = { b with orders := orders, events := events }

theorem SameLedger.refl (b : MockBroker) : SameLedger b b := by
  refine ⟨b.orders, b.events, ⟨rfl, ?_⟩, rfl⟩
  intro id
  cases b.orders.get? id with
  | none => exact .none
  | some order => exact .some ⟨order.clientOrderId, rfl⟩

theorem SameLedger.metrics {b b' : MockBroker} (h : SameLedger b b') :
    b'.getAccountMetrics = b.getAccountMetrics := by
  obtain ⟨orders, events, -, rfl⟩ := h
  rfl

theorem SameLedger.getPositions {b b' : MockBroker} (h : SameLedger b b') :
    b'.getPositions = b.getPositions := by
  obtain ⟨orders, events, -, rfl⟩ := h
  rfl

namespace MockBroker

theorem same_emitEvent (id : BrokerOrderId) (client client' : String) (contract : ContractSymbol)
    (eventType : OrderEventType) (price : Option ℚ) (quantity : Option ℤ) (cum rem : ℤ) :
    Agree SameLedger (fun _ _ => True)
      (emitEvent id client contract eventType price quantity cum rem)
      (emitEvent id client' contract eventType price quantity cum rem) := by
  apply leads_get_bind
  rintro b _ ⟨orders, events, hOrders, rfl⟩
  refine leads_bind (agree_modify ?_) fun _ _ _ => ?_
  · rintro t _ ⟨orders', events', hOrders', rfl⟩
    exact ⟨orders', events', hOrders', rfl⟩
  have hCreate : BothExcept (fun _ _ => True)
      (OrderEvent.create id client contract eventType price quantity cum rem
        (b.config.clockNow b.clockReads))
      (OrderEvent.create id client' contract eventType price quantity cum rem
        (b.config.clockNow b.clockReads)) := by
    unfold OrderEvent.create
    split_ifs
    all_goals first
      | exact .ok trivial
      | exact .error
  apply leads_bind (leads_liftExcept (hCreate.mapError Raised.broker Raised.broker))
  intro event event' _
  refine leads_bind (agree_modify ?_) fun _ _ _ => leads_pure trivial
  rintro t _ ⟨orders', events', hOrders', rfl⟩
  exact ⟨orders', _, hOrders', rfl⟩

/-- A change of neither orders nor events. -/
theorem same_modify {f : MockBroker → MockBroker}
    (h : ∀ b orders events, f { b with orders := orders, events := events } =
      { f b with orders := orders, events := events }) (hOrders : ∀ b, (f b).orders = b.orders) :
    Agree SameLedger Eq (modify f : BrokerM PUnit) (modify f : BrokerM PUnit) := by
  apply agree_modify
  rintro b _ ⟨orders, events, hSame, rfl⟩
  rw [h b orders events]
  exact ⟨orders, events, hOrders b ▸ hSame, rfl⟩

theorem same_setPosition (contract : ContractSymbol) (position : Except BrokerFailure Position) :
    Agree SameLedger Eq (setPosition contract position) (setPosition contract position) := by
  apply leads_bind (leads_liftExcept ((BothExcept.refl position).mapError _ _))
  rintro p _ rfl
  exact same_modify (fun _ _ _ => rfl) fun _ => rfl

theorem same_closeAgainst (contract : ContractSymbol) (existing : Position) (delta : ℤ) (price : ℚ)
    (isRoll : Bool) :
    Agree SameLedger Eq (closeAgainst contract existing delta price isRoll)
      (closeAgainst contract existing delta price isRoll) := by
  have hBook : Agree SameLedger Eq (bookTrade contract) (bookTrade contract) :=
    same_modify (fun _ _ _ => rfl) fun _ => rfl
  unfold closeAgainst
  apply leads_bind (leads_liftExcept (.refl _))
  rintro mult _ rfl
  refine leads_bind (same_modify (fun _ _ _ => rfl) fun _ => rfl) fun _ _ _ => ?_
  apply leads_ite Iff.rfl
  · intro _
    apply leads_ite Iff.rfl
    · intro _
      exact same_setPosition contract _
    · intro _
      exact leads_bind hBook fun _ _ _ => same_setPosition contract _
  · intro _
    apply leads_ite Iff.rfl
    · intro _
      exact leads_bind hBook fun _ _ _ => same_setPosition contract _
    · intro _
      exact same_setPosition contract _

theorem same_applyFillToPosition (contract : ContractSymbol) (side : Side) (quantity : ℤ) (price : ℚ)
    (isRoll : Bool) :
    Agree SameLedger Eq (applyFillToPosition contract side quantity price isRoll)
      (applyFillToPosition contract side quantity price isRoll) := by
  apply leads_get_bind
  rintro b _ ⟨orders, events, hOrders, rfl⟩
  dsimp only
  cases b.positions.get? contract with
  | none => exact same_setPosition contract _
  | some existing =>
    apply leads_ite Iff.rfl
    · intro _
      exact same_setPosition contract _
    · intro _
      apply leads_ite Iff.rfl
      · intro _
        exact same_setPosition contract _
      · intro _
        exact same_closeAgainst contract existing _ price isRoll

theorem same_lookupOrder (id : BrokerOrderId) :
    Agree SameLedger SameTerms (lookupOrder id) (lookupOrder id) := by
  apply leads_get_bind
  rintro b _ ⟨orders, events, hOrders, rfl⟩
  have hGet := hOrders.terms id
  dsimp only
  generalize b.orders.get? id = found at hGet ⊢
  generalize orders.get? id = found' at hGet ⊢
  cases hGet with
  | none => exact leads_throw _ _
  | some hTerms => exact leads_pure hTerms

theorem same_lookupFilled (id : BrokerOrderId) :
    Agree SameLedger Eq (lookupFilled id) (lookupFilled id) := by
  apply leads_get_bind
  rintro b _ ⟨orders, events, hOrders, rfl⟩
  dsimp only
  cases b.filledQty.get? id with
  | none => exact leads_throw _ _
  | some filled => exact leads_pure rfl

/-- A guard that raises in both. -/
theorem same_guard {α : Type} {p : Prop} [Decidable p] {failure : BrokerFailure}
    {f g : PUnit → BrokerM α} {Q : α → α → Prop} {x y : BrokerM α}
    (h : ¬p → Agree SameLedger Q x y) :
    Agree SameLedger Q (if p then raise failure >>= f else x) (if p then raise failure >>= g else y) :=
  leads_ite Iff.rfl (fun _ => leads_throw_bind _ _ _ _) h

theorem same_fillOrder (id : BrokerOrderId) (price : ℚ) (quantity : Option ℤ) :
    Agree SameLedger (fun _ _ => True) (fillOrder id price quantity) (fillOrder id price quantity) := by
  apply leads_bind (same_lookupOrder id)
  rintro order _ ⟨client, rfl⟩
  apply leads_get_bind
  rintro b _ ⟨orders, events, hOrders, rfl⟩
  apply same_guard
  intro _
  apply same_guard
  intro _
  apply leads_bind (same_lookupFilled id)
  rintro filled _ rfl
  apply same_guard
  intro _
  apply same_guard
  intro _
  apply same_guard
  intro _
  refine leads_bind (same_modify (fun _ _ _ => rfl) fun _ => rfl) fun _ _ _ => ?_
  refine leads_bind (same_applyFillToPosition _ _ _ _ _) fun _ _ _ => ?_
  exact same_emitEvent _ _ _ _ _ _ _ _ _

theorem same_advanceOrder (bar : VerifiedBar) (slippage : Option SlippageModel) (id : BrokerOrderId) :
    Agree SameLedger (fun fills fills' => fills.length = fills'.length)
      (advanceOrder bar slippage id) (advanceOrder bar slippage id) := by
  apply leads_get_bind
  rintro b _ ⟨orders, events, hOrders, rfl⟩
  apply leads_ite Iff.rfl
  · intro _
    exact leads_pure rfl
  intro _
  apply leads_bind (same_lookupOrder id)
  rintro order _ ⟨client, rfl⟩
  apply leads_ite Iff.rfl
  · intro _
    exact leads_pure rfl
  intro _
  apply leads_bind (same_lookupFilled id)
  rintro filled _ rfl
  apply leads_ite Iff.rfl
  · intro _
    exact leads_pure rfl
  intro _
  apply leads_bind (leads_liftExcept (.refl _))
  rintro intended _ rfl
  cases intended with
  | none => exact leads_pure rfl
  | some price =>
    apply leads_bind (leads_liftExcept (.refl _))
    rintro fillPrice _ rfl
    exact leads_bind (same_fillOrder id fillPrice none) fun _ _ _ => leads_pure rfl

/-- A bar fills as many orders in both. -/
theorem same_advance (bar : VerifiedBar) (slippage : Option SlippageModel) :
    Agree SameLedger (fun fills fills' => fills.length = fills'.length)
      (advance bar slippage) (advance bar slippage) := by
  apply leads_get_bind
  rintro b _ ⟨orders, events, hOrders, rfl⟩
  rw [← hOrders.keys]
  apply leads_bind (agree_each fun id _ => same_advanceOrder bar slippage id)
  intro fills fills' hFills
  apply leads_pure
  induction hFills with
  | nil => rfl
  | cons hHead _ ih => rw [List.flatten_cons, List.flatten_cons, List.length_append,
      List.length_append, hHead, ih]

theorem same_placeOrder {order order' : Order} (h : SameTerms order order') :
    Agree SameLedger Eq (placeOrder order) (placeOrder order') := by
  obtain ⟨client, rfl⟩ := h
  apply leads_get_bind
  rintro b _ ⟨orders, events, hOrders, rfl⟩
  apply same_guard
  intro _
  refine leads_bind (agree_set ?_) fun _ _ _ => ?_
  · exact ⟨_, events, hOrders.set ⟨client, rfl⟩ _, rfl⟩
  refine leads_bind (same_emitEvent _ _ _ _ _ _ _ _ _) fun _ _ _ => ?_
  refine leads_bind (same_emitEvent _ _ _ _ _ _ _ _ _) fun _ _ _ => ?_
  exact leads_pure rfl

theorem same_rollPosition (front back : ContractSymbol) (frontFill backFill : ℚ) :
    Agree SameLedger Eq (rollPosition front back frontFill backFill)
      (rollPosition front back frontFill backFill) := by
  apply leads_get_bind
  rintro b _ ⟨orders, events, hOrders, rfl⟩
  apply leads_ite Iff.rfl
  · intro _
    exact leads_pure rfl
  · intro _
    refine leads_bind (same_applyFillToPosition _ _ _ _ _) fun _ _ _ => ?_
    refine leads_bind (same_applyFillToPosition _ _ _ _ _) fun _ _ _ => ?_
    refine leads_bind (same_modify (fun _ _ _ => rfl) fun _ => rfl) fun _ _ _ => ?_
    exact leads_pure rfl

end MockBroker

/-! ## Guards -/

/-- The guard answers alike on ledgers that differ in client ids. -/
def TradeGuard.IgnoresClientIds {ρ : Type} (guard : TradeGuard ρ) : Prop :=
  ∀ b b' contract side quantity r, SameLedger b b' →
    guard.isTradeAllowed b contract side quantity r = guard.isTradeAllowed b' contract side quantity r

theorem plain_ignoresClientIds : TradeGuard.plain.IgnoresClientIds := by
  rintro b _ contract side quantity r ⟨orders, events, hOrders, rfl⟩
  rfl

theorem prop_ignoresClientIds (limits : PropLimits) : (TradeGuard.prop limits).IgnoresClientIds := by
  rintro b _ contract side quantity r ⟨orders, events, hOrders, rfl⟩
  rfl

end Futur3.Execution
