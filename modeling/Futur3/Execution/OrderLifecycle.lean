import Futur3.Execution.BrokerReach

/-! # The life of an order

An order is filled within its quantity, and once it is fully filled or cancelled
every call on it is refused. The calls that break this are a cancellation or a
modification of a fully filled order, and a modification below what was filled.
-/

namespace Futur3.Execution

open Data Prelude Method

namespace MockBroker

def FullyFilled (b : MockBroker) (id : BrokerOrderId) : Prop :=
  ∃ order filled, b.orders.get? id = some order ∧ b.filledQty.get? id = some filled ∧
    order.quantity ≤ filled

instance (b : MockBroker) (id : BrokerOrderId) : Decidable (b.FullyFilled id) :=
  match hOrder : b.orders.get? id, hFilled : b.filledQty.get? id with
  | some order, some filled =>
    decidable_of_iff (order.quantity ≤ filled)
      ⟨fun h => ⟨order, filled, hOrder, hFilled, h⟩, by
        rintro ⟨order', filled', hOrder', hFilled', h⟩
        cases hOrder.symm.trans hOrder'
        cases hFilled.symm.trans hFilled'
        exact h⟩
  | none, _ => .isFalse fun ⟨_, _, h, _⟩ => by cases hOrder.symm.trans h
  | some _, none => .isFalse fun ⟨_, _, _, h, _⟩ => by cases hFilled.symm.trans h

def Terminal (b : MockBroker) (id : BrokerOrderId) : Prop :=
  (∃ order, b.orders.get? id = some order) ∧ (b.FullyFilled id ∨ id ∈ b.cancelled)

def WithinQuantity (b : MockBroker) : Prop :=
  ∀ id order filled, b.orders.get? id = some order → b.filledQty.get? id = some filled →
    0 ≤ filled ∧ filled ≤ order.quantity

def Proper (b : MockBroker) : BrokerOp → Prop
  | .cancel id => id ∈ b.cancelled ∨ ¬b.FullyFilled id
  | .modify id limitPrice stopPrice quantity =>
    (limitPrice = none ∧ stopPrice = none ∧ quantity = none) ∨ id ∈ b.cancelled ∨
      ¬b.FullyFilled id ∧ ∀ q ∈ quantity, 0 < q → (b.filledQty.get? id).getD 0 ≤ q
  | _ => True

instance (b : MockBroker) : DecidablePred b.Proper
  | .place _ => inferInstanceAs (Decidable True)
  | .cancel _ => inferInstanceAs (Decidable (_ ∨ _))
  | .modify .. => inferInstanceAs (Decidable (_ ∨ _ ∨ _))
  | .fill .. => inferInstanceAs (Decidable True)
  | .advance .. => inferInstanceAs (Decidable True)
  | .roll .. => inferInstanceAs (Decidable True)

def CallOn (id : BrokerOrderId) : BrokerOp → Prop
  | .cancel id' => id' = id
  | .modify id' limitPrice stopPrice quantity =>
    id' = id ∧ ¬(limitPrice = none ∧ stopPrice = none ∧ quantity = none)
  | .fill id' price _ => id' = id ∧ 0 < price
  | _ => False

def RaisesBrokerError (b : MockBroker) (op : BrokerOp) : Prop :=
  ∃ e, op.perform.raised b = some (.broker e) ∧ e.isBrokerError = true

section Calls

variable {b : MockBroker} {id : BrokerOrderId}

/-! ## Calls on a terminal order -/

theorem emitEvent_raises {id' : BrokerOrderId} {client : String} {c : ContractSymbol}
    {eventType : OrderEventType} {fillPrice : Option ℚ} {fillQuantity : Option ℤ} {cum rem : ℤ}
    {e : BrokerFailure}
    (h : (emitEvent id' client c eventType fillPrice fillQuantity cum rem).raised b = some (.broker e)) :
    e.isBrokerError = false := by
  change ((orRaise _ >>= _ : BrokerM OrderEvent)).raised _ = _ at h
  cases hCreate : OrderEvent.create id' client c eventType fillPrice fillQuantity cum rem
      (b.config.clockNow b.clockReads) with
  | ok event =>
    rw [hCreate] at h
    cases h
  | error err =>
    rw [hCreate] at h
    cases h
    unfold OrderEvent.create at hCreate
    split_ifs at hCreate <;> cases hCreate <;> rfl

theorem orderCreate_raises {contract : ContractSymbol} {side : Side} {quantity : ℤ}
    {orderType : OrderType} {limitPrice stopPrice : Option ℚ} {duration : Duration}
    {parentOrderId ocoGroupId clientOrderId : Option String} {e : BrokerFailure}
    (h : Order.create contract side quantity orderType limitPrice stopPrice duration
      parentOrderId ocoGroupId clientOrderId = .error e) : e.isBrokerError = false := by
  unfold Order.create at h
  split_ifs at h <;> cases h <;> rfl

theorem cancelOrder_raises_iff (hConsistent : Consistent b) (hTerminal : b.Terminal id) :
    RaisesBrokerError b (.cancel id) ↔ id ∈ b.cancelled := by
  obtain ⟨order, hOrder⟩ := hTerminal.1
  by_cases hCancelled : id ∈ b.cancelled
  · obtain ⟨e, hError, hBroker⟩ := cancelOrder_refused (.inr hCancelled)
    exact iff_of_true ⟨e, raised_of_error hError, hBroker⟩ hCancelled
  · obtain ⟨filled, hFilled⟩ := hConsistent.tracked id order hOrder
    refine iff_of_false ?_ hCancelled
    rintro ⟨e, hRaised, hBroker⟩
    rw [BrokerOp.perform, Method.raised, cancelOrder_accepted hOrder hCancelled hFilled] at hRaised
    have hEmit := (raised_forget _ _).symm.trans hRaised
    rw [emitEvent_raises hEmit] at hBroker
    cases hBroker

theorem modifyOrder_cancelled {order : Order} {limitPrice stopPrice : Option ℚ}
    {quantity : Option ℤ} (hSome : ¬(limitPrice = none ∧ stopPrice = none ∧ quantity = none))
    (hOrder : b.orders.get? id = some order) (hCancelled : id ∈ b.cancelled) :
    modifyOrder id limitPrice stopPrice quantity b = .error (.broker (.modifyCancelled id)) b := by
  rw [modifyOrder, if_neg hSome]
  dsimp only
  rw [bind_of_ok (lookupOrder_ok_iff.mpr ⟨hOrder, rfl⟩), get_bind, guard_raises hCancelled]

theorem modifyOrder_invalid {order : Order} {limitPrice stopPrice : Option ℚ} {quantity : Option ℤ}
    {e : BrokerFailure} (hSome : ¬(limitPrice = none ∧ stopPrice = none ∧ quantity = none))
    (hOrder : b.orders.get? id = some order) (hOpen : id ∉ b.cancelled)
    (hCreate : Order.create order.contract order.side (quantity.getD order.quantity)
      order.orderType (limitPrice.or order.limitPrice) (stopPrice.or order.stopPrice)
      order.duration order.parentOrderId order.ocoGroupId order.clientOrderId = .error e) :
    modifyOrder id limitPrice stopPrice quantity b = .error (.broker e) b := by
  rw [modifyOrder, if_neg hSome]
  dsimp only
  rw [bind_of_ok (lookupOrder_ok_iff.mpr ⟨hOrder, rfl⟩), get_bind, if_neg hOpen, hCreate]
  rfl

theorem modifyOrder_raises_iff (hConsistent : Consistent b) (hTerminal : b.Terminal id)
    {limitPrice stopPrice : Option ℚ} {quantity : Option ℤ}
    (hSome : ¬(limitPrice = none ∧ stopPrice = none ∧ quantity = none)) :
    RaisesBrokerError b (.modify id limitPrice stopPrice quantity) ↔ id ∈ b.cancelled := by
  obtain ⟨order, hOrder⟩ := hTerminal.1
  by_cases hCancelled : id ∈ b.cancelled
  · exact iff_of_true ⟨_, raised_of_error (modifyOrder_cancelled hSome hOrder hCancelled), rfl⟩
      hCancelled
  · obtain ⟨filled, hFilled⟩ := hConsistent.tracked id order hOrder
    refine iff_of_false ?_ hCancelled
    rintro ⟨e, hRaised, hBroker⟩
    cases hCreate : Order.create order.contract order.side (quantity.getD order.quantity)
        order.orderType (limitPrice.or order.limitPrice) (stopPrice.or order.stopPrice)
        order.duration order.parentOrderId order.ocoGroupId order.clientOrderId with
    | ok newOrder =>
      have hAccepted := acceptedModify_eq_some.mpr ⟨hOrder, hCancelled, hSome, hCreate⟩
      rw [BrokerOp.perform, Method.raised, modifyOrder_accepted hAccepted hFilled] at hRaised
      have hEmit := (raised_forget _ _).symm.trans hRaised
      rw [emitEvent_raises hEmit] at hBroker
      cases hBroker
    | error err =>
      rw [BrokerOp.perform, raised_of_error (modifyOrder_invalid hSome hOrder hCancelled hCreate)]
        at hRaised
      cases hRaised
      rw [orderCreate_raises hCreate] at hBroker
      cases hBroker

theorem fillOrder_raises (hConsistent : Consistent b) (hTerminal : b.Terminal id) {price : ℚ}
    {quantity : Option ℤ} (hPrice : 0 < price) :
    RaisesBrokerError b (.fill id price quantity) := by
  obtain ⟨order, hOrder⟩ := hTerminal.1
  obtain ⟨filled, hFilled⟩ := hConsistent.tracked id order hOrder
  unfold RaisesBrokerError
  rw [BrokerOp.perform, raised_forget, Method.raised, fillOrder,
    bind_of_ok (lookupOrder_ok_iff.mpr ⟨hOrder, rfl⟩), get_bind]
  by_cases hCancelled : id ∈ b.cancelled
  · rw [guard_raises hCancelled]
    exact ⟨_, rfl, rfl⟩
  · have hFull : order.quantity - filled ≤ 0 := by
      obtain ⟨order', filled', hOrder', hFilled', hLe⟩ := hTerminal.2.resolve_right hCancelled
      rw [hOrder] at hOrder'
      rw [hFilled] at hFilled'
      cases hOrder'
      cases hFilled'
      omega
    rw [if_neg hCancelled]
    dsimp only
    rw [if_neg (not_le.mpr hPrice), bind_of_ok (lookupFilled_ok_iff.mpr ⟨hFilled, rfl⟩),
      guard_raises hFull]
    exact ⟨_, rfl, rfl⟩

/-- On a terminal order the proper calls are exactly those that raise `BrokerError`. -/
theorem terminal_call_raises_iff (hConsistent : Consistent b) (hTerminal : b.Terminal id)
    {op : BrokerOp} (hCall : CallOn id op) : RaisesBrokerError b op ↔ b.Proper op := by
  have hFull : id ∉ b.cancelled → b.FullyFilled id := hTerminal.2.resolve_right
  cases op with
  | cancel id' =>
    obtain rfl : id' = id := hCall
    rw [cancelOrder_raises_iff hConsistent hTerminal, Proper]
    tauto
  | modify id' limitPrice stopPrice quantity =>
    obtain ⟨rfl, hSome⟩ := hCall
    rw [modifyOrder_raises_iff hConsistent hTerminal hSome, Proper]
    tauto
  | fill id' price quantity =>
    obtain ⟨rfl, hPrice⟩ := hCall
    exact iff_of_true (fillOrder_raises hConsistent hTerminal hPrice) trivial
  | place => exact hCall.elim
  | advance => exact hCall.elim
  | roll => exact hCall.elim

end Calls

/-! ## Runs -/

section Runs

variable {b b' : MockBroker} {id : BrokerOrderId}

/-- The record and the fill count of an order are the same, and it stays cancelled. -/
structure Kept (b b' : MockBroker) (id : BrokerOrderId) : Prop where
  order : b'.orders.get? id = b.orders.get? id
  filled : b'.filledQty.get? id = b.filledQty.get? id
  cancelled : id ∈ b.cancelled → id ∈ b'.cancelled

theorem Kept.refl (b : MockBroker) (id : BrokerOrderId) : Kept b b id := ⟨rfl, rfl, fun h => h⟩

theorem Kept.trans {b'' : MockBroker} (h : Kept b b' id) (h' : Kept b' b'' id) : Kept b b'' id :=
  ⟨h'.order.trans h.order, h'.filled.trans h.filled, fun hMem => h'.cancelled (h.cancelled hMem)⟩

theorem Kept.terminal (h : Kept b b' id) (hTerminal : b.Terminal id) : b'.Terminal id := by
  obtain ⟨⟨order, hOrder⟩, hEnd⟩ := hTerminal
  refine ⟨⟨order, h.order.trans hOrder⟩, ?_⟩
  rcases hEnd with ⟨order', filled, hOrder', hFilled, hLe⟩ | hCancelled
  · exact .inl ⟨order', filled, h.order.trans hOrder', h.filled.trans hFilled, hLe⟩
  · exact .inr (h.cancelled hCancelled)

theorem fillOrder_kept (hTerminal : b.Terminal id) (id' : BrokerOrderId) (price : ℚ)
    (quantity : Option ℤ) : Kept b ((fillOrder id' price quantity).after b) id := by
  cases hAccepted : b.acceptedFill id' price quantity with
  | none =>
    obtain ⟨e, hError⟩ := fillOrder_refused hAccepted
    rw [after_of_error hError]
    exact Kept.refl b id
  | some accepted =>
    obtain ⟨order, filled, actual⟩ := accepted
    obtain ⟨hOrder, hFilled, hOpen, -, -, hPos, hLe⟩ := acceptedFill_eq_some.mp hAccepted
    obtain ⟨hOrders, hCancelled, hFilledQty⟩ := fillOrder_after_book hAccepted
    have hOther : id ≠ id' := by
      rintro rfl
      obtain ⟨order', filled', hOrder', hFilled', hFull⟩ := hTerminal.2.resolve_right hOpen
      rw [hOrder] at hOrder'
      rw [hFilled] at hFilled'
      cases hOrder'
      cases hFilled'
      omega
    refine ⟨by rw [hOrders], ?_, fun hMem => by rwa [hCancelled]⟩
    rw [hFilledQty, Dict.get?_set_of_ne _ _ hOther]

theorem fillOrder_within (hWithin : b.WithinQuantity) (id' : BrokerOrderId) (price : ℚ)
    (quantity : Option ℤ) : ((fillOrder id' price quantity).after b).WithinQuantity := by
  cases hAccepted : b.acceptedFill id' price quantity with
  | none =>
    obtain ⟨e, hError⟩ := fillOrder_refused hAccepted
    rwa [after_of_error hError]
  | some accepted =>
    obtain ⟨order, filled, actual⟩ := accepted
    obtain ⟨hOrder, hFilled, -, -, -, hPos, hLe⟩ := acceptedFill_eq_some.mp hAccepted
    obtain ⟨hOrders, -, hFilledQty⟩ := fillOrder_after_book hAccepted
    intro id order' filled' hOrder' hFilled'
    rw [hOrders] at hOrder'
    rw [hFilledQty, Dict.get?_set] at hFilled'
    split at hFilled'
    · rename_i hId
      subst hId
      rw [hOrder] at hOrder'
      cases hOrder'
      cases hFilled'
      have := (hWithin id order filled hOrder hFilled).1
      constructor <;> omega
    · exact hWithin id order' filled' hOrder' hFilled'

theorem WithinQuantity.congr (h : b.WithinQuantity) (hOrders : b'.orders = b.orders)
    (hFilledQty : b'.filledQty = b.filledQty) : b'.WithinQuantity := by
  intro id order filled hOrder hFilled
  rw [hOrders] at hOrder
  rw [hFilledQty] at hFilled
  exact h id order filled hOrder hFilled

theorem WithinQuantity.withOrder (h : b.WithinQuantity) (order : Order) :
    (b.withOrder order).WithinQuantity := by
  intro id order' filled' hOrder' hFilled'
  rw [MockBroker.withOrder, Dict.get?_set] at hOrder' hFilled'
  split at hOrder'
  · rename_i hId
    rw [if_pos hId] at hFilled'
    cases hOrder'
    cases hFilled'
    exact ⟨le_rfl, order.quantity_pos.le⟩
  · rename_i hId
    rw [if_neg hId] at hFilled'
    exact h id order' filled' hOrder' hFilled'

theorem placeOrder_within (h : b.WithinQuantity) (order : Order) :
    ((placeOrder order).after b).WithinQuantity := by
  have hSame := sameCore (placeOrder_after (b := b) order)
  refine WithinQuantity.congr ?_ hSame.orders hSame.filledQty
  split
  · exact h.withOrder order
  · exact h

theorem modifyOrder_within (hConsistent : Consistent b) (hWithin : b.WithinQuantity)
    {limitPrice stopPrice : Option ℚ} {quantity : Option ℤ}
    (hProper : b.Proper (.modify id limitPrice stopPrice quantity)) :
    ((modifyOrder id limitPrice stopPrice quantity).after b).WithinQuantity := by
  rcases modifyOrder_cases hConsistent id limitPrice stopPrice quantity with
    hSame | ⟨order, newOrder, hAccepted, hCore⟩
  · rwa [hSame]
  · obtain ⟨hOrder, hOpen, hSome, hCreate⟩ := acceptedModify_eq_some.mp hAccepted
    have hSame := sameCore hCore
    have hQuantity : newOrder.quantity = quantity.getD order.quantity :=
      (Order.create_ok hCreate).2.2.1
    intro id' order' filled' hOrder' hFilled'
    rw [hSame.orders, Dict.get?_set] at hOrder'
    rw [hSame.filledQty] at hFilled'
    split at hOrder'
    · rename_i hId
      subst hId
      cases hOrder'
      obtain ⟨hNonneg, hLe⟩ := hWithin id' order filled' hOrder hFilled'
      refine ⟨hNonneg, ?_⟩
      rcases hProper with hEmpty | hCancelled | ⟨-, hAbove⟩
      · exact absurd hEmpty hSome
      · exact absurd hCancelled hOpen
      · cases quantity with
        | none => rwa [hQuantity]
        | some q =>
          have hPos := newOrder.quantity_pos
          rw [hQuantity] at hPos ⊢
          have hFill := hAbove q rfl hPos
          rwa [show b.filledQty.get? id' = some filled' from hFilled'] at hFill
    · exact hWithin id' order' filled' hOrder' hFilled'

theorem proper_within (hConsistent : Consistent b) (hWithin : b.WithinQuantity) {op : BrokerOp}
    (hProper : b.Proper op) : (op.perform.after b).WithinQuantity := by
  cases op with
  | place order =>
    rw [BrokerOp.perform, after_forget]
    exact placeOrder_within hWithin order
  | cancel id =>
    rw [BrokerOp.perform]
    rcases cancelOrder_cases hConsistent id with hSame | ⟨-, -, -, hCore⟩
    · rwa [hSame]
    · exact hWithin.congr (sameCore hCore).orders (sameCore hCore).filledQty
  | modify id limitPrice stopPrice quantity => exact modifyOrder_within hConsistent hWithin hProper
  | fill id price quantity =>
    rw [BrokerOp.perform, after_forget]
    exact fillOrder_within hWithin id price quantity
  | advance bar slippage =>
    rw [BrokerOp.perform, after_forget]
    exact advance_invariant WithinQuantity
      (fun id price s hs => fillOrder_within hs id price none) hWithin
  | roll front back frontFill backFill =>
    rw [BrokerOp.perform, after_forget]
    exact hWithin.congr rollPosition_sameBook.orders rollPosition_sameBook.filledQty

theorem Kept.of_sameBook (h : SameBook b b') : Kept b b' id :=
  ⟨by rw [h.orders], by rw [h.filledQty], fun hMem => by rwa [h.cancelled]⟩

theorem placeOrder_kept (hConsistent : Consistent b) (hKnown : ∃ order, b.orders.get? id = some order)
    (order : Order) : Kept b ((placeOrder order).after b) id := by
  have hSame := sameCore (placeOrder_after (b := b) order)
  obtain ⟨old, hOld⟩ := hKnown
  have hNew : id ≠ ⟨b.nextOrderIdSeq + 1⟩ := by
    rintro rfl
    rw [hConsistent.next_fresh.1] at hOld
    cases hOld
  by_cases hSupported : order.orderType ∈ b.supportedOrderTypes
  · rw [if_pos hSupported] at hSame
    refine ⟨?_, ?_, fun hMem => by rwa [hSame.cancelled]⟩
    · rw [hSame.orders, withOrder, Dict.get?_set_of_ne _ _ hNew]
    · rw [hSame.filledQty, withOrder, Dict.get?_set_of_ne _ _ hNew]
  · rw [if_neg hSupported] at hSame
    exact ⟨by rw [hSame.orders], by rw [hSame.filledQty], fun hMem => by rwa [hSame.cancelled]⟩

theorem proper_kept (hConsistent : Consistent b) (hTerminal : b.Terminal id) {op : BrokerOp}
    (hProper : b.Proper op) : Kept b (op.perform.after b) id := by
  cases op with
  | place order =>
    rw [BrokerOp.perform, after_forget]
    exact placeOrder_kept hConsistent hTerminal.1 order
  | cancel id' =>
    rw [BrokerOp.perform]
    rcases cancelOrder_cases hConsistent id' with hSame | ⟨-, -, -, hCore⟩
    · rw [hSame]
      exact Kept.refl b id
    · have hSame := sameCore hCore
      refine ⟨by rw [hSame.orders], by rw [hSame.filledQty], fun hMem => ?_⟩
      rw [hSame.cancelled]
      exact Finset.mem_insert_of_mem hMem
  | modify id' limitPrice stopPrice quantity =>
    rw [BrokerOp.perform]
    rcases modifyOrder_cases hConsistent id' limitPrice stopPrice quantity with
      hSame | ⟨order, newOrder, hAccepted, hCore⟩
    · rw [hSame]
      exact Kept.refl b id
    · obtain ⟨-, hOpen, hSome, -⟩ := acceptedModify_eq_some.mp hAccepted
      have hSame := sameCore hCore
      have hOther : id ≠ id' := by
        rintro rfl
        rcases hProper with hEmpty | hCancelled | ⟨hNotFull, -⟩
        · exact hSome hEmpty
        · exact hOpen hCancelled
        · exact hNotFull (hTerminal.2.resolve_right hOpen)
      refine ⟨?_, by rw [hSame.filledQty], fun hMem => by rwa [hSame.cancelled]⟩
      rw [hSame.orders, Dict.get?_set_of_ne _ _ hOther]
  | fill id' price quantity =>
    rw [BrokerOp.perform, after_forget]
    exact fillOrder_kept hTerminal id' price quantity
  | advance bar slippage =>
    rw [BrokerOp.perform, after_forget]
    exact advance_invariant (fun s => Kept b s id)
      (fun id' price s hs => hs.trans (fillOrder_kept (hs.terminal hTerminal) id' price none))
      (Kept.refl b id)
  | roll front back frontFill backFill =>
    rw [BrokerOp.perform, after_forget]
    exact Kept.of_sameBook rollPosition_sameBook

structure Orderly (b : MockBroker) : Prop where
  consistent : Consistent b
  within : b.WithinQuantity

theorem Orderly.perform (h : Orderly b) {op : BrokerOp} (hProper : b.Proper op) :
    Orderly (op.perform.after b) :=
  ⟨perform_consistent h.consistent op, proper_within h.consistent h.within hProper⟩

theorem fresh_orderly (config : BrokerConfig) : Orderly (fresh config) where
  consistent := (fresh_idle config).toConsistent
  within id order filled hOrder := by simp [fresh] at hOrder

end Runs

/-- In every run of proper calls, raising calls included, every order is filled within its
quantity, a well-formed call on a terminal order raises `BrokerError` exactly when it is proper,
and proper calls keep the order terminal and its fill count. -/
theorem order_lifecycle {config : BrokerConfig} {ops : List BrokerOp}
    (h : Follows BrokerOp.perform Proper (fresh config) ops) :
    let b := runAll BrokerOp.perform (fresh config) ops
    b.WithinQuantity ∧ ∀ id, b.Terminal id →
      (∀ op, CallOn id op → (RaisesBrokerError b op ↔ b.Proper op)) ∧
      ∀ later, Follows BrokerOp.perform Proper b later →
        (runAll BrokerOp.perform b later).Terminal id ∧
          (runAll BrokerOp.perform b later).filledQty.get? id = b.filledQty.get? id := by
  intro b
  have hOrderly : Orderly b :=
    follows_rule Orderly (fun s op hs hProper => hs.perform hProper) (fresh_orderly config) h
  refine ⟨hOrderly.within, fun id hTerminal => ⟨fun op hCall => ?_, fun later hLater => ?_⟩⟩
  · exact terminal_call_raises_iff hOrderly.consistent hTerminal hCall
  · have hKept : Orderly (runAll BrokerOp.perform b later) ∧
        Kept b (runAll BrokerOp.perform b later) id :=
      follows_rule (fun s => Orderly s ∧ Kept b s id) (fun s op hs hProper =>
        ⟨hs.1.perform hProper, hs.2.trans
          (proper_kept hs.1.consistent (hs.2.terminal hTerminal) hProper)⟩)
        ⟨hOrderly, Kept.refl b id⟩ hLater
    exact ⟨hKept.2.terminal hTerminal, hKept.2.filled⟩

def partialThenCancelled : List BrokerOp :=
  [.place (.atMarket "ESM26" .buy 2 two_contracts (some "entry")), .fill ⟨1⟩ 5000 (some 1), .cancel ⟨1⟩]

theorem order_lifecycle_partial :
    let b := runAll BrokerOp.perform (fresh .steady) partialThenCancelled
    b.WithinQuantity ∧ RaisesBrokerError b (.cancel ⟨1⟩) := by
  have hProper : Follows BrokerOp.perform Proper (fresh .steady) partialThenCancelled := by
    decide +kernel
  obtain ⟨hWithin, hTerminal⟩ := order_lifecycle hProper
  have hKnown : ((runAll BrokerOp.perform (fresh .steady) partialThenCancelled).orders.get?
      ⟨1⟩).isSome = true := by decide +kernel
  have hCancelled : ⟨1⟩ ∈ (runAll BrokerOp.perform (fresh .steady) partialThenCancelled).cancelled := by
    decide +kernel
  refine ⟨hWithin, ((hTerminal ⟨1⟩ ⟨Option.isSome_iff_exists.mp hKnown, .inr hCancelled⟩).1
    (.cancel ⟨1⟩) rfl).mpr (.inl hCancelled)⟩

def boughtTwo : List BrokerOp :=
  [.place (.atMarket "ESM26" .buy 2 two_contracts (some "entry")), .fill ⟨1⟩ 5000 none]

/-- A filled order can be cancelled: the call returns. -/
theorem filled_order_cancels :
    ¬∀ (config : BrokerConfig) (ops : List BrokerOp),
      let b := runAll BrokerOp.perform (fresh config) ops
      b.WithinQuantity ∧ ∀ id, b.Terminal id →
        (∀ op, CallOn id op → RaisesBrokerError b op) ∧
        ∀ later, (runAll BrokerOp.perform b later).filledQty.get? id = b.filledQty.get? id := by
  intro hClaim
  obtain ⟨-, hTerminal⟩ := hClaim .steady boughtTwo
  have hFull : (runAll BrokerOp.perform (fresh .steady) boughtTwo).FullyFilled ⟨1⟩ := by
    decide +kernel
  obtain ⟨order, filled, hOrder, hFilled, hLe⟩ := hFull
  obtain ⟨e, hRaised, -⟩ :=
    (hTerminal ⟨1⟩ ⟨⟨order, hOrder⟩, .inl ⟨order, filled, hOrder, hFilled, hLe⟩⟩).1
    (.cancel ⟨1⟩) rfl
  have hReturns : (BrokerOp.cancel ⟨1⟩).perform.raised
      (runAll BrokerOp.perform (fresh .steady) boughtTwo) = none := by decide +kernel
  rw [hReturns] at hRaised
  cases hRaised

end MockBroker

end Futur3.Execution
