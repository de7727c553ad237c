import Futur3.Execution.MockBrokerSpec

/-! # Open orders through a bar

What one call of `advance` does to every order of the book at once. The committed
position of a contract, its net quantity with what is still to be filled, is
untouched by fills.
-/

namespace Futur3.Execution

open Data Prelude Method

namespace MockBroker

/-- An order that can still be filled, with what was filled of it. -/
structure OpenOrder (b : MockBroker) (id : BrokerOrderId) (order : Order) (filled : ℤ) : Prop where
  order_found : b.orders.get? id = some order
  not_cancelled : id ∉ b.cancelled
  filled_found : b.filledQty.get? id = some filled
  unfilled : filled < order.quantity

/-- Positions are filed under their contract and every order id was given out. -/
structure Consistent (b : MockBroker) : Prop where
  keyed : ∀ c p, b.positions.get? c = some p → p.contract = c
  numbered : ∀ id order, b.orders.get? id = some order → id.seq ≤ b.nextOrderIdSeq
  tracked : ∀ id order, b.orders.get? id = some order → ∃ filled, b.filledQty.get? id = some filled
  cancelled_numbered : ∀ id ∈ b.cancelled, id.seq ≤ b.nextOrderIdSeq

structure Idle (b : MockBroker) : Prop extends Consistent b where
  none_open : ∀ id order filled, ¬OpenOrder b id order filled

theorem fresh_idle (config : BrokerConfig) : Idle (fresh config) where
  keyed c p h := by simp [fresh] at h
  numbered id order h := by simp [fresh] at h
  tracked id order h := by simp [fresh] at h
  cancelled_numbered id h := by simp [fresh] at h
  none_open id order filled h := by simpa [fresh] using h.order_found

/-- The id of the next order is new. -/
theorem Consistent.next_fresh {b : MockBroker} (h : Consistent b) :
    b.orders.get? ⟨b.nextOrderIdSeq + 1⟩ = none ∧ ⟨b.nextOrderIdSeq + 1⟩ ∉ b.cancelled := by
  constructor
  · cases hGet : b.orders.get? ⟨b.nextOrderIdSeq + 1⟩ with
    | none => rfl
    | some order =>
      have := h.numbered _ order hGet
      simp at this
  · intro hMem
    have := h.cancelled_numbered _ hMem
    simp at this

theorem Consistent.keyed_book {b b' : MockBroker} {c : ContractSymbol} {delta : ℤ} {price : ℚ}
    (h : ∀ c p, b.positions.get? c = some p → p.contract = c) (hBook : BookedFill b b' c delta price) :
    ∀ c p, b'.positions.get? c = some p → p.contract = c := by
  obtain ⟨p, gained, hSet, -, hp⟩ := hBook
  intro c' p' hGet
  rw [hSet, Dict.get?_set] at hGet
  split at hGet
  · rename_i hc
    cases hGet
    rw [hp.contract, hc]
  · exact h c' p' hGet

theorem Consistent.fill {b b' : MockBroker} {id : BrokerOrderId} {order : Order} {filled actual : ℤ}
    {price : ℚ} {e : OrderEvent} (h : Consistent b)
    (hFill : FillStep b b' id order filled actual price e) : Consistent b' where
  keyed := keyed_book h.keyed hFill.booked
  numbered id' order' hGet := by
    rw [hFill.orders] at hGet
    rw [hFill.nextOrderIdSeq]
    exact h.numbered id' order' hGet
  tracked id' order' hGet := by
    rw [hFill.orders] at hGet
    rw [hFill.filledQty, Dict.get?_set]
    split
    · exact ⟨_, rfl⟩
    · exact h.tracked id' order' hGet
  cancelled_numbered := by
    rw [hFill.cancelled, hFill.nextOrderIdSeq]
    exact h.cancelled_numbered

theorem Consistent.place {b b' : MockBroker} {order : Order} {id : BrokerOrderId} (h : Consistent b)
    (hPlaced : Placed b b' order id) : Consistent b' where
  keyed := hPlaced.positions ▸ h.keyed
  numbered id' order' hGet := by
    rw [hPlaced.orders, Dict.get?_set] at hGet
    rw [hPlaced.nextOrderIdSeq]
    split at hGet
    · rename_i hId
      rw [hId, hPlaced.id_eq]
    · exact (h.numbered id' order' hGet).trans (Nat.le_succ _)
  tracked id' order' hGet := by
    rw [hPlaced.orders, Dict.get?_set] at hGet
    rw [hPlaced.filledQty, Dict.get?_set]
    split
    · exact ⟨0, rfl⟩
    · rename_i hId
      rw [if_neg hId] at hGet
      exact h.tracked id' order' hGet
  cancelled_numbered id' hMem := by
    rw [hPlaced.cancelled] at hMem
    rw [hPlaced.nextOrderIdSeq]
    exact (h.cancelled_numbered id' hMem).trans (Nat.le_succ _)

theorem Consistent.roll {b b' : MockBroker} {front back : ContractSymbol} {frontFill backFill : ℚ}
    (h : Consistent b) (hRolled : Rolled b b' front back frontFill backFill) : Consistent b' where
  keyed := by
    obtain ⟨b₁, hFront, hBack⟩ := hRolled.legs
    exact keyed_book (keyed_book h.keyed hFront) hBack
  numbered := by
    rw [hRolled.orders, hRolled.nextOrderIdSeq]
    exact h.numbered
  tracked := by
    rw [hRolled.orders, hRolled.filledQty]
    exact h.tracked
  cancelled_numbered := by
    rw [hRolled.cancelled, hRolled.nextOrderIdSeq]
    exact h.cancelled_numbered

/-- Only the order, its cancellation and its fill count decide whether it is open. -/
theorem OpenOrder.congr {b b' : MockBroker} {id : BrokerOrderId} {order : Order} {filled : ℤ}
    (h : OpenOrder b id order filled) (hOrder : b'.orders.get? id = b.orders.get? id)
    (hCancelled : b'.cancelled = b.cancelled)
    (hFilled : b'.filledQty.get? id = b.filledQty.get? id) : OpenOrder b' id order filled :=
  ⟨hOrder.trans h.order_found, hCancelled ▸ h.not_cancelled, hFilled.trans h.filled_found, h.unfilled⟩

theorem OpenOrder.unique {b : MockBroker} {id : BrokerOrderId} {order order' : Order}
    {filled filled' : ℤ} (h : OpenOrder b id order filled) (h' : OpenOrder b id order' filled') :
    order' = order ∧ filled' = filled :=
  ⟨Option.some.inj (h'.order_found.symm.trans h.order_found),
    Option.some.inj (h'.filled_found.symm.trans h.filled_found)⟩

/-- A new order is open, and the open orders besides it are the old ones. -/
theorem Placed.open_iff {b b' : MockBroker} {order : Order} {id : BrokerOrderId}
    (hPlaced : Placed b b' order id) (hConsistent : Consistent b) (id' : BrokerOrderId)
    (order' : Order) (filled : ℤ) :
    OpenOrder b' id' order' filled ↔
      (id' = id ∧ order' = order ∧ filled = 0) ∨ (id' ≠ id ∧ OpenOrder b id' order' filled) := by
  have hNew : OpenOrder b' id order 0 :=
    ⟨by simp [hPlaced.orders], by simp [hPlaced.cancelled, hPlaced.id_eq, hConsistent.next_fresh.2],
      by simp [hPlaced.filledQty], order.quantity_pos⟩
  by_cases hId : id' = id
  · subst hId
    constructor
    · intro h
      exact .inl ⟨rfl, hNew.unique h⟩
    · rintro (⟨-, rfl, rfl⟩ | ⟨hNe, -⟩)
      · exact hNew
      · exact absurd rfl hNe
  · have hOrder : b'.orders.get? id' = b.orders.get? id' := by
      rw [hPlaced.orders, Dict.get?_set_of_ne _ _ hId]
    have hFilled : b'.filledQty.get? id' = b.filledQty.get? id' := by
      rw [hPlaced.filledQty, Dict.get?_set_of_ne _ _ hId]
    simp only [hId, false_and, ne_eq, not_false_eq_true, true_and, false_or]
    exact ⟨fun h => h.congr hOrder.symm hPlaced.cancelled.symm hFilled.symm,
      fun h => h.congr hOrder hPlaced.cancelled hFilled⟩

/-! ## The committed position -/

def remaining (b : MockBroker) (id : BrokerOrderId) (order : Order) : ℤ :=
  if id ∈ b.cancelled then 0 else max 0 (order.quantity - (b.filledQty.get? id).getD 0)

/-- The signed remainder of an order, when it is of this contract. -/
def pendingOf (b : MockBroker) (c : ContractSymbol) (id : BrokerOrderId) (order : Order) : ℤ :=
  if order.contract = c then order.side.signed (b.remaining id order) else 0

def committed (b : MockBroker) (c : ContractSymbol) : ℤ :=
  b.net c + b.orders.total (b.pendingOf c)

theorem committed_eq_net {b : MockBroker} {c : ContractSymbol} (hConsistent : Consistent b)
    (h : ∀ id order filled, OpenOrder b id order filled → order.contract ≠ c) :
    b.committed c = b.net c := by
  have hNone : b.orders.total (b.pendingOf c) = b.orders.total fun _ _ => 0 := by
    refine Dict.total_congr _ fun id order hGet => ?_
    obtain ⟨filled, hFilled⟩ := hConsistent.tracked id order hGet
    unfold pendingOf remaining
    split_ifs with hContract hCancelled
    · cases order.side <;> rfl
    · have hFull : ¬filled < order.quantity :=
        fun hLess => h id order filled ⟨hGet, hCancelled, hFilled, hLess⟩ hContract
      rw [hFilled, Option.getD_some, max_eq_left (by omega)]
      cases order.side <;> rfl
    · rfl
  rw [committed, hNone]
  simp [Dict.total]

/-- A fill moves quantity from the pending side to the net side. -/
theorem FillStep.committed {b b' : MockBroker} {id : BrokerOrderId} {order : Order}
    {filled actual : ℤ} {price : ℚ} {e : OrderEvent}
    (h : FillStep b b' id order filled actual price e) (c : ContractSymbol) :
    b'.committed c = b.committed c := by
  have hOther : ∀ id' order', id' ≠ id → b'.pendingOf c id' order' = b.pendingOf c id' order' := by
    intro id' order' hId
    simp only [pendingOf, remaining, h.cancelled, h.filledQty, Dict.get?_set_of_ne _ _ hId]
  have hPos := h.actual_pos
  have hLe := h.actual_le
  have hBefore : b.remaining id order = order.quantity - filled := by
    rw [remaining, if_neg h.not_cancelled, h.filled_found, Option.getD_some, max_eq_right (by omega)]
  have hAfter : b'.remaining id order = order.quantity - (filled + actual) := by
    rw [remaining, h.cancelled, if_neg h.not_cancelled, h.filledQty, Dict.get?_set_self,
      Option.getD_some, max_eq_right (by omega)]
  rw [MockBroker.committed, MockBroker.committed, h.booked.net, h.orders,
    Dict.total_replace _ h.order_found hOther, pendingOf, pendingOf, hBefore, hAfter]
  by_cases hContract : order.contract = c
  · simp only [hContract, if_true]
    cases order.side <;> simp only [Side.signed_buy, Side.signed_sell] <;> omega
  · have hContract' : ¬c = order.contract := fun hc => hContract hc.symm
    simp [hContract, hContract']

/-- A new order commits its signed quantity. -/
theorem Placed.committed {b b' : MockBroker} {order : Order} {id : BrokerOrderId}
    (h : Placed b b' order id) (hConsistent : Consistent b) (c : ContractSymbol) :
    b'.committed c =
      b.committed c + if order.contract = c then order.side.signed order.quantity else 0 := by
  have hFresh : b.orders.get? id = none := h.id_eq ▸ hConsistent.next_fresh.1
  have hOld : b.orders.total (b'.pendingOf c) = b.orders.total (b.pendingOf c) := by
    refine Dict.total_congr _ fun id' order' hGet => ?_
    have hId : id' ≠ id := by
      rintro rfl
      rw [hFresh] at hGet
      cases hGet
    simp only [pendingOf, remaining, h.cancelled, h.filledQty, Dict.get?_set_of_ne _ _ hId]
  have hNew : b'.remaining id order = order.quantity := by
    have hNot : id ∉ b'.cancelled := by
      rw [h.cancelled, h.id_eq]
      exact hConsistent.next_fresh.2
    have := order.quantity_pos
    rw [remaining, if_neg hNot, h.filledQty, Dict.get?_set_self, Option.getD_some,
      max_eq_right (by omega), sub_zero]
  have hNet : b'.net c = b.net c := by rw [net, net, h.positions]
  rw [MockBroker.committed, MockBroker.committed, hNet, h.orders, Dict.total_set, hOld, hFresh,
    Option.elim_none, pendingOf, hNew]
  ring

/-! ## One bar -/

/-- What a bar does to one order: the events it returns for it and the new fill count. -/
def BarFill (b : MockBroker) (bar : VerifiedBar) (slippage : Option SlippageModel)
    (id : BrokerOrderId) (events : List OrderEvent) (filled' : Option ℤ) : Prop :=
  (events = [] ∧ filled' = b.filledQty.get? id ∧ PassedOver b bar id) ∨
    ∃ order filled intended price event, events = [event] ∧ filled' = some order.quantity ∧
      OpenOrder b id order filled ∧ order.contract = bar.contract ∧
      backtestFillPrice order bar = .ok (some intended) ∧
      slipped slippage order bar intended = .ok price ∧ event.brokerOrderId = id ∧
      event.contract = order.contract ∧ event.fillPrice = some price ∧
      event.fillQuantity = some (order.quantity - filled)

def eventsOf (id : BrokerOrderId) (events : List OrderEvent) : List OrderEvent :=
  events.filter fun event => event.brokerOrderId = id

theorem eventsOf_append (id : BrokerOrderId) (es es' : List OrderEvent) :
    eventsOf id (es ++ es') = eventsOf id es ++ eventsOf id es' :=
  List.filter_append ..

structure Advanced (b b' : MockBroker) (bar : VerifiedBar) (slippage : Option SlippageModel)
    (events : List OrderEvent) : Prop where
  config : b'.config = b.config
  orders : b'.orders = b.orders
  cancelled : b'.cancelled = b.cancelled
  nextOrderIdSeq : b'.nextOrderIdSeq = b.nextOrderIdSeq
  consistent : Consistent b → Consistent b'
  net_other : ∀ c, c ≠ bar.contract → b'.net c = b.net c
  committed : ∀ c, b'.committed c = b.committed c
  fills : ∀ id ∈ b.orders.keys,
    BarFill b bar slippage id (eventsOf id events) (b'.filledQty.get? id)
  unknown : ∀ id, id ∉ b.orders.keys → eventsOf id events = []

/-- The loop of `advance`, with the orders already visited. -/
structure AdvancedSome (b s : MockBroker) (bar : VerifiedBar) (slippage : Option SlippageModel)
    (done : List BrokerOrderId) (events : List OrderEvent) : Prop where
  config : s.config = b.config
  orders : s.orders = b.orders
  cancelled : s.cancelled = b.cancelled
  nextOrderIdSeq : s.nextOrderIdSeq = b.nextOrderIdSeq
  consistent : Consistent b → Consistent s
  net_other : ∀ c, c ≠ bar.contract → s.net c = b.net c
  committed : ∀ c, s.committed c = b.committed c
  visited : ∀ id ∈ done, BarFill b bar slippage id (eventsOf id events) (s.filledQty.get? id)
  waiting : ∀ id, id ∉ done → eventsOf id events = [] ∧ s.filledQty.get? id = b.filledQty.get? id

theorem PassedOver.congr {b s : MockBroker} {bar : VerifiedBar} {id : BrokerOrderId}
    (h : PassedOver s bar id) (hOrders : s.orders = b.orders) (hCancelled : s.cancelled = b.cancelled)
    (hFilled : s.filledQty.get? id = b.filledQty.get? id) : PassedOver b bar id := by
  unfold PassedOver at h ⊢
  rwa [hOrders, hCancelled, hFilled] at h

theorem AdvancedSome.pass {b s : MockBroker} {bar : VerifiedBar} {slippage : Option SlippageModel}
    {done : List BrokerOrderId} {events : List OrderEvent} {id : BrokerOrderId}
    (h : AdvancedSome b s bar slippage done events) (hNew : id ∉ done)
    (hPassed : PassedOver s bar id) : AdvancedSome b s bar slippage (done ++ [id]) events where
  config := h.config
  orders := h.orders
  cancelled := h.cancelled
  nextOrderIdSeq := h.nextOrderIdSeq
  consistent := h.consistent
  net_other := h.net_other
  committed := h.committed
  visited id' hMem := by
    rcases List.mem_append.mp hMem with hDone | hLast
    · exact h.visited id' hDone
    · obtain rfl := List.mem_singleton.mp hLast
      obtain ⟨hEvents, hFilled⟩ := h.waiting id' hNew
      exact .inl ⟨hEvents, hFilled, hPassed.congr h.orders h.cancelled hFilled⟩
  waiting id' hNot := h.waiting id' fun hDone => hNot (List.mem_append_left _ hDone)

theorem AdvancedSome.fill {b s s' : MockBroker} {bar : VerifiedBar} {slippage : Option SlippageModel}
    {done : List BrokerOrderId} {events : List OrderEvent} {id : BrokerOrderId} {e : OrderEvent}
    (h : AdvancedSome b s bar slippage done events) (hNew : id ∉ done)
    (hFilled : FilledByBar s s' bar slippage id e) :
    AdvancedSome b s' bar slippage (done ++ [id]) (events ++ [e]) := by
  obtain ⟨order, filled, intended, price, hContract, hIntended, hSlipped, hFill⟩ := hFilled
  have hOther : ∀ id', id' ≠ id → eventsOf id' [e] = [] ∧
      s'.filledQty.get? id' = s.filledQty.get? id' := by
    intro id' hId
    have hId' : e.brokerOrderId ≠ id' := fun he => hId (he.symm.trans hFill.event_id)
    exact ⟨by simp [eventsOf, hId'], by rw [hFill.filledQty, Dict.get?_set_of_ne _ _ hId]⟩
  refine ⟨hFill.config.trans h.config, hFill.orders.trans h.orders, hFill.cancelled.trans h.cancelled,
    hFill.nextOrderIdSeq.trans h.nextOrderIdSeq, fun hb => (h.consistent hb).fill hFill, ?_,
    fun c => (hFill.committed c).trans (h.committed c), ?_, ?_⟩
  · intro c hc
    rw [hFill.booked.net, if_neg (hContract ▸ hc), add_zero]
    exact h.net_other c hc
  · intro id' hMem
    by_cases hId : id' = id
    · subst hId
      obtain ⟨hEvents, hSame⟩ := h.waiting id' hNew
      refine .inr ⟨order, filled, intended, price, e, ?_, ?_, ?_, hContract, hIntended, hSlipped,
        hFill.event_id, hFill.event_contract, hFill.event_price, hFill.event_quantity⟩
      · rw [eventsOf_append, hEvents, List.nil_append]
        simp [eventsOf, hFill.event_id]
      · rw [hFill.filledQty, Dict.get?_set_self, add_sub_cancel]
      · exact ⟨h.orders ▸ hFill.order_found, h.cancelled ▸ hFill.not_cancelled,
          hSame ▸ hFill.filled_found, by have := hFill.actual_pos; omega⟩
    · have hDone : id' ∈ done := by simpa [hId] using hMem
      rw [eventsOf_append, (hOther id' hId).1, List.append_nil, (hOther id' hId).2]
      exact h.visited id' hDone
  · intro id' hNot
    have hId : id' ≠ id := fun he => hNot (by simp [he])
    obtain ⟨hEvents, hSame⟩ := h.waiting id' fun hDone => hNot (List.mem_append_left _ hDone)
    rw [eventsOf_append, hEvents, (hOther id' hId).1, (hOther id' hId).2]
    exact ⟨rfl, hSame⟩

theorem advance_ok {bar : VerifiedBar} {slippage : Option SlippageModel} {b b' : MockBroker}
    {events : List OrderEvent} (h : advance bar slippage b = .ok events b') :
    Advanced b b' bar slippage events := by
  simp only [advance, bind_ok_iff, get_ok_iff, pure_ok_iff] at h
  obtain ⟨_, _, ⟨rfl, rfl⟩, fills, _, hLoop, rfl, rfl⟩ := h
  have hLoop := each_rule (fun done log s => AdvancedSome b s bar slippage done log.flatten) ?_
    ⟨rfl, rfl, rfl, rfl, fun hb => hb, fun _ _ => rfl, fun _ => rfl, by simp,
      fun _ _ => ⟨rfl, rfl⟩⟩ hLoop
  · exact ⟨hLoop.config, hLoop.orders, hLoop.cancelled, hLoop.nextOrderIdSeq, hLoop.consistent,
      hLoop.net_other, hLoop.committed, hLoop.visited, fun id hNot => (hLoop.waiting id hNot).1⟩
  · intro done id rest log es s s' hKeys hInv hStep
    -- a key is visited once
    have hNew : id ∉ done := by
      intro hDone
      have hNodup := hKeys ▸ b.orders.keys_nodup
      exact (List.nodup_append.mp hNodup).2.2 id hDone id List.mem_cons_self rfl
    rcases advanceOrder_ok hStep with ⟨rfl, rfl, hPassed⟩ | ⟨e, rfl, hFilled⟩
    · simpa using hInv.pass hNew hPassed
    · simpa using hInv.fill hNew hFilled

/-! ## Market orders -/

def MarketOnly (b : MockBroker) : Prop :=
  ∀ id order filled, OpenOrder b id order filled → order.orderType = .mkt

theorem Idle.marketOnly {b : MockBroker} (h : Idle b) : MarketOnly b :=
  fun id order filled hOpen => absurd hOpen (h.none_open id order filled)

/-- An open order of another contract stays open over a bar, and no new one opens. -/
theorem Advanced.open_before {b b' : MockBroker} {bar : VerifiedBar} {slippage : Option SlippageModel}
    {events : List OrderEvent} (h : Advanced b b' bar slippage events) {id : BrokerOrderId}
    {order : Order} {filled : ℤ} (hOpen : OpenOrder b' id order filled) :
    OpenOrder b id order filled ∧ PassedOver b bar id := by
  have hOrder : b.orders.get? id = some order := h.orders ▸ hOpen.order_found
  rcases h.fills id ((Dict.mem_keys_iff _ _).mpr ⟨order, hOrder⟩) with
    ⟨-, hSame, hPassed⟩ | ⟨order', filled', intended, price, e, -, hFull, hWas, -⟩
  · exact ⟨hOpen.congr (by rw [h.orders]) h.cancelled.symm hSame.symm, hPassed⟩
  · obtain rfl : order' = order := Option.some.inj (hWas.order_found.symm.trans hOrder)
    obtain rfl : filled = order'.quantity := Option.some.inj (hOpen.filled_found.symm.trans hFull)
    exact absurd hOpen.unfilled (lt_irrefl _)

/-- A market order still open after a bar is of another contract. -/
theorem Advanced.open_other {b b' : MockBroker} {bar : VerifiedBar} {slippage : Option SlippageModel}
    {events : List OrderEvent} (h : Advanced b b' bar slippage events) (hMarket : MarketOnly b)
    {id : BrokerOrderId} {order : Order} {filled : ℤ} (hOpen : OpenOrder b' id order filled) :
    order.contract ≠ bar.contract := by
  obtain ⟨hWas, hPassed⟩ := h.open_before hOpen
  rcases hPassed with hCancelled | ⟨order', hOrder, hOther | ⟨filled', hFilled, hFull | hNone⟩⟩
  · exact absurd hCancelled hWas.not_cancelled
  · exact Option.some.inj (hWas.order_found.symm.trans hOrder) ▸ hOther
  · obtain rfl := Option.some.inj (hWas.order_found.symm.trans hOrder)
    obtain rfl := Option.some.inj (hWas.filled_found.symm.trans hFilled)
    exact absurd hFull (not_le.mpr hWas.unfilled)
  · obtain rfl := Option.some.inj (hWas.order_found.symm.trans hOrder)
    simp [backtestFillPrice, hMarket id _ filled hWas, except_pure_ok_iff] at hNone

/-- An open market order of the bar's contract fills in full, at the open after slippage. -/
theorem Advanced.fill_market {b b' : MockBroker} {bar : VerifiedBar} {slippage : Option SlippageModel}
    {events : List OrderEvent} (h : Advanced b b' bar slippage events) {id : BrokerOrderId}
    {order : Order} {filled : ℤ} (hOpen : OpenOrder b id order filled)
    (hType : order.orderType = .mkt) (hContract : order.contract = bar.contract) :
    ∃ event price, eventsOf id events = [event] ∧
      slipped slippage order bar bar.openPrice = .ok price ∧ event.fillPrice = some price ∧
      event.fillQuantity = some (order.quantity - filled) := by
  rcases h.fills id ((Dict.mem_keys_iff _ _).mpr ⟨order, hOpen.order_found⟩) with
    ⟨-, -, hPassed⟩ | ⟨order', filled', intended, price, e, hEvents, -, hWas, -, hIntended, hSlipped,
      -, -, hPrice, hQuantity⟩
  · rcases hPassed with hCancelled | ⟨order', hOrder, hOther | ⟨filled', hFilled, hFull | hNone⟩⟩
    · exact absurd hCancelled hOpen.not_cancelled
    · obtain rfl := Option.some.inj (hOpen.order_found.symm.trans hOrder)
      exact absurd hContract hOther
    · obtain rfl := Option.some.inj (hOpen.order_found.symm.trans hOrder)
      obtain rfl := Option.some.inj (hOpen.filled_found.symm.trans hFilled)
      exact absurd hFull (not_le.mpr hOpen.unfilled)
    · obtain rfl := Option.some.inj (hOpen.order_found.symm.trans hOrder)
      simp [backtestFillPrice, hType, except_pure_ok_iff] at hNone
  · obtain ⟨rfl, rfl⟩ := hOpen.unique hWas
    rw [backtestFillPrice, hType, except_pure_ok_iff, Option.some.injEq] at hIntended
    subst hIntended
    exact ⟨e, price, hEvents, hSlipped, hPrice, hQuantity⟩

end MockBroker

end Futur3.Execution
