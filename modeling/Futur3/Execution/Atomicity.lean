import Futur3.Execution.BrokerReach

/-! # Calls that raise

A call is atomic when raising leaves the book, the ledgers and the event buffer as
they were. Checks raise before anything is written; the position update, the clock
and the second leg of a roll can raise after it.
-/

namespace Futur3.Execution

open Data Prelude Method

namespace MockBroker

structure Unchanged (b b' : MockBroker) : Prop where
  orders : b'.orders = b.orders
  cancelled : b'.cancelled = b.cancelled
  filledQty : b'.filledQty = b.filledQty
  positions : b'.positions = b.positions
  realizedPnlToday : b'.realizedPnlToday = b.realizedPnlToday
  tradePnls : b'.tradePnls = b.tradePnls
  openTradePnl : b'.openTradePnl = b.openTradePnl
  events : b'.events = b.events

theorem Unchanged.refl (b : MockBroker) : Unchanged b b := ⟨rfl, rfl, rfl, rfl, rfl, rfl, rfl, rfl⟩

def Atomic (b : MockBroker) (op : BrokerOp) : Prop :=
  op.perform.raised b ≠ none → Unchanged b (op.perform.after b)

/-- The calls that raise before they write, or not at all. -/
def RaisesFirst (b : MockBroker) : BrokerOp → Prop
  | .place order =>
    order.orderType ∉ b.supportedOrderTypes ∨ b.ClockUtc 0 ∧ b.ClockUtc 1
  | .cancel id => b.orders.get? id = none ∨ id ∈ b.cancelled ∨ b.ClockUtc 0
  | .modify id limitPrice stopPrice quantity =>
    ∀ accepted ∈ b.acceptedModify id limitPrice stopPrice quantity,
      b.ClockUtc 0 ∨ accepted.2 = accepted.1
  | .fill id price quantity =>
    ∀ accepted ∈ b.acceptedFill id price quantity,
      b.ClockUtc 0 ∧ b.Closable accepted.1.contract [accepted.1.side.signed accepted.2.2]
  | .advance bar slippage =>
    let fills := b.barFills bar slippage b.orders.keys
    fills = [] ∨ b.barRefused bar slippage b.orders.keys = false ∧
      b.Closable bar.contract (deltasOf fills) ∧ ∀ n < fills.length, b.ClockUtc n
  | .roll front back _ backFill =>
    b.net front = 0 ∨ ¬(multiplierFor front).isOk ∨ b.TakesRoll front back backFill

instance (b : MockBroker) : DecidablePred b.RaisesFirst
  | .place _ => inferInstanceAs (Decidable (_ ∨ _ ∧ _))
  | .cancel _ => inferInstanceAs (Decidable (_ ∨ _ ∨ _))
  | .modify .. => inferInstanceAs (Decidable (∀ accepted ∈ _, _))
  | .fill .. => inferInstanceAs (Decidable (∀ accepted ∈ _, _))
  | .advance .. => inferInstanceAs (Decidable (_ ∨ _ ∧ _ ∧ _))
  | .roll .. => inferInstanceAs (Decidable (_ ∨ _ ∨ _))

/-! ## Fill counts -/

def Counted (b : MockBroker) : Prop :=
  ∀ id filled, b.filledQty.get? id = some filled → 0 ≤ filled

section Counts

variable {b : MockBroker} {id : BrokerOrderId}

theorem Counted.set {filled : ℤ} {b' : MockBroker} (h : b.Counted) (hFilled : 0 ≤ filled)
    (hSet : b'.filledQty = b.filledQty.set id filled) : b'.Counted := by
  intro id' filled' hGet
  rw [hSet, Dict.get?_set] at hGet
  split at hGet
  · cases hGet
    exact hFilled
  · exact h id' filled' hGet

theorem fillOrder_counted (id : BrokerOrderId) (h : b.Counted) (price : ℚ) (quantity : Option ℤ) :
    ((fillOrder id price quantity).after b).Counted := by
  cases hAccepted : b.acceptedFill id price quantity with
  | none =>
    obtain ⟨e, hError⟩ := fillOrder_refused hAccepted
    rwa [after_of_error hError]
  | some accepted =>
    obtain ⟨order, filled, actual⟩ := accepted
    obtain ⟨-, hFilled, -, -, -, hPos, -⟩ := acceptedFill_eq_some.mp hAccepted
    exact h.set (add_nonneg (h id filled hFilled) hPos.le) (fillOrder_after_book hAccepted).2.2

theorem perform_counted (hConsistent : Consistent b) (h : b.Counted) (op : BrokerOp) :
    (op.perform.after b).Counted := by
  cases op with
  | place order =>
    rw [BrokerOp.perform, after_forget]
    have hSame := sameCore (placeOrder_after (b := b) order)
    split at hSame
    · exact h.set le_rfl hSame.filledQty
    · rwa [Counted, hSame.filledQty]
  | cancel id =>
    rw [BrokerOp.perform]
    rcases cancelOrder_cases hConsistent id with hSame | ⟨-, -, -, hCore⟩
    · rwa [hSame]
    · rwa [Counted, (sameCore hCore).filledQty]
  | modify id limitPrice stopPrice quantity =>
    rw [BrokerOp.perform]
    rcases modifyOrder_cases hConsistent id limitPrice stopPrice quantity with
      hSame | ⟨-, newOrder, -, hCore⟩
    · rwa [hSame]
    · rwa [Counted, (sameCore hCore).filledQty]
  | fill id price quantity =>
    rw [BrokerOp.perform, after_forget]
    exact fillOrder_counted _ h price quantity
  | advance bar slippage =>
    rw [BrokerOp.perform, after_forget]
    exact advance_invariant Counted (fun id price s hs => fillOrder_counted id hs price none) h
  | roll front back frontFill backFill =>
    rw [BrokerOp.perform, after_forget, Counted, rollPosition_sameBook.filledQty]
    exact h

theorem Reachable.counted (h : Reachable b) : b.Counted :=
  (h.invariant (fun s => Consistent s ∧ s.Counted)
    (fun config => ⟨(fresh_idle config).toConsistent, by simp [Counted, fresh]⟩)
    fun _ op hs => ⟨perform_consistent hs.1 op, perform_counted hs.1 hs.2 op⟩).2

end Counts

/-! ## Each call -/

section Calls

variable {b : MockBroker} {id : BrokerOrderId} {op : BrokerOp}

theorem atomic_of_returns (h : op.perform.raised b = none) : b.Atomic op := fun hRaised =>
  absurd h hRaised

theorem atomic_of_unchanged (h : op.perform.after b = b) : b.Atomic op := by
  intro _
  rw [h]
  exact Unchanged.refl b

theorem atomic_iff_returns (h : ¬Unchanged b (op.perform.after b)) :
    b.Atomic op ↔ op.perform.raised b = none :=
  ⟨fun hAtomic => by_contra fun hRaised => h (hAtomic hRaised), atomic_of_returns⟩

theorem emitEvent_returns_iff {client : String} {c : ContractSymbol} {eventType : OrderEventType}
    {fillPrice : Option ℚ} {fillQuantity : Option ℤ} {cum rem : ℤ} (hCum : 0 ≤ cum) (hRem : 0 ≤ rem)
    (hQuantity : ∀ q ∈ fillQuantity, 0 ≤ q) :
    (emitEvent id client c eventType fillPrice fillQuantity cum rem).raised b = none ↔
      b.ClockUtc 0 := by
  by_cases hClock : b.ClockUtc 0
  · obtain ⟨e, hEmit, -⟩ := emitEvent_utc id client c eventType fillPrice fillQuantity cum rem
      hClock hCum hRem hQuantity
    exact iff_of_true (raised_of_ok hEmit) hClock
  · obtain ⟨err, hEmit⟩ := emitEvent_other id client c eventType fillPrice fillQuantity cum rem hClock
    refine iff_of_false ?_ hClock
    rw [raised_of_error hEmit]
    simp

theorem placeOrder_atomic_iff (hConsistent : Consistent b) (order : Order) :
    b.Atomic (.place order) ↔ b.RaisesFirst (.place order) := by
  by_cases hSupported : order.orderType ∈ b.supportedOrderTypes
  · have hNew : ¬Unchanged b ((BrokerOp.place order).perform.after b) := by
      intro hSame
      have hOrders := hSame.orders
      rw [BrokerOp.perform, after_forget, (sameCore (placeOrder_after order)).orders,
        if_pos hSupported] at hOrders
      have hGet : b.orders.get? ⟨b.nextOrderIdSeq + 1⟩ = some order := by
        rw [← hOrders]
        exact Dict.get?_set_self ..
      rw [hConsistent.next_fresh.1] at hGet
      cases hGet
    have hReturns : (BrokerOp.place order).perform.raised b = none ↔
        b.ClockUtc 0 ∧ b.ClockUtc 1 := by
      have hNonneg := order.quantity_pos.le
      rw [BrokerOp.perform, raised_forget, Method.raised, placeOrder_accepted hSupported]
      by_cases hClock : b.ClockUtc 0
      · obtain ⟨e, hEmit, -⟩ := emitEvent_utc ⟨b.nextOrderIdSeq + 1⟩
          (clientId order (anonymousId (b.nextOrderIdSeq + 1))) order.contract .submitted none none
          0 order.quantity (b := b.withOrder order) hClock le_rfl hNonneg (by simp)
        rw [bind_of_ok hEmit]
        refine ((raised_bind_pure ..).congr_left.trans
          (emitEvent_returns_iff le_rfl hNonneg (by simp))).trans ?_
        exact ⟨fun h => ⟨hClock, h⟩, fun h => h.2⟩
      · obtain ⟨err, hEmit⟩ := emitEvent_other ⟨b.nextOrderIdSeq + 1⟩
          (clientId order (anonymousId (b.nextOrderIdSeq + 1))) order.contract .submitted none none
          0 order.quantity (b := b.withOrder order) hClock
        rw [bind_of_error hEmit]
        exact iff_of_false (by simp) fun h => hClock h.1
    rw [atomic_iff_returns hNew, hReturns]
    exact ⟨.inr, fun h => h.resolve_left (not_not.mpr hSupported)⟩
  · refine iff_of_true (atomic_of_unchanged ?_) (.inl hSupported)
    rw [BrokerOp.perform, after_forget, after_of_error (placeOrder_refused hSupported)]

theorem cancelOrder_atomic_iff (hConsistent : Consistent b) (hCounted : b.Counted) :
    b.Atomic (.cancel id) ↔ b.RaisesFirst (.cancel id) := by
  by_cases hRefused : b.orders.get? id = none ∨ id ∈ b.cancelled
  · obtain ⟨e, hError, -⟩ := cancelOrder_refused hRefused
    exact iff_of_true (atomic_of_unchanged (after_of_error hError)) (or_assoc.mp (.inl hRefused))
  · rw [not_or] at hRefused
    obtain ⟨hKnown, hOpen⟩ := hRefused
    obtain ⟨order, hOrder⟩ := Option.ne_none_iff_exists'.mp hKnown
    obtain ⟨filled, hFilled⟩ := hConsistent.tracked id order hOrder
    have hNew : ¬Unchanged b ((BrokerOp.cancel id).perform.after b) := by
      intro hSame
      have hCancelled := hSame.cancelled
      rw [BrokerOp.perform, (sameCore (cancelOrder_after hOrder hOpen hFilled)).cancelled] at hCancelled
      exact hOpen (Finset.insert_eq_self.mp hCancelled)
    have hReturns : (BrokerOp.cancel id).perform.raised b = none ↔ b.ClockUtc 0 := by
      rw [BrokerOp.perform, Method.raised, cancelOrder_accepted hOrder hOpen hFilled]
      exact (raised_forget ..).congr_left.trans
        (emitEvent_returns_iff (hCounted id filled hFilled) (le_max_left _ _) (by simp))
    rw [atomic_iff_returns hNew, hReturns, RaisesFirst]
    tauto

theorem modifyOrder_atomic_iff (hConsistent : Consistent b) (hCounted : b.Counted)
    {limitPrice stopPrice : Option ℚ} {quantity : Option ℤ} :
    b.Atomic (.modify id limitPrice stopPrice quantity) ↔
      b.RaisesFirst (.modify id limitPrice stopPrice quantity) := by
  cases hAccepted : b.acceptedModify id limitPrice stopPrice quantity with
  | none =>
    obtain ⟨e, hError⟩ := modifyOrder_refused hAccepted
    exact iff_of_true (atomic_of_unchanged (after_of_error hError)) (by simp [RaisesFirst, hAccepted])
  | some accepted =>
    obtain ⟨order, newOrder⟩ := accepted
    have hOrder := (acceptedModify_eq_some.mp hAccepted).1
    obtain ⟨filled, hFilled⟩ := hConsistent.tracked id order hOrder
    have hSame := sameCore (modifyOrder_after hAccepted hFilled)
    have hReturns : (BrokerOp.modify id limitPrice stopPrice quantity).perform.raised b = none ↔
        b.ClockUtc 0 := by
      rw [BrokerOp.perform, Method.raised, modifyOrder_accepted hAccepted hFilled]
      exact (raised_forget ..).congr_left.trans
        (emitEvent_returns_iff (hCounted id filled hFilled) (le_max_left _ _) (by simp))
    have hRaisesFirst : b.RaisesFirst (.modify id limitPrice stopPrice quantity) ↔
        b.ClockUtc 0 ∨ newOrder = order := by
      simp [RaisesFirst, hAccepted]
    rw [hRaisesFirst]
    by_cases hOrders : newOrder = order
    · refine iff_of_true (fun hRaised => ?_) (.inr hOrders)
      have hClock : ¬b.ClockUtc 0 := fun h => hRaised (hReturns.mpr h)
      obtain ⟨err, hEmit⟩ := emitEvent_other id (clientId order "anon") order.contract
        .modified none none filled (max 0 (newOrder.quantity - filled))
        (b := { b with orders := b.orders.set id newOrder }) hClock
      have hEvents : ((modifyOrder id limitPrice stopPrice quantity).after b).events = b.events := by
        have hRun : modifyOrder id limitPrice stopPrice quantity b = .error err _ :=
          (modifyOrder_accepted hAccepted hFilled).trans (bind_of_error hEmit)
        rw [after_of_error hRun]
      refine ⟨?_, hSame.cancelled, hSame.filledQty, hSame.positions, hSame.realizedPnlToday,
        hSame.tradePnls, hSame.openTradePnl, hEvents⟩
      rw [BrokerOp.perform, hSame.orders, hOrders]
      exact Dict.set_self hOrder
    · have hNew : ¬Unchanged b ((BrokerOp.modify id limitPrice stopPrice quantity).perform.after b) := by
        intro hUnchanged
        have hKept := congrArg (Dict.get? · id) hUnchanged.orders
        rw [BrokerOp.perform, hSame.orders] at hKept
        have hBoth := (Dict.get?_set_self b.orders id newOrder).symm.trans (hKept.trans hOrder)
        exact hOrders (Option.some.inj hBoth)
      rw [atomic_iff_returns hNew, hReturns]
      exact ⟨.inl, fun h => h.resolve_right hOrders⟩

/-- A fill that the checks accept returns exactly when the position takes it and the clock
reads UTC. -/
theorem fillOrder_returns_iff (hCounted : b.Counted) {price : ℚ} {quantity : Option ℤ}
    {order : Order} {filled actual : ℤ}
    (hAccepted : b.acceptedFill id price quantity = some (order, filled, actual)) :
    (fillOrder id price quantity).raised b = none ↔
      b.ClockUtc 0 ∧ b.Closable order.contract [order.side.signed actual] := by
  obtain ⟨-, hFilled, -, hPrice, -, hPos, hLe⟩ := acceptedFill_eq_some.mp hAccepted
  have hNonneg := hCounted id filled hFilled
  by_cases hClosable : b.Closable order.contract [order.side.signed actual]
  · obtain ⟨s, hApply⟩ := (applyFill_returns_iff (b.withFilled id (filled + actual)) false
      hPos).mpr ((closable_one_iff order.side hPos hPrice).mp hClosable)
    have hBooked := applyFillToPosition_ok hPos hApply
    have hClock : s.ClockUtc 0 ↔ b.ClockUtc 0 := by
      rw [ClockUtc, ClockUtc, hBooked.config, hBooked.clockReads]
      rfl
    rw [Method.raised, fillOrder_booked hAccepted hApply]
    refine (emitEvent_returns_iff (add_nonneg hNonneg hPos.le) (by omega)
      (by simpa using hPos.le)).trans ?_
    rw [hClock]
    exact ⟨fun h => ⟨h, hClosable⟩, fun h => h.1⟩
  · have hTakes := (closable_one_iff order.side hPos hPrice).not.mp hClosable
    obtain ⟨e, hError⟩ := fillOrder_unbooked hAccepted hTakes
    refine iff_of_false ?_ fun h => hClosable h.2
    rw [raised_of_error hError]
    simp

theorem fillOrder_changed {price : ℚ} {quantity : Option ℤ} {order : Order} {filled actual : ℤ}
    (hAccepted : b.acceptedFill id price quantity = some (order, filled, actual)) :
    ((fillOrder id price quantity).after b).filledQty.get? id = some (filled + actual) := by
  rw [(fillOrder_after_book hAccepted).2.2]
  exact Dict.get?_set_self ..

theorem fillOrder_atomic_iff (hCounted : b.Counted) {price : ℚ} {quantity : Option ℤ} :
    b.Atomic (.fill id price quantity) ↔ b.RaisesFirst (.fill id price quantity) := by
  cases hAccepted : b.acceptedFill id price quantity with
  | none =>
    obtain ⟨e, hError⟩ := fillOrder_refused hAccepted
    refine iff_of_true (atomic_of_unchanged ?_) (by simp [RaisesFirst, hAccepted])
    rw [BrokerOp.perform, after_forget, after_of_error hError]
  | some accepted =>
    obtain ⟨order, filled, actual⟩ := accepted
    obtain ⟨-, hFilled, -, -, -, hPos, -⟩ := acceptedFill_eq_some.mp hAccepted
    have hNew : ¬Unchanged b ((BrokerOp.fill id price quantity).perform.after b) := by
      intro hSame
      have hKept := congrArg (Dict.get? · id) hSame.filledQty
      rw [BrokerOp.perform, after_forget] at hKept
      have := Option.some.inj ((fillOrder_changed hAccepted).symm.trans (hKept.trans hFilled))
      omega
    rw [atomic_iff_returns hNew, BrokerOp.perform, raised_forget,
      fillOrder_returns_iff hCounted hAccepted]
    simp [RaisesFirst, hAccepted]

/-! ## The bar loop -/

theorem forall_lt_succ_clock {n : ℕ} {b' : MockBroker} (hConfig : b'.config = b.config)
    (hReads : b'.clockReads = b.clockReads + 1) :
    (∀ k < n + 1, b.ClockUtc k) ↔ b.ClockUtc 0 ∧ ∀ k < n, b'.ClockUtc k := by
  have hShift : ∀ k, b'.ClockUtc k ↔ b.ClockUtc (k + 1) := by
    intro k
    rw [ClockUtc, ClockUtc, hConfig, hReads, Nat.add_right_comm, Nat.add_assoc]
  simp only [hShift]
  constructor
  · exact fun h => ⟨h 0 (Nat.succ_pos n), fun k hk => h (k + 1) (Nat.succ_lt_succ hk)⟩
  · rintro ⟨hZero, hRest⟩ k hk
    cases k with
    | zero => exact hZero
    | succ k => exact hRest k (Nat.lt_of_succ_lt_succ hk)

/-- The loop returns exactly when no due order is refused and every fill goes through. -/
theorem barLoop_returns_iff {bar : VerifiedBar} {slippage : Option SlippageModel}
    {ids : List BrokerOrderId} (hNodup : ids.Nodup)
    (hKnown : ∀ id ∈ ids, ∃ order, b.orders.get? id = some order) (hConsistent : Consistent b)
    (hCounted : b.Counted) :
    (each (advanceOrder bar slippage) ids).raised b = none ↔
      b.barRefused bar slippage ids = false ∧
        b.Closable bar.contract (deltasOf (b.barFills bar slippage ids)) ∧
        ∀ n < (b.barFills bar slippage ids).length, b.ClockUtc n := by
  induction ids generalizing b with
  | nil => exact iff_of_true rfl ⟨rfl, .inr trivial, fun n hn => absurd hn (Nat.not_lt_zero n)⟩
  | cons id rest ih =>
    obtain ⟨hNotMem, hRest⟩ := List.nodup_cons.mp hNodup
    have hKnownRest := fun id' hMem => hKnown id' (List.mem_cons_of_mem id hMem)
    obtain ⟨known, hOrder⟩ := hKnown id List.mem_cons_self
    obtain ⟨filled, hFilled⟩ := hConsistent.tracked id known hOrder
    rcases advanceOrder_turn bar slippage hOrder hFilled rest with
      ⟨hIdle, hFills, hRefused⟩ | ⟨⟨e, hError⟩, -, hRefused⟩ |
        ⟨order, remaining, price, hContract, hAccepted, hTurn, hFills, hRefused⟩
    · rw [hFills, hRefused, raised_each_cons_ok hIdle]
      exact ih hRest hKnownRest hConsistent hCounted
    · rw [hRefused, raised_each_cons_error hError]
      simp
    · rw [hFills, hRefused]
      have hReturns := fillOrder_returns_iff hCounted hAccepted
      cases hFill : fillOrder id price none b with
      | error e s =>
        have hRun : advanceOrder bar slippage id b = .error e s := hTurn.trans (bind_of_error hFill)
        rw [raised_each_cons_error hRun]
        refine iff_of_false (by simp) fun ⟨_, hClosable, hClock⟩ => ?_
        rw [raised_of_error hFill] at hReturns
        cases hReturns.mpr ⟨hClock 0 (Nat.succ_pos _), hContract ▸ hClosable.head⟩
      | ok e b' =>
        have hRun : advanceOrder bar slippage id b = .ok [e] b' := hTurn.trans (bind_of_ok hFill)
        have hStep := fillOrder_step hAccepted hFill
        have hConsistent' := fillOrder_consistent hConsistent id price none
        have hCounted' := fillOrder_counted id hCounted price none
        rw [after_of_ok hFill] at hConsistent' hCounted'
        have hTail := ih hRest (fun id' hMem => hStep.orders ▸ hKnownRest id' hMem) hConsistent'
          hCounted'
        obtain ⟨hFillsRest, hRefusedRest⟩ := barFills_after bar slippage
          hStep.orders hStep.cancelled hStep.filledQty hNotMem
        obtain ⟨hClock, hHead⟩ := hReturns.mp (raised_of_ok hFill)
        rw [raised_each_cons_ok hRun, hTail, hFillsRest, hRefusedRest, deltasOf, deltasOf,
          List.map_cons, closable_cons_iff (hContract ▸ hStep.net_own), List.length_cons,
          forall_lt_succ_clock hStep.config (fillOrder_clockReads hAccepted hFill)]
        rw [hContract] at hHead
        tauto

theorem barLoop_idle {bar : VerifiedBar} {slippage : Option SlippageModel} {ids : List BrokerOrderId}
    (hKnown : ∀ id ∈ ids, ∃ order, b.orders.get? id = some order) (hConsistent : Consistent b)
    (hNone : b.barFills bar slippage ids = []) :
    (each (advanceOrder bar slippage) ids).after b = b := by
  induction ids with
  | nil => rfl
  | cons id rest ih =>
    obtain ⟨known, hOrder⟩ := hKnown id List.mem_cons_self
    obtain ⟨filled, hFilled⟩ := hConsistent.tracked id known hOrder
    rcases advanceOrder_turn bar slippage hOrder hFilled rest with
      ⟨hIdle, hFills, -⟩ | ⟨⟨e, hError⟩, -⟩ | ⟨order, remaining, price, -, -, -, hFills, -⟩
    · rw [after_each_cons_ok hIdle]
      exact ih (fun id' hMem => hKnown id' (List.mem_cons_of_mem id hMem)) (hFills ▸ hNone)
    · exact after_each_cons_error hError
    · rw [hFills] at hNone
      cases hNone

theorem barLoop_counts {bar : VerifiedBar} {slippage : Option SlippageModel}
    {ids : List BrokerOrderId} {filled : ℤ} (hFilled : b.filledQty.get? id = some filled) :
    ∃ later, ((each (advanceOrder bar slippage) ids).after b).filledQty.get? id = some later ∧
      filled ≤ later := by
  refine barLoop_invariant (fun s => ∃ later, s.filledQty.get? id = some later ∧ filled ≤ later)
    (fun id' price s hs => ?_) ⟨filled, hFilled, le_rfl⟩
  obtain ⟨later, hLater, hLe⟩ := hs
  cases hAccepted : s.acceptedFill id' price none with
  | none =>
    obtain ⟨e, hError⟩ := fillOrder_refused hAccepted
    rw [after_of_error hError]
    exact ⟨later, hLater, hLe⟩
  | some accepted =>
    obtain ⟨order, filled', actual⟩ := accepted
    obtain ⟨-, hFilled', -, -, -, hPos, -⟩ := acceptedFill_eq_some.mp hAccepted
    rw [(fillOrder_after_book hAccepted).2.2, Dict.get?_set]
    split
    · rename_i hId
      rw [← hId, hLater] at hFilled'
      cases hFilled'
      exact ⟨_, rfl, by omega⟩
    · exact ⟨later, hLater, hLe⟩

/-- A fill of the loop stays counted, whatever is raised after it. -/
theorem barLoop_changed {bar : VerifiedBar} {slippage : Option SlippageModel}
    {ids : List BrokerOrderId} (hKnown : ∀ id ∈ ids, ∃ order, b.orders.get? id = some order)
    (hConsistent : Consistent b) (hSome : b.barFills bar slippage ids ≠ []) :
    ((each (advanceOrder bar slippage) ids).after b).filledQty ≠ b.filledQty := by
  induction ids with
  | nil => exact absurd rfl hSome
  | cons id rest ih =>
    obtain ⟨known, hOrder⟩ := hKnown id List.mem_cons_self
    obtain ⟨filled, hFilled⟩ := hConsistent.tracked id known hOrder
    rcases advanceOrder_turn bar slippage hOrder hFilled rest with
      ⟨hIdle, hFills, -⟩ | ⟨-, hFills, -⟩ | ⟨order, remaining, price, -, hAccepted, hTurn, -⟩
    · rw [after_each_cons_ok hIdle]
      exact ih (fun id' hMem => hKnown id' (List.mem_cons_of_mem id hMem)) (hFills ▸ hSome)
    · exact absurd hFills hSome
    · obtain ⟨-, hFilled', -, -, -, hPos, -⟩ := acceptedFill_eq_some.mp hAccepted
      have hChanged := fillOrder_changed hAccepted
      obtain ⟨later, hLater, hLe⟩ : ∃ later,
          ((each (advanceOrder bar slippage) (id :: rest)).after b).filledQty.get? id = some later ∧
            order.quantity - remaining + remaining ≤ later := by
        cases hFill : fillOrder id price none b with
        | error e s =>
          have hRun : advanceOrder bar slippage id b = .error e s := hTurn.trans (bind_of_error hFill)
          rw [after_of_error hFill] at hChanged
          rw [after_each_cons_error hRun]
          exact ⟨_, hChanged, le_rfl⟩
        | ok e s =>
          have hRun : advanceOrder bar slippage id b = .ok [e] s := hTurn.trans (bind_of_ok hFill)
          rw [after_of_ok hFill] at hChanged
          rw [after_each_cons_ok hRun]
          exact barLoop_counts hChanged
      intro hSame
      rw [hSame, hFilled'] at hLater
      cases hLater
      omega

theorem advance_atomic_iff {bar : VerifiedBar} {slippage : Option SlippageModel}
    (hConsistent : Consistent b) (hCounted : b.Counted) :
    b.Atomic (.advance bar slippage) ↔ b.RaisesFirst (.advance bar slippage) := by
  have hKnown : ∀ id ∈ b.orders.keys, ∃ order, b.orders.get? id = some order :=
    fun id hMem => (b.orders.mem_keys_iff id).mp hMem
  have hAfter : (BrokerOp.advance bar slippage).perform.after b =
      (each (advanceOrder bar slippage) b.orders.keys).after b := by
    rw [BrokerOp.perform, after_forget, advance_after]
  by_cases hNone : b.barFills bar slippage b.orders.keys = []
  · exact iff_of_true (atomic_of_unchanged (hAfter.trans (barLoop_idle hKnown hConsistent hNone)))
      (.inl hNone)
  · have hNew : ¬Unchanged b ((BrokerOp.advance bar slippage).perform.after b) := by
      intro hSame
      exact barLoop_changed hKnown hConsistent hNone (hAfter ▸ hSame.filledQty)
    have hReturns : (BrokerOp.advance bar slippage).perform.raised b =
        (each (advanceOrder bar slippage) b.orders.keys).raised b := by
      rw [BrokerOp.perform, raised_forget, advance_raised]
    rw [atomic_iff_returns hNew, hReturns,
      barLoop_returns_iff b.orders.keys_nodup hKnown hConsistent hCounted]
    exact ⟨.inr, fun h => h.resolve_left hNone⟩

/-! ## Rolls -/

theorem rollPosition_atomic_iff {front back : ContractSymbol} {frontFill backFill : ℚ} :
    b.Atomic (.roll front back frontFill backFill) ↔
      b.RaisesFirst (.roll front back frontFill backFill) := by
  by_cases hFlat : b.net front = 0
  · refine iff_of_true (atomic_of_returns ?_) (.inl hFlat)
    rw [BrokerOp.perform, raised_forget, raised_of_ok (rollPosition_flat hFlat)]
  by_cases hMult : (multiplierFor front).isOk
  · obtain ⟨s, -, hFront, hRun⟩ := rollPosition_front back frontFill
      backFill hFlat hMult
    have hIff : b.RaisesFirst (.roll front back frontFill backFill) ↔
        s.TakesFill back (b.net front) backFill := by
      rw [takesRoll_iff hFront, RaisesFirst]
      tauto
    rw [hIff]
    by_cases hTakes : s.TakesFill back (b.net front) backFill
    · obtain ⟨s', -, hBack⟩ := rollPosition_back front hFlat hTakes
      refine iff_of_true (atomic_of_returns ?_) hTakes
      rw [BrokerOp.perform, raised_forget, raised_of_ok (hRun.trans hBack)]
    · obtain ⟨e, s', hRefusal, hError⟩ := rollPosition_back_refused front hFlat hTakes
      have hBoth := hRun.trans hError
      refine iff_of_false (fun hAtomic => ?_) hTakes
      -- the front month stays closed
      have hUnchanged := hAtomic (by
        rw [BrokerOp.perform, raised_forget, raised_of_error hBoth]
        simp)
      rw [BrokerOp.perform, after_forget, after_of_error hBoth] at hUnchanged
      have hPositions : s.positions = b.positions :=
        hRefusal.positions.symm.trans hUnchanged.positions
      have hClosed := hFront.booked.net front
      rw [if_pos rfl, add_neg_cancel, net, hPositions] at hClosed
      exact hFlat hClosed
  · obtain ⟨e, hError⟩ := rollPosition_refused back frontFill
      backFill hFlat hMult
    refine iff_of_true (atomic_of_unchanged ?_) (.inr (.inl hMult))
    rw [BrokerOp.perform, after_forget, after_of_error hError]

end Calls

/-- For every reachable broker: a call that raises leaves book, ledgers and events as they were
exactly when it raises before it writes, or does not raise. -/
theorem atomic_iff_raises_first {b : MockBroker} (h : Reachable b) (op : BrokerOp) :
    b.Atomic op ↔ b.RaisesFirst op := by
  cases op with
  | place order => exact placeOrder_atomic_iff h.consistent order
  | cancel id => exact cancelOrder_atomic_iff h.consistent h.counted
  | modify id limitPrice stopPrice quantity => exact modifyOrder_atomic_iff h.consistent h.counted
  | fill id price quantity => exact fillOrder_atomic_iff h.counted
  | advance bar slippage => exact advance_atomic_iff h.consistent h.counted
  | roll front back frontFill backFill => exact rollPosition_atomic_iff

def boughtOne : List BrokerOp :=
  [.place (.atMarket "ESM26" .buy 1 Int.one_pos (some "entry")), .fill ⟨1⟩ 5000 none]

/-- Overfilling a filled order raises and changes nothing. -/
theorem atomic_iff_raises_first_refused :
    let b := runAll BrokerOp.perform (fresh .steady) boughtOne
    b.Atomic (.fill ⟨1⟩ 5001 none) ∧ (BrokerOp.fill ⟨1⟩ 5001 none).perform.raised b ≠ none := by
  have hFirst : (runAll BrokerOp.perform (fresh .steady) boughtOne).RaisesFirst
      (.fill ⟨1⟩ 5001 none) := by decide +kernel
  exact ⟨(atomic_iff_raises_first ⟨.steady, boughtOne, rfl⟩ _).mpr hFirst, by decide +kernel⟩

/-- A roll to a back month priced at zero raises with the front month closed. -/
theorem refused_roll_closes_front :
    ¬∀ b : MockBroker, Reachable b → ∀ op, b.Atomic op := by
  intro hClaim
  have hUnchanged := hClaim (runAll BrokerOp.perform (fresh .steady) boughtOne)
    ⟨.steady, boughtOne, rfl⟩ (.roll "ESM26" "ESU26" 5010 0) (by decide +kernel)
  have hClosed : ((BrokerOp.roll "ESM26" "ESU26" 5010 0).perform.after
      (runAll BrokerOp.perform (fresh .steady) boughtOne)).realizedPnlToday ≠
        (runAll BrokerOp.perform (fresh .steady) boughtOne).realizedPnlToday := by decide +kernel
  exact hClosed hUnchanged.realizedPnlToday

end MockBroker

end Futur3.Execution
