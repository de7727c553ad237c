import Futur3.Execution.BrokerReach
import Mathlib.Algebra.Order.BigOperators.Group.List

/-! # Open quantity and exposure

The exposure of a contract to one side is its position once the open orders of that
side are filled and those of the other are not. Fills never raise it, so a bound on
every exposure is kept by every call that adds no open quantity.
-/

namespace Futur3.Execution

open Data Prelude Method

namespace MockBroker

/-- What an order adds to the open quantity of a contract and side. -/
def openOf (b : MockBroker) (c : ContractSymbol) (side : Side) (id : BrokerOrderId)
    (order : Order) : ℤ :=
  if order.contract = c ∧ order.side = side then b.remaining id order else 0

/-- The unfilled quantity of the open orders of a contract and side. -/
def openQuantity (b : MockBroker) (c : ContractSymbol) (side : Side) : ℤ :=
  b.orders.total (b.openOf c side)

def exposure (b : MockBroker) (c : ContractSymbol) (side : Side) : ℤ :=
  side.signed (b.net c) + b.openQuantity c side

section Basics

variable {b b' : MockBroker} {c : ContractSymbol} {side : Side}

theorem openOf_nonneg (id : BrokerOrderId) (order : Order) : 0 ≤ b.openOf c side id order := by
  unfold openOf remaining
  split_ifs
  · exact le_rfl
  · exact le_max_left _ _
  · exact le_rfl

theorem openQuantity_nonneg (b : MockBroker) (c : ContractSymbol) (side : Side) :
    0 ≤ b.openQuantity c side := by
  refine List.sum_nonneg fun x hx => ?_
  obtain ⟨p, -, rfl⟩ := List.mem_map.mp hx
  exact openOf_nonneg p.1 p.2

theorem signed_le_exposure : side.signed (b.net c) ≤ b.exposure c side :=
  le_add_of_nonneg_right (openQuantity_nonneg ..)

theorem abs_net_le {bound : ℤ} (h : ∀ side, b.exposure c side ≤ bound) : |b.net c| ≤ bound := by
  have hBuy := signed_le_exposure.trans (h .buy)
  have hSell := signed_le_exposure.trans (h .sell)
  rw [Side.signed_buy] at hBuy
  rw [Side.signed_sell] at hSell
  exact abs_le.mpr ⟨by omega, hBuy⟩

theorem openQuantity_congr (hOrders : b'.orders = b.orders) (hCancelled : b'.cancelled = b.cancelled)
    (hFilled : b'.filledQty = b.filledQty) (c : ContractSymbol) (side : Side) :
    b'.openQuantity c side = b.openQuantity c side := by
  have hOf : b'.openOf c side = b.openOf c side := by
    funext id order
    simp only [openOf, remaining, hCancelled, hFilled]
  rw [openQuantity, openQuantity, hOrders, hOf]

theorem openQuantity_of_core (hCore : b'.core = b.core) (c : ContractSymbol) (side : Side) :
    b'.openQuantity c side = b.openQuantity c side := by
  have hSame := sameCore hCore
  exact openQuantity_congr hSame.orders hSame.cancelled hSame.filledQty c side

theorem net_of_core (hCore : b'.core = b.core) (c : ContractSymbol) : b'.net c = b.net c := by
  rw [net, net, (sameCore hCore).positions]

theorem openQuantity_none (hConsistent : Consistent b)
    (h : ∀ id order filled, OpenOrder b id order filled → order.contract ≠ c) :
    b.openQuantity c side = 0 := by
  have hNone : b.orders.total (b.openOf c side) = b.orders.total fun _ _ => 0 := by
    refine Dict.total_congr _ fun id order hGet => ?_
    obtain ⟨filled, hFilled⟩ := hConsistent.tracked id order hGet
    unfold openOf remaining
    split_ifs with hOwn hCancelled
    · rfl
    · have hFull : ¬filled < order.quantity :=
        fun hLess => h id order filled ⟨hGet, hCancelled, hFilled, hLess⟩ hOwn.1
      rw [hFilled, Option.getD_some, max_eq_left (by omega)]
    · rfl
  rw [openQuantity, hNone]
  simp [Dict.total]

end Basics

/-! ## What a fill moves -/

/-- A fill takes a part out of the open quantity of one side, and moves the position by it or
leaves the position alone. -/
structure FillMove (b b' : MockBroker) (c : ContractSymbol) (side : Side) (counted moved : ℤ) :
    Prop where
  nonneg : 0 ≤ counted
  moved_eq : moved = 0 ∨ moved = counted
  quantity : ∀ c' side', b'.openQuantity c' side' =
    b.openQuantity c' side' - if c' = c ∧ side' = side then counted else 0
  net : ∀ c', b'.net c' = b.net c' + if c' = c then side.signed moved else 0

section Moves

variable {b b' : MockBroker}

theorem FillMove.exposure_le {c : ContractSymbol} {side : Side} {counted moved : ℤ}
    (h : FillMove b b' c side counted moved) (c' : ContractSymbol) (side' : Side) :
    b'.exposure c' side' ≤ b.exposure c' side' := by
  have hNonneg := h.nonneg
  rw [exposure, exposure, h.quantity, h.net]
  by_cases hc : c' = c
  · subst hc
    rcases h.moved_eq with rfl | rfl <;> cases side <;> cases side' <;> simp <;> omega
  · simp [hc]

theorem openQuantity_fill {id : BrokerOrderId} {order : Order} {filled actual : ℤ}
    (hOrder : b.orders.get? id = some order) (hFilled : b.filledQty.get? id = some filled)
    (hOpen : id ∉ b.cancelled) (hPos : 0 ≤ actual) (hLe : actual ≤ order.quantity - filled)
    (hOrders : b'.orders = b.orders) (hCancelled : b'.cancelled = b.cancelled)
    (hCount : b'.filledQty = b.filledQty.set id (filled + actual)) (c : ContractSymbol)
    (side : Side) :
    b'.openQuantity c side =
      b.openQuantity c side - if c = order.contract ∧ side = order.side then actual else 0 := by
  have hOther : ∀ id' order', id' ≠ id → b'.openOf c side id' order' = b.openOf c side id' order' := by
    intro id' order' hId
    simp only [openOf, remaining, hCancelled, hCount, Dict.get?_set_of_ne _ _ hId]
  have hBefore : b.remaining id order = order.quantity - filled := by
    rw [remaining, if_neg hOpen, hFilled, Option.getD_some, max_eq_right (by omega)]
  have hAfter : b'.remaining id order = order.quantity - (filled + actual) := by
    rw [remaining, hCancelled, if_neg hOpen, hCount, Dict.get?_set_self, Option.getD_some,
      max_eq_right (by omega)]
  have hOwn : (order.contract = c ∧ order.side = side) ↔ c = order.contract ∧ side = order.side := by
    rw [eq_comm, @eq_comm _ order.side]
  rw [openQuantity, openQuantity, hOrders, Dict.total_replace _ hOrder hOther, openOf, openOf, hBefore,
    hAfter, if_congr hOwn rfl rfl, if_congr hOwn rfl rfl]
  split <;> omega

theorem fillOrder_move (id : BrokerOrderId) (price : ℚ) (quantity : Option ℤ) :
    ∃ c side counted moved,
      FillMove b ((fillOrder id price quantity).after b) c side counted moved := by
  cases hAccepted : b.acceptedFill id price quantity with
  | none =>
    obtain ⟨e, hError⟩ := fillOrder_refused hAccepted
    rw [after_of_error hError]
    exact ⟨"", .buy, 0, 0, le_rfl, .inl rfl, by simp, by simp⟩
  | some accepted =>
    obtain ⟨order, filled, actual⟩ := accepted
    obtain ⟨hOrder, hFilled, hOpen, -, -, hPos, hLe⟩ := acceptedFill_eq_some.mp hAccepted
    obtain ⟨hOrders, hCancelled, hCount⟩ := fillOrder_after_book hAccepted
    obtain ⟨s, hCore, hFill⟩ := fillOrder_after hAccepted
    have hQuantity := openQuantity_fill hOrder hFilled hOpen hPos.le hLe hOrders hCancelled hCount
    rcases hFill with rfl | hBooked
    · refine ⟨order.contract, order.side, actual, 0, hPos.le, .inl rfl, hQuantity, fun c => ?_⟩
      rw [net_of_core hCore]
      cases order.side <;> simp [withFilled, net]
    · refine ⟨order.contract, order.side, actual, actual, hPos.le, .inr rfl, hQuantity, fun c => ?_⟩
      rw [net_of_core hCore]
      exact hBooked.booked.net c

end Moves

/-! ## What the other calls do -/

/-- The position a roll leaves in a contract, once the front month can be closed. -/
def rolledNet (b : MockBroker) (front back : ContractSymbol) (backFill : ℚ) (c : ContractSymbol) :
    ℤ :=
  (if c = front then 0 else b.net c) +
    if b.TakesRoll front back backFill ∧ c = back then b.net front else 0

section Calls

variable {b : MockBroker} {c : ContractSymbol} {side : Side}

theorem openQuantity_place (hConsistent : Consistent b) (order : Order) :
    ((placeOrder order).after b).openQuantity c side =
      b.openQuantity c side +
        if order.orderType ∈ b.supportedOrderTypes ∧ order.contract = c ∧ order.side = side
        then order.quantity else 0 := by
  rw [openQuantity_of_core (placeOrder_after order)]
  by_cases hSupported : order.orderType ∈ b.supportedOrderTypes
  · obtain ⟨hNew, hOpen⟩ := hConsistent.next_fresh
    have hOld : b.orders.total ((b.withOrder order).openOf c side) =
        b.orders.total (b.openOf c side) := by
      refine Dict.total_congr _ fun id known hGet => ?_
      have hId : id ≠ ⟨b.nextOrderIdSeq + 1⟩ := by
        rintro rfl
        rw [hNew] at hGet
        cases hGet
      simp only [openOf, remaining, withOrder, Dict.get?_set_of_ne _ _ hId]
    have hRemaining : (b.withOrder order).remaining ⟨b.nextOrderIdSeq + 1⟩ order = order.quantity := by
      have := order.quantity_pos
      rw [remaining, withOrder, if_neg hOpen, Dict.get?_set_self, Option.getD_some,
        max_eq_right (by omega), sub_zero]
    rw [if_pos hSupported, openQuantity, openQuantity]
    have hOrders : (b.withOrder order).orders = b.orders.set ⟨b.nextOrderIdSeq + 1⟩ order := rfl
    rw [hOrders, Dict.total_set, hOld, hNew, Option.elim_none, openOf, hRemaining, sub_zero]
    simp [hSupported]
  · simp [hSupported]

theorem net_place (order : Order) : ((placeOrder order).after b).net c = b.net c := by
  rw [net_of_core (placeOrder_after order)]
  split <;> rfl

theorem openQuantity_cancel (hConsistent : Consistent b) (id : BrokerOrderId) :
    ((cancelOrder id).after b).openQuantity c side ≤ b.openQuantity c side := by
  rcases cancelOrder_cases hConsistent id with hSame | ⟨-, -, -, hCore⟩
  · rw [hSame]
  · rw [openQuantity_of_core hCore]
    refine List.sum_le_sum fun p _ => ?_
    unfold openOf remaining
    split_ifs with hOwn hNew hOld hOld
    · exact le_rfl
    · exact le_max_left _ _
    · exact absurd (Finset.mem_insert_of_mem hOld) hNew
    · exact le_rfl
    · exact le_rfl

theorem net_cancel (hConsistent : Consistent b) (id : BrokerOrderId) :
    ((cancelOrder id).after b).net c = b.net c := by
  rcases cancelOrder_cases hConsistent id with hSame | ⟨-, -, -, hCore⟩
  · rw [hSame]
  · rw [net_of_core hCore]
    rfl

theorem openQuantity_modify (hConsistent : Consistent b) {id : BrokerOrderId}
    {limitPrice stopPrice : Option ℚ} {quantity : Option ℤ} {order newOrder : Order}
    (hAccepted : b.acceptedModify id limitPrice stopPrice quantity = some (order, newOrder)) :
    ((modifyOrder id limitPrice stopPrice quantity).after b).openQuantity c side =
      b.openQuantity c side - b.openOf c side id order + b.openOf c side id newOrder := by
  have hOrder := (acceptedModify_eq_some.mp hAccepted).1
  obtain ⟨filled, hFilled⟩ := hConsistent.tracked id order hOrder
  rw [openQuantity_of_core (modifyOrder_after hAccepted hFilled), openQuantity, openQuantity]
  have hOf : openOf { b with orders := b.orders.set id newOrder } c side = b.openOf c side := rfl
  rw [hOf, Dict.total_set, hOrder, Option.elim_some]

theorem net_modify (hConsistent : Consistent b) {id : BrokerOrderId}
    {limitPrice stopPrice : Option ℚ} {quantity : Option ℤ} :
    ((modifyOrder id limitPrice stopPrice quantity).after b).net c = b.net c := by
  rcases modifyOrder_cases hConsistent id limitPrice stopPrice quantity with
    hSame | ⟨-, newOrder, -, hCore⟩
  · rw [hSame]
  · rw [net_of_core hCore]
    rfl

theorem net_roll (b : MockBroker) (front back : ContractSymbol) (frontFill backFill : ℚ) :
    let b' := (rollPosition front back frontFill backFill).after b
    ((b.net front = 0 ∨ ¬(multiplierFor front).isOk) ∧ b' = b) ∨
      (b.net front ≠ 0 ∧ (multiplierFor front).isOk) ∧
        ∀ c, b'.net c = b.rolledNet front back backFill c := by
  intro b'
  by_cases hFlat : b.net front = 0
  · exact .inl ⟨.inl hFlat, after_of_ok (rollPosition_flat hFlat)⟩
  by_cases hMult : (multiplierFor front).isOk
  · refine .inr ⟨⟨hFlat, hMult⟩, fun c => ?_⟩
    have hAbs : 0 < |b.net front| := abs_pos.mpr hFlat
    obtain ⟨s, -, hFront, hRun⟩ := rollPosition_front back frontFill
      backFill hFlat hMult
    have hClosed : s.net c = if c = front then 0 else b.net c := by
      rw [hFront.booked.net]
      split
      · rename_i hc
        rw [hc, add_neg_cancel]
      · exact add_zero _
    unfold rolledNet
    by_cases hTakes : b.TakesRoll front back backFill
    · obtain ⟨s', hApply, hBack⟩ := rollPosition_back front hFlat
        ((takesRoll_iff hFront).mpr hTakes)
      have hs' : b' = (carryTally front back).after s' := after_of_ok (hRun.trans hBack)
      have hBooked := (applyFillToPosition_ok hAbs hApply).booked.net c
      rw [Side.signed_reopen, hClosed] at hBooked
      simp only [hTakes, true_and]
      rw [hs']
      exact hBooked
    · obtain ⟨e, s', hRefusal, hError⟩ := rollPosition_back_refused front hFlat
        ((takesRoll_iff hFront).not.mpr hTakes)
      have hs' : b' = s' := after_of_error (hRun.trans hError)
      simp only [hTakes, false_and, if_false, add_zero]
      rw [hs', net, hRefusal.positions]
      exact hClosed
  · obtain ⟨e, hError⟩ := rollPosition_refused back frontFill
      backFill hFlat hMult
    exact .inl ⟨.inr hMult, after_of_error hError⟩

theorem openQuantity_roll {front back : ContractSymbol} {frontFill backFill : ℚ} :
    ((rollPosition front back frontFill backFill).after b).openQuantity c side =
      b.openQuantity c side :=
  openQuantity_congr rollPosition_sameBook.orders rollPosition_sameBook.cancelled
    rollPosition_sameBook.filledQty c side

end Calls

/-! ## Bounds on every exposure -/

def Covered (bound : ContractSymbol → Side → ℤ) (b : MockBroker) : Prop :=
  ∀ c side, b.exposure c side ≤ bound c side

/-- What the call adds to open quantity and positions stays within the bound. -/
def StaysCovered (bound : ContractSymbol → Side → ℤ) (b : MockBroker) : BrokerOp → Prop
  | .place order =>
    order.orderType ∉ b.supportedOrderTypes ∨
      b.exposure order.contract order.side + order.quantity ≤ bound order.contract order.side
  | .modify id limitPrice stopPrice quantity =>
    ∀ accepted ∈ b.acceptedModify id limitPrice stopPrice quantity,
      accepted.2.quantity ≤ accepted.1.quantity ∨
        b.exposure accepted.1.contract accepted.1.side - b.remaining id accepted.1 +
          b.remaining id accepted.2 ≤ bound accepted.1.contract accepted.1.side
  | .roll front back _ backFill =>
    b.net front = 0 ∨ ¬(multiplierFor front).isOk ∨ ∀ c ∈ [front, back], ∀ side ∈ [Side.buy, .sell],
      side.signed (b.rolledNet front back backFill c) + b.openQuantity c side ≤ bound c side
  | _ => True

instance (bound : ContractSymbol → Side → ℤ) (b : MockBroker) :
    DecidablePred (b.StaysCovered bound)
  | .place _ => inferInstanceAs (Decidable (_ ∨ _))
  | .cancel _ => inferInstanceAs (Decidable True)
  | .modify .. => inferInstanceAs (Decidable (∀ accepted ∈ _, _ ∨ _))
  | .fill .. => inferInstanceAs (Decidable True)
  | .advance .. => inferInstanceAs (Decidable True)
  | .roll .. => inferInstanceAs (Decidable (_ ∨ _ ∨ ∀ c ∈ _, ∀ side ∈ _, _))

section Bounds

variable {b b' : MockBroker} {bound : ContractSymbol → Side → ℤ}

theorem Covered.of_le (h : Covered bound b)
    (hLe : ∀ c side, b'.exposure c side ≤ b.exposure c side) : Covered bound b' :=
  fun c side => (hLe c side).trans (h c side)

theorem Covered.fill (h : Covered bound b) (id : BrokerOrderId) (price : ℚ) (quantity : Option ℤ) :
    Covered bound ((fillOrder id price quantity).after b) := by
  obtain ⟨c, side, counted, moved, hMove⟩ := fillOrder_move id price quantity
  exact h.of_le hMove.exposure_le

theorem remaining_mono (b : MockBroker) (id : BrokerOrderId) {order newOrder : Order}
    (h : newOrder.quantity ≤ order.quantity) : b.remaining id newOrder ≤ b.remaining id order := by
  unfold remaining
  split
  · exact le_rfl
  · exact max_le_max_left 0 (by omega)

theorem Covered.modify (h : Covered bound b) (hConsistent : Consistent b) {id : BrokerOrderId}
    {limitPrice stopPrice : Option ℚ} {quantity : Option ℤ}
    (hStays : b.StaysCovered bound (.modify id limitPrice stopPrice quantity)) :
    Covered bound ((modifyOrder id limitPrice stopPrice quantity).after b) := by
  cases hAccepted : b.acceptedModify id limitPrice stopPrice quantity with
  | none =>
    obtain ⟨e, hError⟩ := modifyOrder_refused hAccepted
    rwa [after_of_error hError]
  | some accepted =>
    obtain ⟨order, newOrder⟩ := accepted
    obtain ⟨hContract, hSide, -⟩ := Order.create_ok (acceptedModify_eq_some.mp hAccepted).2.2.2
    intro c side
    have hOld := h c side
    rw [exposure, net_modify hConsistent, openQuantity_modify hConsistent hAccepted, openOf, openOf,
      hContract, hSide]
    rw [exposure] at hOld
    by_cases hOwn : order.contract = c ∧ order.side = side
    · obtain ⟨rfl, rfl⟩ := hOwn
      simp only [and_self, if_true]
      have hCases : newOrder.quantity ≤ order.quantity ∨ b.exposure order.contract order.side -
          b.remaining id order + b.remaining id newOrder ≤ bound order.contract order.side :=
        hStays _ hAccepted
      rcases hCases with hLess | hFits
      · have := remaining_mono b id hLess
        omega
      · rw [exposure] at hFits
        omega
    · simp only [hOwn, if_false]
      omega

theorem Covered.roll (h : Covered bound b) {front back : ContractSymbol} {frontFill backFill : ℚ}
    (hStays : b.StaysCovered bound (.roll front back frontFill backFill)) :
    Covered bound ((rollPosition front back frontFill backFill).after b) := by
  rcases net_roll b front back frontFill backFill with ⟨-, hSame⟩ | ⟨⟨hOpen, hMult⟩, hNet⟩
  · rwa [hSame]
  · have hFits := (hStays.resolve_left hOpen).resolve_left (not_not.mpr hMult)
    intro c side
    rw [exposure, openQuantity_roll, hNet]
    by_cases hc : c ∈ [front, back]
    · exact hFits c hc side (by cases side <;> simp)
    · simp only [List.mem_cons, List.not_mem_nil, or_false, not_or] at hc
      rw [rolledNet, if_neg hc.1, if_neg fun hBoth => hc.2 hBoth.2, add_zero]
      exact h c side

/-- A call that stays within the bound keeps it, also when it raises. -/
theorem Covered.perform (h : Covered bound b) (hConsistent : Consistent b) {op : BrokerOp}
    (hStays : b.StaysCovered bound op) : Covered bound (op.perform.after b) := by
  cases op with
  | place order =>
    rw [BrokerOp.perform, after_forget]
    intro c side
    rw [exposure, net_place, openQuantity_place hConsistent, ← add_assoc]
    have hOld := h c side
    rw [exposure] at hOld
    split
    · rename_i hOwn
      obtain ⟨hSupported, rfl, rfl⟩ := hOwn
      exact hStays.resolve_left (not_not.mpr hSupported)
    · omega
  | cancel id =>
    refine h.of_le fun c side => ?_
    rw [BrokerOp.perform, exposure, exposure, net_cancel hConsistent]
    exact Int.add_le_add_left (openQuantity_cancel hConsistent id) _
  | modify id limitPrice stopPrice quantity => exact h.modify hConsistent hStays
  | fill id price quantity =>
    rw [BrokerOp.perform, after_forget]
    exact h.fill id price quantity
  | advance bar slippage =>
    rw [BrokerOp.perform, after_forget]
    exact advance_invariant (Covered bound) (fun id price s hs => hs.fill id price none) h
  | roll front back frontFill backFill =>
    rw [BrokerOp.perform, after_forget]
    exact h.roll hStays

end Bounds

end MockBroker

end Futur3.Execution
