import Futur3.Execution.OpenOrders
import Futur3.Prelude.OperationRun

/-! # The calls a client can make

Each method checks its arguments against the state before it writes. What the
checks accept is a function of the state; after it come the writes, the position
update and the event, and each of the last two can still raise.
-/

namespace Futur3.Execution

open Data Prelude Method

inductive BrokerOp where
  | place (order : Order)
  | cancel (id : BrokerOrderId)
  | modify (id : BrokerOrderId) (limitPrice stopPrice : Option ℚ) (quantity : Option ℤ)
  | fill (id : BrokerOrderId) (price : ℚ) (quantity : Option ℤ)
  | advance (bar : VerifiedBar) (slippage : Option SlippageModel)
  | roll (front back : ContractSymbol) (frontFill backFill : ℚ)

def BrokerOp.perform : BrokerOp → BrokerM PUnit
  | place order => (MockBroker.placeOrder order).forget
  | cancel id => MockBroker.cancelOrder id
  | modify id limitPrice stopPrice quantity =>
    MockBroker.modifyOrder id limitPrice stopPrice quantity
  | fill id price quantity => (MockBroker.fillOrder id price quantity).forget
  | advance bar slippage => (MockBroker.advance bar slippage).forget
  | roll front back frontFill backFill =>
    (MockBroker.rollPosition front back frontFill backFill).forget

namespace MockBroker

/-! ## Events -/

/-- The clock reads UTC, which `OrderEvent` insists on. -/
def ClockUtc (b : MockBroker) (read : ℕ) : Prop :=
  (b.config.clockNow (b.clockReads + read)).utcoffset = some 0

instance (b : MockBroker) (read : ℕ) : Decidable (b.ClockUtc read) :=
  inferInstanceAs (Decidable (_ = _))

section Emit

variable {id : BrokerOrderId} {client : String} {c : ContractSymbol} {eventType : OrderEventType}
  {fillPrice : Option ℚ} {fillQuantity : Option ℤ} {cum rem : ℤ} {b : MockBroker}

theorem emitEvent_utc (id : BrokerOrderId) (client : String) (c : ContractSymbol)
    (eventType : OrderEventType) (fillPrice : Option ℚ) (fillQuantity : Option ℤ) (cum rem : ℤ)
    (hClock : b.ClockUtc 0) (hCum : 0 ≤ cum) (hRem : 0 ≤ rem)
    (hQuantity : ∀ q ∈ fillQuantity, 0 ≤ q) :
    ∃ e, emitEvent id client c eventType fillPrice fillQuantity cum rem b =
        .ok e { b with clockReads := b.clockReads + 1, events := b.events ++ [e] } ∧
      OrderEvent.create id client c eventType fillPrice fillQuantity cum rem
        (b.config.clockNow b.clockReads) = .ok e := by
  have hAware : (b.config.clockNow b.clockReads).isAware = true := by
    rw [DateTime.isAware]
    exact hClock ▸ rfl
  have hUtc : ¬(b.config.clockNow b.clockReads).utcoffset ≠ some 0 := not_not.mpr hClock
  have hAny : ¬fillQuantity.any (· < 0) = true := by
    cases fillQuantity with
    | none => simp
    | some q => simpa using hQuantity q rfl
  have hCreate : ∃ e, OrderEvent.create id client c eventType fillPrice fillQuantity cum rem
      (b.config.clockNow b.clockReads) = .ok e := by
    unfold OrderEvent.create
    rw [dif_pos hAware, if_neg hUtc, dif_neg (not_lt.mpr hCum), dif_neg (not_lt.mpr hRem),
      if_neg hAny]
    exact ⟨_, rfl⟩
  obtain ⟨e, hCreate⟩ := hCreate
  refine ⟨e, ?_, hCreate⟩
  change (orRaise _ >>= _ : BrokerM OrderEvent) _ = _
  rw [hCreate]
  rfl

theorem emitEvent_other (id : BrokerOrderId) (client : String) (c : ContractSymbol)
    (eventType : OrderEventType) (fillPrice : Option ℚ) (fillQuantity : Option ℤ) (cum rem : ℤ)
    (hClock : ¬b.ClockUtc 0) :
    ∃ err, emitEvent id client c eventType fillPrice fillQuantity cum rem b =
      .error err { b with clockReads := b.clockReads + 1 } := by
  have hCreate : ∃ err, OrderEvent.create id client c eventType fillPrice fillQuantity cum rem
      (b.config.clockNow b.clockReads) = .error err := by
    unfold OrderEvent.create
    have hOther : (b.config.clockNow b.clockReads).utcoffset ≠ some 0 := hClock
    by_cases hAware : (b.config.clockNow b.clockReads).isAware = true
    · rw [dif_pos hAware, if_pos hOther]
      exact ⟨_, rfl⟩
    · rw [dif_neg hAware]
      exact ⟨_, rfl⟩
  obtain ⟨err, hCreate⟩ := hCreate
  refine ⟨.broker err, ?_⟩
  change (orRaise _ >>= _ : BrokerM OrderEvent) _ = _
  rw [hCreate]
  rfl

theorem emitEvent_reads {b' : MockBroker} {e : OrderEvent}
    (h : emitEvent id client c eventType fillPrice fillQuantity cum rem b = .ok e b') :
    b'.clockReads = b.clockReads + 1 := by
  simp only [emitEvent, bind_ok_iff, get_ok_iff, modify_ok_iff, orRaise_ok_iff, pure_ok_iff] at h
  obtain ⟨_, _, ⟨rfl, rfl⟩, _, _, rfl, event, _, ⟨-, rfl⟩, _, _, rfl, -, rfl⟩ := h
  rfl

theorem emitEvent_keeps {γ : Type} {part : MockBroker → γ}
    (hPart : ∀ (b : MockBroker) events reads,
      part { b with events := events, clockReads := reads } = part b) :
    Keeps part (emitEvent id client c eventType fillPrice fillQuantity cum rem) := by
  intro b
  have hTurn : (emitEvent id client c eventType fillPrice fillQuantity cum rem) b =
      (orRaise (OrderEvent.create id client c eventType fillPrice fillQuantity cum rem
        (b.config.clockNow b.clockReads)) >>= fun event => do
          modify fun b => { b with events := b.events ++ [event] }
          pure event : BrokerM OrderEvent) { b with clockReads := b.clockReads + 1 } := rfl
  rw [hTurn]
  cases OrderEvent.create id client c eventType fillPrice fillQuantity cum rem
      (b.config.clockNow b.clockReads) with
  | ok e => exact hPart b (b.events ++ [e]) (b.clockReads + 1)
  | error err => exact hPart b b.events (b.clockReads + 1)

end Emit

/-! ## Positions -/

/-- The slot of a contract takes a fill: the position it would leave is valid, and closing
needs the contract's multiplier. -/
def TakesFill (b : MockBroker) (c : ContractSymbol) (delta : ℤ) (price : ℚ) : Prop :=
  match b.positions.get? c with
  | none => 0 < price
  | some p =>
    if p.quantity = 0 then 0 < price
    else if (0 < p.quantity ∧ 0 < delta) ∨ (p.quantity < 0 ∧ delta < 0) then
      0 < p.avgEntryPrice * |p.quantity| + price * |delta|
    else (multiplierFor c).isOk ∧ (|p.quantity| < |delta| → 0 < price)

instance (b : MockBroker) (c : ContractSymbol) (delta : ℤ) (price : ℚ) :
    Decidable (b.TakesFill c delta price) := by
  unfold TakesFill
  exact match b.positions.get? c with
    | none => inferInstance
    | some _ => inferInstance

theorem position_error_imp {c : ContractSymbol} {quantity : ℤ}
    {avg unrealized realized margin : ℚ} {e : BrokerFailure} (hMargin : 0 ≤ margin)
    (h : Position.create c quantity avg unrealized realized margin = .error e) :
    quantity ≠ 0 ∧ avg ≤ 0 := by
  unfold Position.create at h
  rw [dif_neg (not_lt.mpr hMargin)] at h
  split_ifs at h with hBoth
  · exact hBoth
  · cases h

theorem position_ok_imp {c : ContractSymbol} {quantity : ℤ}
    {avg unrealized realized margin : ℚ} {p : Position}
    (h : Position.create c quantity avg unrealized realized margin = .ok p)
    (hQuantity : quantity ≠ 0) : 0 < avg := by
  unfold Position.create at h
  split_ifs at h with hMargin hBoth
  exact not_le.mp fun hAvg => hBoth ⟨hQuantity, hAvg⟩

theorem takesFill_of_pos {b : MockBroker} {c : ContractSymbol} {delta : ℤ} {price : ℚ}
    (hDelta : delta ≠ 0) (hPrice : 0 < price) :
    b.TakesFill c delta price ↔ (multiplierFor c).isOk ∨ 0 ≤ b.net c * delta := by
  unfold TakesFill
  cases hGet : b.positions.get? c with
  | none => simp [net, hGet, hPrice]
  | some p =>
    have hNet : b.net c = p.quantity := by simp [net, hGet]
    rw [hNet]
    dsimp only
    split_ifs with hFlat hSame
    · simp [hFlat, hPrice]
    · have hAvg := p.entry_pos hFlat
      have hSize : (0 : ℚ) < ((|p.quantity| : ℤ) : ℚ) := by exact_mod_cast abs_pos.mpr hFlat
      have hAdd : (0 : ℚ) < ((|delta| : ℤ) : ℚ) := by exact_mod_cast abs_pos.mpr hDelta
      have hNonneg : 0 ≤ p.quantity * delta := by
        rcases hSame with ⟨hq, hd⟩ | ⟨hq, hd⟩
        · exact (mul_pos hq hd).le
        · exact (mul_pos_of_neg_of_neg hq hd).le
      exact iff_of_true (by positivity) (.inr hNonneg)
    · have hOpposed : ¬0 ≤ p.quantity * delta := by
        rw [not_le, mul_neg_iff]
        omega
      simp [hOpposed, hPrice]

theorem isOk_iff {ε α : Type} {x : Except ε α} : x.isOk = true ↔ ∃ a, x = .ok a := by
  cases x <;> simp [Except.isOk, Except.toBool]

section Apply

variable {c : ContractSymbol} {side : Side} {quantity : ℤ} {price : ℚ} {isRoll : Bool}
  {b : MockBroker}

theorem setPosition_error_iff {x : Except BrokerFailure Position} {b' : MockBroker} {e : Raised} :
    setPosition c x b = .error e b' ↔ ∃ e', x = .error e' ∧ e = .broker e' ∧ b = b' := by
  cases x with
  | ok p =>
    constructor
    · intro h
      cases h
    · rintro ⟨e', h, -⟩
      cases h
  | error e' =>
    change EStateM.Result.error (.broker e') b = .error e b' ↔ _
    constructor
    · intro h
      cases h
      exact ⟨e', rfl, rfl, rfl⟩
    · rintro ⟨e'', h, rfl, rfl⟩
      cases h
      rfl

theorem mapError_error_iff {ε ε' α : Type} {f : ε → ε'} {x : Except ε α} {e : ε'} :
    x.mapError f = .error e ↔ ∃ e', x = .error e' ∧ f e' = e := by
  cases x <;> simp [Except.mapError]

theorem bookTrade_error_iff {b' : MockBroker} {e : Raised} :
    bookTrade c b = .error e b' ↔ False := by
  rw [bookTrade, modify_error_iff]

/-- What a refused fill leaves alone: everything but the day's result and its tallies. -/
structure Refusal (b b' : MockBroker) (c : ContractSymbol) (price : ℚ) : Prop
    extends SameBook b b' where
  positions : b'.positions = b.positions
  untouched : 0 < price ∨ ¬(multiplierFor c).isOk → b' = b

theorem flips_iff {q delta : ℤ} (hOpen : q ≠ 0)
    (hOpposite : ¬((0 < q ∧ 0 < delta) ∨ (q < 0 ∧ delta < 0))) :
    |q| < |delta| ↔ ¬q + delta = 0 ∧ ¬(0 < q ↔ 0 < q + delta) := by
  rcases abs_cases q with ⟨hq, _⟩ | ⟨hq, _⟩ <;> rcases abs_cases delta with ⟨hd, _⟩ | ⟨hd, _⟩ <;>
    rw [hq, hd] <;> omega

theorem closeAgainst_ok_takes {existing : Position} {delta : ℤ} {b' : MockBroker} {u : PUnit}
    (hOpen : existing.quantity ≠ 0)
    (hOpposite : ¬((0 < existing.quantity ∧ 0 < delta) ∨ (existing.quantity < 0 ∧ delta < 0)))
    (h : closeAgainst c existing delta price isRoll b = .ok u b') :
    (multiplierFor c).isOk ∧ (|existing.quantity| < |delta| → 0 < price) := by
  simp only [closeAgainst, bind_ok_iff, liftExcept_ok_iff, mapError_ok_iff, modify_ok_iff,
    ite_ok_iff, setPosition_ok_iff] at h
  obtain ⟨mult, b₁, ⟨hMult, rfl⟩, _, b₂, hb₂, h⟩ := h
  refine ⟨isOk_iff.mpr ⟨mult, hMult⟩, fun hOver => ?_⟩
  obtain ⟨hNotFlat, hFlip⟩ := (flips_iff hOpen hOpposite).mp hOver
  rcases h with ⟨hFlat, -⟩ | ⟨-, ⟨-, _, s, -, p, hCreate, -⟩ | ⟨hKeep, -⟩⟩
  · exact absurd hFlat hNotFlat
  · exact position_ok_imp hCreate hNotFlat
  · exact absurd (not_not.mp hKeep) hFlip

theorem closeAgainst_error {existing : Position} {delta : ℤ} {b' : MockBroker} {e : Raised}
    (hOpen : existing.quantity ≠ 0)
    (hOpposite : ¬((0 < existing.quantity ∧ 0 < delta) ∨ (existing.quantity < 0 ∧ delta < 0)))
    (h : closeAgainst c existing delta price isRoll b = .error e b') :
    Refusal b b' c price ∧
      ¬((multiplierFor c).isOk ∧ (|existing.quantity| < |delta| → 0 < price)) := by
  simp only [closeAgainst, bind_error_iff, liftExcept_error_iff, mapError_error_iff,
    liftExcept_ok_iff, mapError_ok_iff, modify_error_iff, modify_ok_iff, ite_error_iff,
    setPosition_error_iff, bookTrade_error_iff, false_or] at h
  rcases h with ⟨⟨e', hMult, -⟩, rfl⟩ | ⟨mult, b₁, ⟨hMult, rfl⟩, _, b₂, hb₂, h⟩
  · refine ⟨⟨SameBook.refl b, rfl, fun _ => rfl⟩, fun hTakes => ?_⟩
    obtain ⟨mult, hOk⟩ := isOk_iff.mp hTakes.1
    rw [hMult] at hOk
    cases hOk
  have hSame : SameBook b b₂ := hb₂ ▸ ⟨rfl, rfl, rfl, rfl, rfl, rfl, rfl⟩
  have hPositions : b₂.positions = b.positions := hb₂ ▸ rfl
  rcases h with ⟨hFlat, ⟨-, e', hCreate, -⟩ | ⟨-, _, s, -, e', hCreate, -⟩⟩ |
    ⟨hNotFlat, ⟨hFlip, _, s, hBook, e', hCreate, -, rfl⟩ | ⟨hKeep, e', hCreate, -⟩⟩
  · exact absurd rfl (position_error_imp le_rfl hCreate).1
  · exact absurd rfl (position_error_imp le_rfl hCreate).1
  · have hPrice := (position_error_imp existing.margin_nonneg hCreate).2
    obtain ⟨hSameBook, hPositionsBook, -⟩ := bookTrade_ok hBook
    refine ⟨⟨hSame.trans hSameBook, hPositionsBook.trans hPositions, ?_⟩, fun hTakes => ?_⟩
    · rintro (hPos | hUnknown)
      · exact absurd hPos (not_lt.mpr hPrice)
      · exact absurd (isOk_iff.mpr ⟨mult, hMult⟩) hUnknown
    · exact absurd (hTakes.2 ((flips_iff hOpen hOpposite).mpr ⟨hNotFlat, hFlip⟩)) (not_lt.mpr hPrice)
  · exact absurd (existing.entry_pos hOpen)
      (not_lt.mpr (position_error_imp existing.margin_nonneg hCreate).2)

theorem applyFill_ok_takes {b' : MockBroker} {u : PUnit} (hQuantity : 0 < quantity)
    (h : applyFillToPosition c side quantity price isRoll b = .ok u b') :
    b.TakesFill c (side.signed quantity) price := by
  have hDelta : side.signed quantity ≠ 0 := by
    cases side <;> simp <;> omega
  simp only [applyFillToPosition, bind_ok_iff, get_ok_iff] at h
  obtain ⟨_, _, ⟨rfl, rfl⟩, h⟩ := h
  unfold TakesFill
  cases hExisting : b.positions.get? c with
  | none =>
    simp only [hExisting, setPosition_ok_iff] at h
    obtain ⟨p, hCreate, -⟩ := h
    exact position_ok_imp hCreate hDelta
  | some existing =>
    simp only [hExisting, ite_ok_iff, setPosition_ok_iff] at h
    rcases h with ⟨hFlat, p, hCreate, -⟩ | ⟨hOpen, ⟨hSameSide, p, hCreate, -⟩ | ⟨hOpposite, h⟩⟩
    · simp only [hFlat, if_true]
      exact position_ok_imp hCreate hDelta
    · have hNew : existing.quantity + side.signed quantity ≠ 0 := by
        rcases hSameSide with ⟨_, _⟩ | ⟨_, _⟩ <;> omega
      have hAvg := position_ok_imp hCreate hNew
      have hSize : (0 : ℚ) < ((|existing.quantity + side.signed quantity| : ℤ) : ℚ) := by
        exact_mod_cast abs_pos.mpr hNew
      simp only [hOpen, hSameSide, if_false, if_true]
      exact (div_pos_iff_of_pos_right hSize).mp hAvg
    · simp only [hOpen, hOpposite, if_false]
      exact closeAgainst_ok_takes hOpen hOpposite h

theorem applyFill_error {b' : MockBroker} {e : Raised} (hQuantity : 0 < quantity)
    (h : applyFillToPosition c side quantity price isRoll b = .error e b') :
    Refusal b b' c price ∧ ¬b.TakesFill c (side.signed quantity) price := by
  have hDelta : side.signed quantity ≠ 0 := by
    cases side <;> simp <;> omega
  simp only [applyFillToPosition, bind_error_iff, get_error_iff, get_ok_iff, false_or] at h
  obtain ⟨_, _, ⟨rfl, rfl⟩, h⟩ := h
  have hNone : ∀ s, b = s → Refusal b s c price := by
    rintro s rfl
    exact ⟨SameBook.refl b, rfl, fun _ => rfl⟩
  unfold TakesFill
  cases hExisting : b.positions.get? c with
  | none =>
    simp only [hExisting, setPosition_error_iff] at h
    obtain ⟨e', hCreate, -, hSame⟩ := h
    exact ⟨hNone b' hSame, not_lt.mpr (position_error_imp le_rfl hCreate).2⟩
  | some existing =>
    simp only [hExisting, ite_error_iff, setPosition_error_iff] at h
    rcases h with ⟨hFlat, e', hCreate, -, hSame⟩ |
      ⟨hOpen, ⟨hSameSide, e', hCreate, -, hSame⟩ | ⟨hOpposite, h⟩⟩
    · simp only [hFlat, if_true]
      exact ⟨hNone b' hSame, not_lt.mpr (position_error_imp le_rfl hCreate).2⟩
    · obtain ⟨hNew, hAvg⟩ := position_error_imp existing.margin_nonneg hCreate
      have hSize : (0 : ℚ) < ((|existing.quantity + side.signed quantity| : ℤ) : ℚ) := by
        exact_mod_cast abs_pos.mpr hNew
      simp only [hOpen, hSameSide, if_false, if_true]
      refine ⟨hNone b' hSame, fun hPos => ?_⟩
      exact absurd ((div_pos_iff_of_pos_right hSize).mpr hPos) (not_lt.mpr hAvg)
    · simp only [hOpen, hOpposite, if_false]
      exact closeAgainst_error hOpen hOpposite h

/-- A fill is booked exactly when the slot takes it. -/
theorem applyFill_returns_iff (b : MockBroker) (isRoll : Bool) (hQuantity : 0 < quantity) :
    (∃ b', applyFillToPosition c side quantity price isRoll b = .ok ⟨⟩ b') ↔
      b.TakesFill c (side.signed quantity) price := by
  constructor
  · rintro ⟨b', h⟩
    exact applyFill_ok_takes hQuantity h
  · intro hTakes
    cases h : applyFillToPosition c side quantity price isRoll b with
    | ok u b' => exact ⟨b', rfl⟩
    | error e b' => exact absurd hTakes (applyFill_error hQuantity h).2

end Apply

/-! ## What the checks accept -/

/-- The modified order, when `modify_order` gets past its checks. -/
def acceptedModify (b : MockBroker) (id : BrokerOrderId) (limitPrice stopPrice : Option ℚ)
    (quantity : Option ℤ) : Option (Order × Order) :=
  if limitPrice = none ∧ stopPrice = none ∧ quantity = none then none
  else
    (b.orders.get? id).bind fun order =>
      if id ∈ b.cancelled then none
      else
        (Order.create order.contract order.side (quantity.getD order.quantity) order.orderType
          (limitPrice.or order.limitPrice) (stopPrice.or order.stopPrice) order.duration
          order.parentOrderId order.ocoGroupId order.clientOrderId).toOption.map (order, ·)

/-- The order, what was filled of it and what this fill adds, when `fill_order` gets past its
checks. -/
def acceptedFill (b : MockBroker) (id : BrokerOrderId) (price : ℚ) (quantity : Option ℤ) :
    Option (Order × ℤ × ℤ) :=
  (b.orders.get? id).bind fun order =>
    (b.filledQty.get? id).bind fun filled =>
      let actual := quantity.getD (order.quantity - filled)
      if id ∈ b.cancelled ∨ price ≤ 0 ∨ actual ≤ 0 ∨ order.quantity - filled < actual then none
      else some (order, filled, actual)

section Entry

variable {id : BrokerOrderId} {b : MockBroker}

theorem guard_raises {α β : Type} {p : Prop} [Decidable p] {e : BrokerFailure}
    {f : α → BrokerM β} {x : BrokerM β} (h : p) :
    (if p then (raise e >>= f) else x) b = .error (.broker e) b := by
  rw [if_pos h]
  rfl

theorem toOption_eq_some {ε α : Type} {x : Except ε α} {a : α} (h : x.toOption = some a) :
    x = .ok a := by
  cases x with
  | ok a' => exact congrArg _ (Option.some.inj h)
  | error e => cases h

theorem lookupOrder_missing (h : b.orders.get? id = none) :
    lookupOrder id b = .error (.broker (.orderNotFound id)) b := by
  unfold lookupOrder
  rw [get_bind, h]
  rfl

theorem lookupFilled_missing (h : b.filledQty.get? id = none) :
    lookupFilled id b = .error (.keyError id) b := by
  unfold lookupFilled
  rw [get_bind, h]
  rfl

def withOrder (b : MockBroker) (order : Order) : MockBroker :=
  { b with nextOrderIdSeq := b.nextOrderIdSeq + 1
           orders := b.orders.set ⟨b.nextOrderIdSeq + 1⟩ order
           filledQty := b.filledQty.set ⟨b.nextOrderIdSeq + 1⟩ 0 }

theorem placeOrder_refused {order : Order} (h : order.orderType ∉ b.supportedOrderTypes) :
    placeOrder order b =
      .error (.broker (.orderTypeUnsupported order.orderType b.supportedOrderTypes)) b := by
  rw [placeOrder, get_bind, guard_raises h]

theorem placeOrder_accepted {order : Order} (h : order.orderType ∈ b.supportedOrderTypes) :
    placeOrder order b = (do
      let client := clientId order (anonymousId (b.nextOrderIdSeq + 1))
      let _ ← emitEvent ⟨b.nextOrderIdSeq + 1⟩ client order.contract .submitted none none 0 order.quantity
      let _ ← emitEvent ⟨b.nextOrderIdSeq + 1⟩ client order.contract .ack none none 0 order.quantity
      pure ⟨b.nextOrderIdSeq + 1⟩ : BrokerM BrokerOrderId) (b.withOrder order) := by
  rw [placeOrder, get_bind, if_neg (not_not.mpr h)]
  rfl

theorem cancelOrder_refused (h : b.orders.get? id = none ∨ id ∈ b.cancelled) :
    ∃ e, cancelOrder id b = .error (.broker e) b ∧ e.isBrokerError = true := by
  cases hOrder : b.orders.get? id with
  | none =>
    rw [cancelOrder, bind_of_error (lookupOrder_missing hOrder)]
    exact ⟨_, rfl, rfl⟩
  | some order =>
    have hCancelled : id ∈ b.cancelled := by simpa [hOrder] using h
    rw [cancelOrder, bind_of_ok (lookupOrder_ok_iff.mpr ⟨hOrder, rfl⟩), get_bind,
      guard_raises hCancelled]
    exact ⟨_, rfl, rfl⟩

theorem cancelOrder_accepted {order : Order} {filled : ℤ} (hOrder : b.orders.get? id = some order)
    (hOpen : id ∉ b.cancelled) (hFilled : b.filledQty.get? id = some filled) :
    cancelOrder id b = (emitEvent id (clientId order "anon") order.contract .cancelled none none
      filled (max 0 (order.quantity - filled))).forget
        { b with cancelled := insert id b.cancelled } := by
  rw [cancelOrder, bind_of_ok (lookupOrder_ok_iff.mpr ⟨hOrder, rfl⟩), get_bind, if_neg hOpen]
  dsimp only
  rw [modify_bind]
  exact bind_of_ok (lookupFilled_ok_iff.mpr ⟨hFilled, rfl⟩)

theorem modifyOrder_refused {limitPrice stopPrice : Option ℚ} {quantity : Option ℤ}
    (h : b.acceptedModify id limitPrice stopPrice quantity = none) :
    ∃ e, modifyOrder id limitPrice stopPrice quantity b = .error (.broker e) b := by
  unfold acceptedModify at h
  by_cases hEmpty : limitPrice = none ∧ stopPrice = none ∧ quantity = none
  · rw [modifyOrder, guard_raises hEmpty]
    exact ⟨_, rfl⟩
  rw [if_neg hEmpty] at h
  rw [modifyOrder, if_neg hEmpty]
  dsimp only
  cases hOrder : b.orders.get? id with
  | none =>
    rw [bind_of_error (lookupOrder_missing hOrder)]
    exact ⟨_, rfl⟩
  | some order =>
    rw [hOrder, Option.bind_some] at h
    rw [bind_of_ok (lookupOrder_ok_iff.mpr ⟨hOrder, rfl⟩), get_bind]
    by_cases hCancelled : id ∈ b.cancelled
    · rw [guard_raises hCancelled]
      exact ⟨_, rfl⟩
    · rw [if_neg hCancelled] at h ⊢
      cases hCreate : Order.create order.contract order.side (quantity.getD order.quantity)
          order.orderType (limitPrice.or order.limitPrice) (stopPrice.or order.stopPrice)
          order.duration order.parentOrderId order.ocoGroupId order.clientOrderId with
      | ok newOrder => rw [hCreate] at h; cases h
      | error e => exact ⟨e, rfl⟩

theorem acceptedModify_eq_some {limitPrice stopPrice : Option ℚ} {quantity : Option ℤ}
    {order newOrder : Order} :
    b.acceptedModify id limitPrice stopPrice quantity = some (order, newOrder) ↔
      b.orders.get? id = some order ∧ id ∉ b.cancelled ∧
        ¬(limitPrice = none ∧ stopPrice = none ∧ quantity = none) ∧
        Order.create order.contract order.side (quantity.getD order.quantity) order.orderType
          (limitPrice.or order.limitPrice) (stopPrice.or order.stopPrice) order.duration
          order.parentOrderId order.ocoGroupId order.clientOrderId = .ok newOrder := by
  simp only [acceptedModify, Option.ite_none_left_eq_some, Option.bind_eq_some_iff,
    Option.map_eq_some_iff, Prod.mk.injEq]
  constructor
  · rintro ⟨hSome, order', hOrder, hOpen, newOrder', hCreate, rfl, rfl⟩
    exact ⟨hOrder, hOpen, hSome, toOption_eq_some hCreate⟩
  · rintro ⟨hOrder, hOpen, hSome, hCreate⟩
    exact ⟨hSome, order, hOrder, hOpen, newOrder, by rw [hCreate]; rfl, rfl, rfl⟩

theorem modifyOrder_accepted {limitPrice stopPrice : Option ℚ} {quantity : Option ℤ}
    {order newOrder : Order} {filled : ℤ}
    (h : b.acceptedModify id limitPrice stopPrice quantity = some (order, newOrder))
    (hFilled : b.filledQty.get? id = some filled) :
    modifyOrder id limitPrice stopPrice quantity b =
      (emitEvent id (clientId order "anon") order.contract .modified none none filled
        (max 0 (newOrder.quantity - filled))).forget
          { b with orders := b.orders.set id newOrder } := by
  obtain ⟨hOrder, hOpen, hSome, hCreate⟩ := acceptedModify_eq_some.mp h
  rw [modifyOrder, if_neg hSome]
  dsimp only
  rw [bind_of_ok (lookupOrder_ok_iff.mpr ⟨hOrder, rfl⟩), get_bind, if_neg hOpen,
    bind_of_ok (orRaise_ok_iff.mpr ⟨hCreate, rfl⟩), modify_bind]
  exact bind_of_ok (lookupFilled_ok_iff.mpr ⟨hFilled, rfl⟩)

theorem acceptedFill_eq_some {price : ℚ} {quantity : Option ℤ} {order : Order} {filled actual : ℤ} :
    b.acceptedFill id price quantity = some (order, filled, actual) ↔
      b.orders.get? id = some order ∧ b.filledQty.get? id = some filled ∧ id ∉ b.cancelled ∧
        0 < price ∧ actual = quantity.getD (order.quantity - filled) ∧ 0 < actual ∧
        actual ≤ order.quantity - filled := by
  simp only [acceptedFill, Option.bind_eq_some_iff, Option.ite_none_left_eq_some, not_or, not_le,
    not_lt, Option.some.injEq, Prod.mk.injEq]
  constructor
  · rintro ⟨order', hOrder, filled', hFilled, ⟨hCancelled, hPrice, hPos, hLe⟩, rfl, rfl, rfl⟩
    exact ⟨hOrder, hFilled, hCancelled, hPrice, rfl, hPos, hLe⟩
  · rintro ⟨hOrder, hFilled, hCancelled, hPrice, rfl, hPos, hLe⟩
    exact ⟨order, hOrder, filled, hFilled, ⟨hCancelled, hPrice, hPos, hLe⟩, rfl, rfl, rfl⟩

theorem fillOrder_refused {price : ℚ} {quantity : Option ℤ}
    (h : b.acceptedFill id price quantity = none) :
    ∃ e, fillOrder id price quantity b = .error e b := by
  rw [fillOrder]
  cases hOrder : b.orders.get? id with
  | none =>
    rw [bind_of_error (lookupOrder_missing hOrder)]
    exact ⟨_, rfl⟩
  | some order =>
    rw [bind_of_ok (lookupOrder_ok_iff.mpr ⟨hOrder, rfl⟩), get_bind]
    by_cases hCancelled : id ∈ b.cancelled
    · rw [guard_raises hCancelled]
      exact ⟨_, rfl⟩
    rw [if_neg hCancelled]
    dsimp only
    by_cases hPrice : price ≤ 0
    · rw [guard_raises hPrice]
      exact ⟨_, rfl⟩
    rw [if_neg hPrice]
    cases hFilled : b.filledQty.get? id with
    | none =>
      rw [bind_of_error (lookupFilled_missing hFilled)]
      exact ⟨_, rfl⟩
    | some filled =>
      rw [bind_of_ok (lookupFilled_ok_iff.mpr ⟨hFilled, rfl⟩)]
      by_cases hRemaining : order.quantity - filled ≤ 0
      · rw [guard_raises hRemaining]
        exact ⟨_, rfl⟩
      rw [if_neg hRemaining]
      by_cases hActual : quantity.getD (order.quantity - filled) ≤ 0
      · rw [guard_raises hActual]
        exact ⟨_, rfl⟩
      rw [if_neg hActual]
      by_cases hOver : quantity.getD (order.quantity - filled) > order.quantity - filled
      · rw [guard_raises hOver]
        exact ⟨_, rfl⟩
      · have hSome := acceptedFill_eq_some.mpr ⟨hOrder, hFilled, hCancelled, not_le.mp hPrice, rfl,
          not_le.mp hActual, not_lt.mp hOver⟩
        rw [h] at hSome
        cases hSome

theorem fillOrder_accepted {price : ℚ} {quantity : Option ℤ} {order : Order} {filled actual : ℤ}
    (h : b.acceptedFill id price quantity = some (order, filled, actual)) :
    fillOrder id price quantity b = (do
      applyFillToPosition order.contract order.side actual price false
      emitEvent id (clientId order "anon") order.contract
        (if order.quantity - (filled + actual) = 0 then .filled else .partialFill) (some price)
        (some actual) (filled + actual) (order.quantity - (filled + actual)) : BrokerM OrderEvent)
          { b with filledQty := b.filledQty.set id (filled + actual) } := by
  obtain ⟨hOrder, hFilled, hOpen, hPrice, rfl, hPos, hLe⟩ := acceptedFill_eq_some.mp h
  have hRemaining : ¬order.quantity - filled ≤ 0 := not_le.mpr (hPos.trans_le hLe)
  rw [fillOrder, bind_of_ok (lookupOrder_ok_iff.mpr ⟨hOrder, rfl⟩), get_bind, if_neg hOpen]
  dsimp only
  rw [if_neg (not_le.mpr hPrice)]
  rw [bind_of_ok (lookupFilled_ok_iff.mpr ⟨hFilled, rfl⟩), if_neg hRemaining]
  rw [if_neg (not_le.mpr hPos)]
  rw [if_neg (not_lt.mpr hLe)]
  rfl

/-! ## The bar loop -/

theorem backtestFillPrice_ok (order : Order) (bar : VerifiedBar) :
    ∃ price, backtestFillPrice order bar = .ok price := by
  unfold backtestFillPrice
  cases hType : order.orderType with
  | lmt =>
    obtain ⟨limit, hLimit⟩ := Option.isSome_iff_exists.mp (order.limit_present (by rw [hType]; rfl))
    simp only [hLimit]
    exact ⟨_, rfl⟩
  | stp =>
    obtain ⟨stop, hStop⟩ := Option.isSome_iff_exists.mp (order.stop_present (by rw [hType]; rfl))
    simp only [hStop]
    exact ⟨_, rfl⟩
  | _ => exact ⟨_, rfl⟩

/-- An order that this bar fills: what remains of it and the price before slippage. -/
def dueFill (b : MockBroker) (bar : VerifiedBar) (id : BrokerOrderId) : Option (Order × ℤ × ℚ) :=
  if id ∈ b.cancelled then none
  else
    (b.orders.get? id).bind fun order =>
      (b.filledQty.get? id).bind fun filled =>
        if order.contract ≠ bar.contract ∨ order.quantity ≤ filled then none
        else
          (backtestFillPrice order bar).toOption.join.map
            (order, order.quantity - filled, ·)

theorem dueFill_eq_some {bar : VerifiedBar} {order : Order} {remaining : ℤ} {price : ℚ} :
    b.dueFill bar id = some (order, remaining, price) ↔
      b.orders.get? id = some order ∧ b.filledQty.get? id = some (order.quantity - remaining) ∧
        id ∉ b.cancelled ∧ order.contract = bar.contract ∧ 0 < remaining ∧
        backtestFillPrice order bar = .ok (some price) := by
  obtain ⟨fillPrice, hPrice⟩ := backtestFillPrice_ok order bar
  simp only [dueFill, Option.ite_none_left_eq_some, Option.bind_eq_some_iff, not_or, not_not, not_le,
    Option.map_eq_some_iff, Prod.mk.injEq, Option.join_eq_some_iff]
  constructor
  · rintro ⟨hOpen, order', hOrder, filled, hFilled, ⟨hContract, hLess⟩, price', hJoin, rfl, rfl, rfl⟩
    refine ⟨hOrder, ?_, hOpen, hContract, by omega, toOption_eq_some hJoin⟩
    rw [sub_sub_cancel]
    exact hFilled
  · rintro ⟨hOrder, hFilled, hOpen, hContract, hPos, hDue⟩
    refine ⟨hOpen, order, hOrder, _, hFilled, ⟨hContract, by omega⟩, price, ?_, rfl, by omega, rfl⟩
    rw [hDue]
    rfl

theorem advanceOrder_idle {bar : VerifiedBar} (slippage : Option SlippageModel) {order : Order}
    {filled : ℤ} (hOrder : b.orders.get? id = some order) (hFilled : b.filledQty.get? id = some filled)
    (h : b.dueFill bar id = none) : advanceOrder bar slippage id b = .ok [] b := by
  rw [advanceOrder, get_bind]
  by_cases hCancelled : id ∈ b.cancelled
  · rw [if_pos hCancelled]
    rfl
  rw [if_neg hCancelled, bind_of_ok (lookupOrder_ok_iff.mpr ⟨hOrder, rfl⟩)]
  by_cases hOther : order.contract ≠ bar.contract
  · rw [if_pos hOther]
    rfl
  rw [if_neg hOther, bind_of_ok (lookupFilled_ok_iff.mpr ⟨hFilled, rfl⟩)]
  by_cases hFull : filled ≥ order.quantity
  · rw [if_pos hFull]
    rfl
  rw [if_neg hFull]
  obtain ⟨price, hPrice⟩ := backtestFillPrice_ok order bar
  rw [bind_of_ok (orRaise_ok_iff.mpr ⟨hPrice, rfl⟩)]
  cases price with
  | none => rfl
  | some price =>
    have hSome := dueFill_eq_some.mpr ⟨hOrder, by rw [sub_sub_cancel]; exact hFilled, hCancelled,
      not_not.mp hOther, by omega, hPrice⟩
    rw [h] at hSome
    cases hSome

theorem advanceOrder_due {bar : VerifiedBar} {slippage : Option SlippageModel} {order : Order}
    {remaining : ℤ} {price : ℚ} (h : b.dueFill bar id = some (order, remaining, price)) :
    advanceOrder bar slippage id b = (do
      let fillPrice ← Method.liftExcept ((slipped slippage order bar price).mapError .slippage)
      let event ← fillOrder id fillPrice none
      pure [event] : BrokerM (List OrderEvent)) b := by
  obtain ⟨hOrder, hFilled, hOpen, hContract, hPos, hDue⟩ := dueFill_eq_some.mp h
  rw [advanceOrder, get_bind, if_neg hOpen, bind_of_ok (lookupOrder_ok_iff.mpr ⟨hOrder, rfl⟩),
    if_neg (not_not.mpr hContract), bind_of_ok (lookupFilled_ok_iff.mpr ⟨hFilled, rfl⟩),
    if_neg (by omega), bind_of_ok (orRaise_ok_iff.mpr ⟨hDue, rfl⟩)]

/-- The fills this bar makes of these orders: the first that the slippage model refuses, or
moves to a price that is not positive, ends the loop. -/
def barFills (b : MockBroker) (bar : VerifiedBar) (slippage : Option SlippageModel) :
    List BrokerOrderId → List (Order × ℤ × ℚ)
  | [] => []
  | id :: rest =>
    match b.dueFill bar id with
    | none => b.barFills bar slippage rest
    | some (order, remaining, intended) =>
      match slipped slippage order bar intended with
      | .ok price =>
        if 0 < price then (order, remaining, price) :: b.barFills bar slippage rest else []
      | .error _ => []

def Accumulates : ℤ → List ℤ → Prop
  | _, [] => True
  | held, delta :: rest => 0 ≤ held * delta ∧ Accumulates (held + delta) rest

instance decidableAccumulates : ∀ held deltas, Decidable (Accumulates held deltas)
  | _, [] => .isTrue trivial
  | held, delta :: rest =>
    have : Decidable (Accumulates (held + delta) rest) := decidableAccumulates _ rest
    inferInstanceAs (Decidable (_ ∧ _))

/-- The bar loop meets a due order that the slippage model refuses, or moves to a price that is
not positive. -/
def barRefused (b : MockBroker) (bar : VerifiedBar) (slippage : Option SlippageModel) :
    List BrokerOrderId → Bool
  | [] => false
  | id :: rest =>
    match b.dueFill bar id with
    | none => b.barRefused bar slippage rest
    | some (order, _, intended) =>
      match slipped slippage order bar intended with
      | .ok price => price ≤ 0 || b.barRefused bar slippage rest
      | .error _ => true

/-- A fill that the position will take: closing needs a configured multiplier. -/
def Closable (b : MockBroker) (c : ContractSymbol) (deltas : List ℤ) : Prop :=
  (multiplierFor c).isOk ∨ Accumulates (b.net c) deltas

instance (b : MockBroker) (c : ContractSymbol) (deltas : List ℤ) : Decidable (b.Closable c deltas) :=
  inferInstanceAs (Decidable (_ ∨ _))

def deltasOf (fills : List (Order × ℤ × ℚ)) : List ℤ := fills.map fun f => f.1.side.signed f.2.1

theorem closable_one_iff {c : ContractSymbol} (side : Side) {quantity : ℤ} {price : ℚ}
    (hQuantity : 0 < quantity) (hPrice : 0 < price) :
    b.Closable c [side.signed quantity] ↔ b.TakesFill c (side.signed quantity) price := by
  have hDelta : side.signed quantity ≠ 0 := by
    cases side <;> simp <;> omega
  rw [takesFill_of_pos hDelta hPrice]
  simp [Closable, Accumulates]

theorem Closable.head {c : ContractSymbol} {delta : ℤ} {deltas : List ℤ}
    (h : b.Closable c (delta :: deltas)) : b.Closable c [delta] :=
  h.imp id fun hBoth => ⟨hBoth.1, trivial⟩

theorem closable_cons_iff {c : ContractSymbol} {b' : MockBroker} {delta : ℤ} {deltas : List ℤ}
    (hNet : b'.net c = b.net c + delta) :
    b.Closable c (delta :: deltas) ↔ b.Closable c [delta] ∧ b'.Closable c deltas := by
  simp only [Closable, Accumulates, hNet]
  tauto

theorem acceptedFill_due {bar : VerifiedBar} {order : Order} {remaining : ℤ} {intended price : ℚ}
    (h : b.dueFill bar id = some (order, remaining, intended)) (hPrice : 0 < price) :
    b.acceptedFill id price none = some (order, order.quantity - remaining, remaining) := by
  obtain ⟨hOrder, hFilled, hOpen, -, hPos, -⟩ := dueFill_eq_some.mp h
  have hLeft : order.quantity - (order.quantity - remaining) = remaining := sub_sub_cancel _ _
  exact acceptedFill_eq_some.mpr ⟨hOrder, hFilled, hOpen, hPrice, by rw [hLeft]; rfl, hPos, hLeft.ge⟩

theorem acceptedFill_nonpos (b : MockBroker) (id : BrokerOrderId) {price : ℚ}
    (quantity : Option ℤ) (hPrice : price ≤ 0) :
    b.acceptedFill id price quantity = none := by
  cases h : b.acceptedFill id price quantity with
  | none => rfl
  | some accepted =>
    obtain ⟨order, filled, actual⟩ := accepted
    exact absurd (acceptedFill_eq_some.mp h).2.2.2.1 (not_lt.mpr hPrice)

/-- One turn of the bar loop: the order is not due, it is refused, or it is filled. -/
theorem advanceOrder_turn (bar : VerifiedBar) (slippage : Option SlippageModel) {known : Order}
    {filled : ℤ} (hOrder : b.orders.get? id = some known) (hFilled : b.filledQty.get? id = some filled)
    (rest : List BrokerOrderId) :
    (advanceOrder bar slippage id b = .ok [] b ∧
      b.barFills bar slippage (id :: rest) = b.barFills bar slippage rest ∧
      b.barRefused bar slippage (id :: rest) = b.barRefused bar slippage rest) ∨
    ((∃ e, advanceOrder bar slippage id b = .error e b) ∧
      b.barFills bar slippage (id :: rest) = [] ∧
      b.barRefused bar slippage (id :: rest) = true) ∨
    ∃ order remaining price, order.contract = bar.contract ∧
      b.acceptedFill id price none = some (order, order.quantity - remaining, remaining) ∧
      advanceOrder bar slippage id b =
        (fillOrder id price none >>= fun event => pure [event] : BrokerM (List OrderEvent)) b ∧
      b.barFills bar slippage (id :: rest) =
        (order, remaining, price) :: b.barFills bar slippage rest ∧
      b.barRefused bar slippage (id :: rest) = b.barRefused bar slippage rest := by
  cases hDue : b.dueFill bar id with
  | none =>
    exact .inl ⟨advanceOrder_idle slippage hOrder hFilled hDue, by rw [barFills, hDue],
      by rw [barRefused, hDue]⟩
  | some due =>
    obtain ⟨order, remaining, intended⟩ := due
    refine .inr ?_
    cases hSlipped : slipped slippage order bar intended with
    | error e =>
      refine .inl ⟨⟨.slippage e, ?_⟩, by simp only [barFills, hDue, hSlipped],
        by simp only [barRefused, hDue, hSlipped]⟩
      rw [advanceOrder_due hDue, hSlipped]
      rfl
    | ok price =>
      have hTurn : advanceOrder bar slippage id b =
          (fillOrder id price none >>= fun event => pure [event] : BrokerM (List OrderEvent)) b := by
        rw [advanceOrder_due hDue, hSlipped]
        rfl
      by_cases hPrice : 0 < price
      · refine .inr ⟨order, remaining, price, (dueFill_eq_some.mp hDue).2.2.2.1,
          acceptedFill_due hDue hPrice, hTurn, ?_, ?_⟩
        · simp only [barFills, hDue, hSlipped, hPrice, if_true]
        · simp [barRefused, hDue, hSlipped, hPrice]
      · obtain ⟨e, hError⟩ := fillOrder_refused
          (acceptedFill_nonpos b id none (not_lt.mp hPrice))
        refine .inl ⟨⟨e, ?_⟩, ?_, ?_⟩
        · rw [hTurn, bind_of_error hError]
        · simp only [barFills, hDue, hSlipped, hPrice, if_false]
        · simp [barRefused, hDue, hSlipped, not_lt.mp hPrice]

theorem barFills_congr {b' : MockBroker} {bar : VerifiedBar} {slippage : Option SlippageModel}
    {ids : List BrokerOrderId} (h : ∀ id ∈ ids, b'.orders.get? id = b.orders.get? id ∧
      b'.filledQty.get? id = b.filledQty.get? id ∧ (id ∈ b'.cancelled ↔ id ∈ b.cancelled)) :
    b'.barFills bar slippage ids = b.barFills bar slippage ids ∧
      b'.barRefused bar slippage ids = b.barRefused bar slippage ids := by
  induction ids with
  | nil => exact ⟨rfl, rfl⟩
  | cons id rest ih =>
    obtain ⟨hOrder, hFilled, hCancelled⟩ := h id List.mem_cons_self
    obtain ⟨hFills, hRefused⟩ := ih fun id' hMem => h id' (List.mem_cons_of_mem id hMem)
    have hDue : b'.dueFill bar id = b.dueFill bar id := by
      simp only [dueFill, hOrder, hFilled, hCancelled]
    simp only [barFills, barRefused, hDue, hFills, hRefused, and_self]

theorem barFills_after {b' : MockBroker} (bar : VerifiedBar) (slippage : Option SlippageModel)
    {filled : ℤ} {rest : List BrokerOrderId} (hOrders : b'.orders = b.orders)
    (hCancelled : b'.cancelled = b.cancelled) (hFilled : b'.filledQty = b.filledQty.set id filled)
    (hNotMem : id ∉ rest) :
    b'.barFills bar slippage rest = b.barFills bar slippage rest ∧
      b'.barRefused bar slippage rest = b.barRefused bar slippage rest := by
  refine barFills_congr fun id' hMem => ⟨by rw [hOrders], ?_, by rw [hCancelled]⟩
  have hOther : id' ≠ id := fun hId => hNotMem (hId ▸ hMem)
  rw [hFilled, Dict.get?_set_of_ne _ _ hOther]

end Entry

end MockBroker

end Futur3.Execution
