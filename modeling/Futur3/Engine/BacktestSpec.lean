import Futur3.Engine.Backtest
import Futur3.Execution.OpenOrders

/-! # What one pass of the backtest loop can do

The pass over a bar in three parts: the fills of `advance`, the roll of the date,
and at most one order. The results about whole runs use these and unfold no part
of the loop.
-/

namespace Futur3.Engine

open Data Execution Prelude Method
open MockBroker (OpenOrder Consistent MarketOnly eventsOf)

variable {σ ρ : Type}

theorem onBroker_ok_iff {α : Type} {x : BrokerM α} {a : α} {s s' : LoopState σ ρ} :
    (onBroker x : EngineM σ ρ α) s = .ok a s' ↔
      ∃ b, x s.broker = .ok a b ∧ { s with broker := b } = s' := by
  unfold onBroker
  cases x s.broker with
  | ok a' b' => simp
  | error e b' => simp

theorem sum_map_filter {α : Type} (p : α → Prop) [DecidablePred p] (f : α → ℤ) (xs : List α) :
    ((xs.filter fun x => p x).map f).sum = (xs.map fun x => if p x then f x else 0).sum := by
  induction xs with
  | nil => rfl
  | cons x xs ih =>
    by_cases hx : p x <;> simp [hx, ih]

/-- The engine's sum over the position list is the broker's net quantity. -/
theorem netPosition_getPositions {b : MockBroker}
    (hKeyed : ∀ c p, b.positions.get? c = some p → p.contract = c) (c : ContractSymbol) :
    netPosition b.getPositions c = b.net c := by
  have hSum : netPosition b.getPositions c =
      b.positions.total fun c' p => if c' = c then p.quantity else 0 := by
    have hPerm : b.getPositions.Perm b.positions.values := List.perm_insertionSort _ _
    rw [netPosition, ((hPerm.filter _).map _).sum_eq, sum_map_filter, Dict.values, Dict.total,
      List.map_map]
    refine congrArg List.sum (List.map_congr_left ?_)
    rintro ⟨c', p⟩ hItem
    have := hKeyed c' p ((Dict.mem_items_iff _ c' p).mp hItem)
    simp [this]
  rw [hSum, MockBroker.net]
  cases hGet : b.positions.get? c with
  | none =>
    have hZero : b.positions.total (fun c' p => if c' = c then p.quantity else 0) =
        b.positions.total fun _ _ => 0 := by
      refine Dict.total_congr _ fun c' p hGet' => if_neg ?_
      rintro rfl
      rw [hGet] at hGet'
      cases hGet'
    rw [hZero]
    simp [Dict.total]
  | some p =>
    rw [Dict.total_replace (f := fun _ _ => 0) _ hGet fun c' p' hc => if_neg hc]
    simp [Dict.total]

/-! ## Orders -/

/-- A market order of this contract, side and quantity was accepted. -/
def Ordered (b b' : MockBroker) (contract : ContractSymbol) (side : Side) (quantity : ℤ)
    (id : BrokerOrderId) : Prop :=
  ∃ order, order.contract = contract ∧ order.side = side ∧ order.quantity = quantity ∧
    order.orderType = .mkt ∧ MockBroker.Placed b b' order id

/-- What the part of the loop after the marking leaves alone, and the count of orders. -/
structure Passed (s s' : LoopState σ ρ) (placed : Option BrokerOrderId) : Prop where
  history : s'.history = s.history
  fills : s'.fills = s.fills
  orders : s'.orders = s.orders + placed.toList.length

theorem placeMarket_ok {contract : ContractSymbol} {side : Side} {quantity : ℤ} {tag : String}
    {s s' : LoopState σ ρ} {id : BrokerOrderId}
    (h : BacktestEngine.placeMarket contract side quantity tag s = .ok id s') :
    Ordered s.broker s'.broker contract side quantity id ∧ Passed s s' (some id) := by
  simp only [BacktestEngine.placeMarket, bind_ok_iff, liftExcept_ok_iff, mapError_ok_iff,
    onBroker_ok_iff, modify_ok_iff, pure_ok_iff] at h
  obtain ⟨order, _, ⟨hOrder, rfl⟩, id', _, ⟨b, hPlace, rfl⟩, _, _, rfl, rfl, rfl⟩ := h
  obtain ⟨hContract, hSide, hQuantity, hType⟩ := Order.market_ok hOrder
  exact ⟨⟨order, hContract, hSide, hQuantity, hType, MockBroker.placeOrder_ok hPlace⟩,
    ⟨rfl, rfl, rfl⟩⟩

/-- The guard refused this order in some state of its own. -/
def Refused (e : BacktestEngine σ ρ) (b : MockBroker) (contract : ContractSymbol) (side : Side)
    (quantity : ℤ) : Prop :=
  ∃ r, (e.guard.isTradeAllowed b contract side quantity r).1 ≠ none

/-- The guard let this order through in some state of its own. -/
def Permitted (e : BacktestEngine σ ρ) (b : MockBroker) (contract : ContractSymbol) (side : Side)
    (quantity : ℤ) : Prop :=
  ∃ r, (e.guard.isTradeAllowed b contract side quantity r).1 = none

theorem isTradeAllowed_ok {e : BacktestEngine σ ρ} {contract : ContractSymbol} {side : Side}
    {quantity : ℤ} {s s' : LoopState σ ρ} {block : Option TradeBlock}
    (h : e.isTradeAllowed contract side quantity s = .ok block s') :
    (block ≠ none → Refused e s.broker contract side quantity) ∧
      (¬block ≠ none → Permitted e s.broker contract side quantity) ∧ s'.broker = s.broker ∧
      Passed s s' none := by
  simp only [BacktestEngine.isTradeAllowed, bind_ok_iff, get_ok_iff, modify_ok_iff, pure_ok_iff] at h
  obtain ⟨_, _, ⟨rfl, rfl⟩, _, _, rfl, rfl, rfl⟩ := h
  exact ⟨fun hBlock => ⟨s.guard, hBlock⟩, fun hNone => ⟨s.guard, not_not.mp hNone⟩, rfl,
    ⟨rfl, rfl, rfl⟩⟩

def closeSide (net : ℤ) : Side := if net > 0 then .sell else .buy

/-- The strategy emits this signal on this history, from some memory of its own. -/
def Emits (e : BacktestEngine σ ρ) (history : List VerifiedBar) (signal : Signal) : Prop :=
  ∃ memory memory', e.strategy.generateSignal history memory = .ok (some signal, memory')

/-- The sizing gate was asked about this signal at this price, and answered. -/
def Sized (e : BacktestEngine σ ρ) (bar : VerifiedBar) (signal : Signal)
    (decision : SizingDecision) : Prop :=
  ∃ equity returns seed, e.risk.sizePosition signal.contract signal.fullKellyFraction equity bar.close
    returns seed = .ok decision

/-- How a pass ends, from the broker it marked to the broker it leaves. -/
inductive Acted (e : BacktestEngine σ ρ) (bar : VerifiedBar) (history : List VerifiedBar)
    (b : MockBroker) : BarOutcome → MockBroker → Prop
  | ruined : Acted e bar history b .ruined b
  | stopLoss {pct : ℚ} {p : Position} {id : BrokerOrderId} {b' : MockBroker}
      (hPct : e.stopLossPct = some pct)
      (hOrdered : Ordered b b' bar.contract (closeSide p.quantity) |p.quantity| id) :
      Acted e bar history b (.stopLoss id) b'
  | noSignal : Acted e bar history b .noSignal b
  | kept {signal : Signal} (hEmits : Emits e history signal) (hFlat : signal.direction = 0)
      (hKept : e.targetPosition = true → netPosition b.getPositions signal.contract = 0 ∨
        Refused e b signal.contract (closeSide (netPosition b.getPositions signal.contract))
          |netPosition b.getPositions signal.contract|) :
      Acted e bar history b (.flat signal none) b
  | closed {signal : Signal} {id : BrokerOrderId} {b' : MockBroker} (hEmits : Emits e history signal)
      (hFlat : signal.direction = 0)
      (hPermitted : Permitted e b signal.contract
        (closeSide (netPosition b.getPositions signal.contract))
        |netPosition b.getPositions signal.contract|)
      (hOrdered : Ordered b b' signal.contract
        (closeSide (netPosition b.getPositions signal.contract))
        |netPosition b.getPositions signal.contract| id) :
      Acted e bar history b (.flat signal (some id)) b'
  | cappedToZero {signal : Signal} {decision : SizingDecision} (hEmits : Emits e history signal)
      (hDirection : signal.direction ≠ 0) (hSized : Sized e bar signal decision)
      (hCapped : decision.contracts ≤ 0) :
      Acted e bar history b (.cappedToZero signal decision) b
  | onTarget {signal : Signal} {decision : SizingDecision} (hEmits : Emits e history signal)
      (hDirection : signal.direction ≠ 0) (hSized : Sized e bar signal decision)
      (hContracts : 0 < decision.contracts)
      (hResolved : e.resolveOrder decision signal b.getPositions = none) :
      Acted e bar history b (.onTarget signal decision) b
  | blocked {signal : Signal} {decision : SizingDecision} {side : Side} {quantity : ℤ}
      (hEmits : Emits e history signal) (hDirection : signal.direction ≠ 0)
      (hSized : Sized e bar signal decision) (hContracts : 0 < decision.contracts)
      (hResolved : e.resolveOrder decision signal b.getPositions = some (side, quantity))
      (hRefused : Refused e b signal.contract side quantity) :
      Acted e bar history b (.blocked signal decision) b
  | ordered {signal : Signal} {decision : SizingDecision} {side : Side} {quantity : ℤ}
      {id : BrokerOrderId} {b' : MockBroker} (hEmits : Emits e history signal)
      (hDirection : signal.direction ≠ 0) (hSized : Sized e bar signal decision)
      (hContracts : 0 < decision.contracts)
      (hResolved : e.resolveOrder decision signal b.getPositions = some (side, quantity))
      (hPermitted : Permitted e b signal.contract side quantity)
      (hOrdered : Ordered b b' signal.contract side quantity id) :
      Acted e bar history b (.ordered signal decision id) b'

theorem Passed.trans {s s₁ s' : LoopState σ ρ} {placed : Option BrokerOrderId}
    (h : Passed s s₁ none) (h' : Passed s₁ s' placed) : Passed s s' placed :=
  ⟨h'.history.trans h.history, h'.fills.trans h.fills, by rw [h'.orders, h.orders]; rfl⟩

/-- The broker and the counters of this module after some bookkeeping are those before it. -/
theorem tradeSignal_ok {e : BacktestEngine σ ρ} {i : ℕ} {bar : VerifiedBar} {mtm : ℚ}
    {signal : Signal} {s s' : LoopState σ ρ} {outcome : BarOutcome} {history : List VerifiedBar}
    (hEmits : Emits e history signal) (hDirection : signal.direction ≠ 0)
    (h : e.tradeSignal i bar mtm s.broker.getPositions signal s = .ok outcome s') :
    Acted e bar history s.broker outcome s'.broker ∧ Passed s s' outcome.placed := by
  simp only [BacktestEngine.tradeSignal, bind_ok_iff, get_ok_iff, liftExcept_ok_iff,
    mapError_ok_iff, modify_ok_iff] at h
  obtain ⟨_, _, ⟨rfl, rfl⟩, ⟨returns, seed⟩, _, ⟨-, rfl⟩, decision, _, ⟨hDecision, rfl⟩, _, s₁, hs₁, h⟩ := h
  have hBroker : s₁.broker = s.broker := hs₁ ▸ rfl
  have hPassed : Passed s s₁ none := hs₁ ▸ ⟨rfl, rfl, rfl⟩
  have hSized : Sized e bar signal decision := ⟨mtm, returns, seed, hDecision⟩
  rw [ite_ok_iff, pure_ok_iff] at h
  rcases h with ⟨hCapped, rfl, rfl⟩ | ⟨hCapped, h⟩
  · rw [hBroker]
    exact ⟨.cappedToZero hEmits hDirection hSized hCapped, hPassed⟩
  have hContracts := not_le.mp hCapped
  cases hResolved : e.resolveOrder decision signal s.broker.getPositions with
  | none =>
    simp only [hResolved, pure_ok_iff] at h
    obtain ⟨rfl, rfl⟩ := h
    rw [hBroker]
    exact ⟨.onTarget hEmits hDirection hSized hContracts hResolved, hPassed⟩
  | some resolved =>
    obtain ⟨side, quantity⟩ := resolved
    simp only [hResolved, bind_ok_iff, ite_ok_iff, pure_ok_iff] at h
    obtain ⟨block, s₂, hAllowed, h⟩ := h
    obtain ⟨hRefused, hPermitted, hBroker₂, hPassed₂⟩ := isTradeAllowed_ok hAllowed
    rw [hBroker] at hRefused hPermitted hBroker₂
    rcases h with ⟨hBlock, rfl, rfl⟩ | ⟨hNone, id, s₃, hPlace, rfl, rfl⟩
    · rw [hBroker₂]
      exact ⟨.blocked hEmits hDirection hSized hContracts hResolved (hRefused hBlock),
        hPassed.trans hPassed₂⟩
    · obtain ⟨hOrdered, hPassed₃⟩ := placeMarket_ok hPlace
      rw [hBroker₂] at hOrdered
      exact ⟨.ordered hEmits hDirection hSized hContracts hResolved (hPermitted hNone) hOrdered,
        (hPassed.trans hPassed₂).trans hPassed₃⟩

theorem flattenOnFlat_ok {e : BacktestEngine σ ρ} {bar : VerifiedBar} {signal : Signal}
    {s s' : LoopState σ ρ} {closing : Option BrokerOrderId} {history : List VerifiedBar}
    (hEmits : Emits e history signal) (hFlat : signal.direction = 0)
    (h : e.flattenOnFlat signal s.broker.getPositions bar s = .ok closing s') :
    Acted e bar history s.broker (.flat signal closing) s'.broker ∧ Passed s s' closing := by
  simp only [BacktestEngine.flattenOnFlat, ite_ok_iff, bind_ok_iff, pure_ok_iff] at h
  rcases h with ⟨hNet, rfl, rfl⟩ | ⟨hNet, block, s₁, hAllowed, h⟩
  · exact ⟨.kept hEmits hFlat fun _ => .inl hNet, ⟨rfl, rfl, rfl⟩⟩
  obtain ⟨hRefused, hPermitted, hBroker, hPassed⟩ := isTradeAllowed_ok hAllowed
  rcases h with ⟨hBlock, rfl, rfl⟩ | ⟨hNone, id, s₂, hPlace, rfl, rfl⟩
  · rw [hBroker]
    exact ⟨.kept hEmits hFlat fun _ => .inr (hRefused hBlock), hPassed⟩
  · obtain ⟨hOrdered, hPassed₂⟩ := placeMarket_ok hPlace
    rw [hBroker] at hOrdered
    exact ⟨.closed hEmits hFlat (hPermitted hNone) hOrdered, hPassed.trans hPassed₂⟩

theorem decide_ok {e : BacktestEngine σ ρ} {i : ℕ} {bar : VerifiedBar} {mtm : ℚ}
    {s s' : LoopState σ ρ} {outcome : BarOutcome}
    (h : e.decide i bar mtm s.broker.getPositions s = .ok outcome s') :
    Acted e bar s.history s.broker outcome s'.broker ∧ Passed s s' outcome.placed := by
  simp only [BacktestEngine.decide, bind_ok_iff, get_ok_iff, liftExcept_ok_iff, mapError_ok_iff,
    modify_ok_iff] at h
  obtain ⟨_, _, ⟨rfl, rfl⟩, ⟨signal, memory⟩, _, ⟨hSignal, rfl⟩, _, s₁, hs₁, h⟩ := h
  have hBroker : s₁.broker = s.broker := hs₁ ▸ rfl
  have hPassed : Passed s s₁ none := hs₁ ▸ ⟨rfl, rfl, rfl⟩
  cases signal with
  | none =>
    obtain ⟨rfl, rfl⟩ := pure_ok_iff.mp h
    rw [hBroker]
    exact ⟨.noSignal, hPassed⟩
  | some signal =>
    have hEmits : Emits e s.history signal := ⟨s.strategy, memory, hSignal⟩
    simp only [bind_ok_iff, modify_ok_iff, ite_ok_iff, pure_ok_iff] at h
    obtain ⟨_, s₂, hs₂, h⟩ := h
    have hBroker₂ : s₂.broker = s.broker := hs₂ ▸ hBroker
    have hPassed₂ : Passed s s₂ none := hPassed.trans (hs₂ ▸ ⟨rfl, rfl, rfl⟩)
    rw [← hBroker₂] at h ⊢
    rcases h with ⟨hFlat, ⟨-, closing, s₃, hFlatten, rfl, rfl⟩ | ⟨hLegacy, rfl, rfl⟩⟩ |
      ⟨hDirection, hTrade⟩
    · obtain ⟨hActed, hPassed₃⟩ := flattenOnFlat_ok hEmits hFlat hFlatten
      exact ⟨hActed, hPassed₂.trans hPassed₃⟩
    · exact ⟨.kept hEmits hFlat fun hTarget => absurd hTarget hLegacy, hPassed₂⟩
    · obtain ⟨hActed, hPassed₃⟩ := tradeSignal_ok hEmits hDirection hTrade
      exact ⟨hActed, hPassed₂.trans hPassed₃⟩

theorem applyStopLoss_ok {e : BacktestEngine σ ρ} {bar : VerifiedBar} {pct : ℚ}
    {positions : List Position} {s s' : LoopState σ ρ} {stopped : Option BrokerOrderId}
    (h : e.applyStopLoss bar positions pct s = .ok stopped s') :
    (stopped = none ∧ s'.broker = s.broker ∧ Passed s s' none) ∨
      ∃ id, ∃ p : Position, stopped = some id ∧ Passed s s' (some id) ∧
        Ordered s.broker s'.broker bar.contract (closeSide p.quantity) |p.quantity| id := by
  unfold BacktestEngine.applyStopLoss at h
  cases hFind : positions.find? fun p => p.contract = bar.contract ∧ p.quantity ≠ 0 with
  | none =>
    simp only [hFind, pure_ok_iff] at h
    obtain ⟨rfl, rfl⟩ := h
    exact .inl ⟨rfl, rfl, ⟨rfl, rfl, rfl⟩⟩
  | some p =>
    simp only [hFind, ite_ok_iff, pure_ok_iff, bind_ok_iff] at h
    rcases h with ⟨-, rfl, rfl⟩ | ⟨-, ⟨-, rfl, rfl⟩ | ⟨-, block, s₁, hAllowed, h⟩⟩
    · exact .inl ⟨rfl, rfl, ⟨rfl, rfl, rfl⟩⟩
    · exact .inl ⟨rfl, rfl, ⟨rfl, rfl, rfl⟩⟩
    obtain ⟨-, -, hBroker, hPassed⟩ := isTradeAllowed_ok hAllowed
    rcases h with ⟨-, rfl, rfl⟩ | ⟨-, id, s₂, hPlace, rfl, rfl⟩
    · exact .inl ⟨rfl, hBroker, hPassed⟩
    · obtain ⟨hOrdered, hPassed₂⟩ := placeMarket_ok hPlace
      rw [hBroker] at hOrdered
      exact .inr ⟨id, p, rfl, hPassed.trans hPassed₂, hOrdered⟩

theorem act_ok {e : BacktestEngine σ ρ} {i : ℕ} {bar : VerifiedBar} {mtm : ℚ}
    {s s' : LoopState σ ρ} {outcome : BarOutcome}
    (h : e.act i bar mtm s.broker.getPositions s = .ok outcome s') :
    Acted e bar s.history s.broker outcome s'.broker ∧ Passed s s' outcome.placed := by
  rw [BacktestEngine.act, ite_ok_iff, pure_ok_iff] at h
  rcases h with ⟨-, rfl, rfl⟩ | ⟨-, h⟩
  · exact ⟨.ruined, ⟨rfl, rfl, rfl⟩⟩
  cases hPct : e.stopLossPct with
  | none =>
    rw [hPct] at h
    exact decide_ok h
  | some pct =>
    simp only [hPct, bind_ok_iff] at h
    obtain ⟨stopped, s₁, hStop, h⟩ := h
    rcases applyStopLoss_ok hStop with ⟨rfl, hBroker, hPassed⟩ | ⟨id, p, rfl, hPassed, hOrdered⟩
    · rw [← hBroker] at h
      obtain ⟨hActed, hPassed₁⟩ := decide_ok h
      rw [hBroker, hPassed.history] at hActed
      exact ⟨hActed, hPassed.trans hPassed₁⟩
    · obtain ⟨rfl, rfl⟩ := pure_ok_iff.mp h
      exact ⟨.stopLoss hPct hOrdered, hPassed⟩

/-! ## Fills, roll and mark -/

/-- The roll of a bar's date: nothing is held in the old contract, or it all moves. -/
def RollStep (e : BacktestEngine σ ρ) (bar : VerifiedBar) (b b' : MockBroker) : Prop :=
  (b' = b ∧ ∀ event, e.rollByDate.get? bar.ts.date = some event →
      netPosition b.getPositions event.oldContract = 0 ∨ b.net event.oldContract = 0) ∨
    ∃ event, e.rollByDate.get? bar.ts.date = some event ∧
      MockBroker.Rolled b b' event.oldContract event.newContract event.frontSettle event.backSettle

theorem executeRoll_ok {e : BacktestEngine σ ρ} {bar : VerifiedBar} {s s' : LoopState σ ρ} {u : PUnit}
    (h : e.executeRoll bar s = .ok u s') :
    RollStep e bar s.broker s'.broker ∧ Passed s s' none := by
  unfold BacktestEngine.executeRoll at h
  cases hEvent : e.rollByDate.get? bar.ts.date with
  | none =>
    simp only [hEvent, pure_ok_iff] at h
    obtain ⟨-, rfl⟩ := h
    exact ⟨.inl ⟨rfl, fun event h => by cases hEvent.symm.trans h⟩, ⟨rfl, rfl, rfl⟩⟩
  | some event =>
    have hOnly : ∀ event', e.rollByDate.get? bar.ts.date = some event' → event' = event :=
      fun event' h => Option.some.inj (h.symm.trans hEvent)
    simp only [hEvent, bind_ok_iff, get_ok_iff, ite_ok_iff, pure_ok_iff, onBroker_ok_iff,
      liftExcept_ok_iff, mapError_ok_iff, modify_ok_iff] at h
    obtain ⟨_, _, ⟨rfl, rfl⟩, ⟨hFlat, -, rfl⟩ | ⟨-, rolled, _, ⟨b, hRoll, rfl⟩, h⟩⟩ := h
    · exact ⟨.inl ⟨rfl, fun event' h => .inl (hOnly event' h ▸ hFlat)⟩, ⟨rfl, rfl, rfl⟩⟩
    obtain ⟨hRolled, hCases⟩ := MockBroker.rollPosition_ok hRoll
    have hStep : RollStep e bar s.broker b := by
      rcases hCases with ⟨hZero, rfl⟩ | ⟨-, hLegs⟩
      · exact .inl ⟨rfl, fun event' h => .inr (hOnly event' h ▸ hRolled.symm.trans hZero)⟩
      · exact .inr ⟨event, hEvent, hLegs⟩
    rcases h with ⟨-, -, rfl⟩ | ⟨-, mult, _, ⟨-, rfl⟩, rfl⟩
    · exact ⟨hStep, ⟨rfl, rfl, rfl⟩⟩
    · exact ⟨hStep, ⟨rfl, rfl, rfl⟩⟩

theorem mark_ok {e : BacktestEngine σ ρ} {bar : VerifiedBar} {s s' : LoopState σ ρ} {mtm : ℚ}
    {positions : List Position} (h : e.mark bar s = .ok (mtm, positions) s') :
    positions = s'.broker.getPositions ∧ s'.broker = s.broker ∧ s'.history = s.history ++ [bar] ∧
      s'.fills = s.fills ∧ s'.orders = s.orders ∧ s'.equityCurve = s.equityCurve ++ [mtm] := by
  simp only [BacktestEngine.mark, BacktestEngine.accountEquity, bind_ok_iff, get_ok_iff,
    liftExcept_ok_iff, mapError_ok_iff, modify_ok_iff, pure_ok_iff, Prod.mk.injEq] at h
  obtain ⟨_, _, ⟨_, _, ⟨rfl, rfl⟩, metrics, _, ⟨-, rfl⟩, _, _, rfl, rfl, rfl⟩, _, _, ⟨rfl, rfl⟩, _,
    _, ⟨-, rfl⟩, _, _, rfl, ⟨rfl, rfl⟩, rfl⟩ := h
  exact ⟨rfl, rfl, rfl, rfl, rfl, rfl⟩

theorem fillAndRoll_ok {e : BacktestEngine σ ρ} {bar : VerifiedBar} {s s' : LoopState σ ρ}
    {filled : List OrderEvent} {advanced : MockBroker}
    (h : e.fillAndRoll bar s = .ok (filled, advanced) s') :
    MockBroker.Advanced s.broker advanced bar e.slippage filled ∧
      RollStep e bar advanced s'.broker ∧ s'.history = s.history ∧
      s'.fills = s.fills + filled.length ∧ s'.orders = s.orders := by
  simp only [BacktestEngine.fillAndRoll, bind_ok_iff, get_ok_iff, onBroker_ok_iff, modify_ok_iff] at h
  obtain ⟨es, _, ⟨b, hAdvance, rfl⟩, _, s₁, hs₁, _, _, ⟨rfl, rfl⟩, _, s₂, hRoll, hTrack⟩ := h
  obtain ⟨hRollStep, hPassed⟩ := executeRoll_ok hRoll
  -- the closes kept for the survival gate touch nothing else
  have hTracked : es = filled ∧ s₁.broker = advanced ∧ s'.broker = s₂.broker ∧ Passed s₂ s' none := by
    simp only [ite_ok_iff, bind_ok_iff, modify_ok_iff, pure_ok_iff, Prod.mk.injEq] at hTrack
    rcases hTrack with ⟨-, _, _, rfl, ⟨hEvents, hBroker⟩, rfl⟩ | ⟨-, ⟨hEvents, hBroker⟩, rfl⟩
    · exact ⟨hEvents, hBroker, rfl, ⟨rfl, rfl, rfl⟩⟩
    · exact ⟨hEvents, hBroker, rfl, ⟨rfl, rfl, rfl⟩⟩
  obtain ⟨rfl, rfl, hBroker, hPassed'⟩ := hTracked
  have hAll := hPassed.trans hPassed'
  rw [hBroker]
  subst hs₁
  exact ⟨MockBroker.advance_ok hAdvance, hRollStep, hAll.history, hAll.fills, hAll.orders⟩

structure BarStep (e : BacktestEngine σ ρ) (bar : VerifiedBar) (s s' : LoopState σ ρ)
    (r : BarRecord) : Prop where
  advanced : MockBroker.Advanced s.broker r.advanced bar e.slippage r.filled
  acted : ∃ b, RollStep e bar r.advanced b ∧
    Acted e bar (s.history ++ [bar]) b r.outcome r.processed
  processed : s'.broker = r.processed
  history : s'.history = s.history ++ [bar]
  fills : s'.fills = s.fills + r.filled.length
  orders : s'.orders = s.orders + r.outcome.placed.toList.length

theorem processBar_ok {e : BacktestEngine σ ρ} {step : VerifiedBar × ℕ} {s s' : LoopState σ ρ}
    {r : BarRecord} (h : e.processBar step s = .ok r s') : BarStep e step.1 s s' r := by
  simp only [BacktestEngine.processBar, bind_ok_iff, get_ok_iff, pure_ok_iff] at h
  obtain ⟨⟨filled, advanced⟩, s₁, hFill, ⟨mtm, positions⟩, s₂, hMark, outcome, s₃, hAct, _, _,
    ⟨rfl, rfl⟩, rfl, rfl⟩ := h
  obtain ⟨hAdvanced, hRollStep, hHistory₁, hFills₁, hOrders₁⟩ := fillAndRoll_ok hFill
  obtain ⟨rfl, hBroker, hHistory, hFills, hOrders, -⟩ := mark_ok hMark
  obtain ⟨hActed, hPassed⟩ := act_ok hAct
  rw [hBroker, hHistory, hHistory₁] at hActed
  exact {
    advanced := hAdvanced
    acted := ⟨s₁.broker, hRollStep, hActed⟩
    processed := rfl
    history := by rw [hPassed.history, hHistory, hHistory₁]
    fills := by rw [hPassed.fills, hFills, hFills₁]
    orders := by rw [hPassed.orders, hOrders, hOrders₁] }

/-! ## The equity curve -/

section Curve

variable {e : BacktestEngine σ ρ}

theorem keeps_onBroker {α : Type} (x : BrokerM α) :
    Keeps LoopState.equityCurve (onBroker x : EngineM σ ρ α) := by
  intro s
  unfold onBroker
  cases x s.broker <;> rfl

theorem keeps_isTradeAllowed (contract : ContractSymbol) (side : Side) (quantity : ℤ) :
    Keeps LoopState.equityCurve (e.isTradeAllowed contract side quantity) := fun _ => rfl

theorem keeps_placeMarket (contract : ContractSymbol) (side : Side) (quantity : ℤ) (tag : String) :
    Keeps LoopState.equityCurve
      (BacktestEngine.placeMarket contract side quantity tag : EngineM σ ρ BrokerOrderId) := by
  apply keeps_bind (keeps_liftExcept _)
  intro order
  apply keeps_bind (keeps_onBroker _)
  intro id
  exact keeps_bind (keeps_modify fun _ => rfl) fun _ => keeps_pure _

theorem keeps_checked {α : Type} (contract : ContractSymbol) (side : Side) (quantity : ℤ)
    (tag : String) (refused : α) (placed : BrokerOrderId → α) :
    Keeps LoopState.equityCurve (do
      let block ← e.isTradeAllowed contract side quantity
      if block ≠ none then pure refused
      else
        let id ← BacktestEngine.placeMarket contract side quantity tag
        pure (placed id)) := by
  apply keeps_bind (keeps_isTradeAllowed contract side quantity)
  intro block
  apply keeps_ite (keeps_pure _)
  exact keeps_bind (keeps_placeMarket contract side quantity tag) fun id => keeps_pure _

theorem keeps_tradeSignal (i : ℕ) (bar : VerifiedBar) (mtm : ℚ) (positions : List Position)
    (signal : Signal) :
    Keeps LoopState.equityCurve (e.tradeSignal i bar mtm positions signal) := by
  apply keeps_bind keeps_get
  intro s
  apply keeps_bind (keeps_liftExcept _)
  rintro ⟨returns, seed⟩
  apply keeps_bind (keeps_liftExcept _)
  intro decision
  apply keeps_bind (keeps_modify (by intro _; rfl))
  intro _
  apply keeps_ite (keeps_pure _)
  cases e.resolveOrder decision signal positions with
  | none => exact keeps_pure _
  | some resolved =>
    exact keeps_checked _ _ _ _ (BarOutcome.blocked signal decision)
      (BarOutcome.ordered signal decision)

theorem keeps_flattenOnFlat (signal : Signal) (positions : List Position) (bar : VerifiedBar) :
    Keeps LoopState.equityCurve (e.flattenOnFlat signal positions bar) := by
  unfold BacktestEngine.flattenOnFlat
  apply keeps_ite (keeps_pure _)
  exact keeps_checked _ _ _ _ none some

theorem keeps_decide (i : ℕ) (bar : VerifiedBar) (mtm : ℚ) (positions : List Position) :
    Keeps LoopState.equityCurve (e.decide i bar mtm positions) := by
  apply keeps_bind keeps_get
  intro s
  apply keeps_bind (keeps_liftExcept _)
  rintro ⟨signal, memory⟩
  apply keeps_bind (keeps_modify (by intro _; rfl))
  intro _
  cases signal with
  | none => exact keeps_pure _
  | some signal =>
    apply keeps_bind (keeps_modify (by intro _; rfl))
    intro _
    refine keeps_ite (keeps_ite ?_ (keeps_pure _)) (keeps_tradeSignal i bar mtm positions signal)
    exact keeps_bind (keeps_flattenOnFlat signal positions bar) fun _ => keeps_pure _

theorem keeps_applyStopLoss (bar : VerifiedBar) (positions : List Position) (pct : ℚ) :
    Keeps LoopState.equityCurve (e.applyStopLoss bar positions pct) := by
  unfold BacktestEngine.applyStopLoss
  cases positions.find? fun p => p.contract = bar.contract ∧ p.quantity ≠ 0 with
  | none => exact keeps_pure _
  | some p =>
    apply keeps_ite (keeps_pure _)
    apply keeps_ite (keeps_pure _)
    exact keeps_checked _ _ _ _ none some

theorem keeps_act (i : ℕ) (bar : VerifiedBar) (mtm : ℚ) (positions : List Position) :
    Keeps LoopState.equityCurve (e.act i bar mtm positions) := by
  unfold BacktestEngine.act
  apply keeps_ite (keeps_pure _)
  cases e.stopLossPct with
  | none => exact keeps_decide i bar mtm positions
  | some pct =>
    apply keeps_bind (keeps_applyStopLoss bar positions pct)
    intro stopped
    cases stopped with
    | some id => exact keeps_pure _
    | none => exact keeps_decide i bar mtm positions

theorem keeps_executeRoll (bar : VerifiedBar) :
    Keeps LoopState.equityCurve (e.executeRoll bar) := by
  unfold BacktestEngine.executeRoll
  cases e.rollByDate.get? bar.ts.date with
  | none => exact keeps_pure _
  | some event =>
    apply keeps_bind keeps_get
    intro s
    apply keeps_ite (keeps_pure _)
    apply keeps_bind (keeps_onBroker _)
    intro rolled
    apply keeps_ite (keeps_pure _)
    apply keeps_bind (keeps_liftExcept _)
    intro mult
    exact keeps_modify fun _ => rfl

theorem keeps_fillAndRoll (bar : VerifiedBar) :
    Keeps LoopState.equityCurve (e.fillAndRoll bar) := by
  apply keeps_bind (keeps_onBroker _)
  intro filled
  apply keeps_bind (keeps_modify (by intro _; rfl))
  intro _
  apply keeps_bind keeps_get
  intro s
  apply keeps_bind (keeps_executeRoll bar)
  intro _
  refine keeps_ite (keeps_bind (keeps_modify ?_) fun _ => keeps_pure _) (keeps_pure _)
  exact fun _ => rfl

/-- A pass adds its own point to the curve. -/
theorem processBar_curve {step : VerifiedBar × ℕ} {s s' : LoopState σ ρ} {r : BarRecord}
    (h : e.processBar step s = .ok r s') :
    ∃ mtm, s'.equityCurve = s.equityCurve ++ [mtm] := by
  simp only [BacktestEngine.processBar, bind_ok_iff, get_ok_iff, pure_ok_iff] at h
  obtain ⟨⟨filled, advanced⟩, s₁, hFill, ⟨mtm, positions⟩, s₂, hMark, outcome, s₃, hAct, _, _,
    ⟨rfl, rfl⟩, rfl, rfl⟩ := h
  obtain ⟨-, -, -, -, -, hCurve⟩ := mark_ok hMark
  refine ⟨mtm, ?_⟩
  rw [(keeps_act step.2 step.1 mtm positions).ok hAct, hCurve, (keeps_fillAndRoll step.1).ok hFill]

end Curve

/-! ## The order book over one pass -/

theorem RollStep.sameBook {e : BacktestEngine σ ρ} {bar : VerifiedBar} {b b' : MockBroker}
    (h : RollStep e bar b b') : MockBroker.SameBook b b' := by
  rcases h with ⟨rfl, -⟩ | ⟨event, -, hRolled⟩
  · exact .refl b'
  · exact hRolled.toSameBook

theorem RollStep.consistent {e : BacktestEngine σ ρ} {bar : VerifiedBar} {b b' : MockBroker}
    (h : RollStep e bar b b') (hConsistent : Consistent b) : Consistent b' := by
  rcases h with ⟨rfl, -⟩ | ⟨event, -, hRolled⟩
  · exact hConsistent
  · exact hConsistent.roll hRolled

theorem BacktestEngine.mem_rollEvents {e : BacktestEngine σ ρ} {date : Date} {event : RollEvent}
    (h : e.rollByDate.get? date = some event) : event ∈ e.rollEvents ∧ event.rollDate = date := by
  obtain ⟨event', hMem, hPair⟩ := List.mem_map.mp (Dict.mem_of_get?_ofList h)
  obtain ⟨rfl, rfl⟩ := Prod.mk.injEq .. ▸ hPair
  exact ⟨hMem, rfl⟩

/-- The roll of a date moves the whole net quantity of its old contract into the new one. -/
theorem RollStep.net {e : BacktestEngine σ ρ} {bar : VerifiedBar} {b b' : MockBroker}
    (h : RollStep e bar b b') (hConsistent : Consistent b) (c : ContractSymbol) :
    b'.net c = (e.rollByDate.get? bar.ts.date).elim (b.net c) fun event =>
      b.net c + (if c = event.oldContract then -b.net event.oldContract else 0) +
        (if c = event.newContract then b.net event.oldContract else 0) := by
  rcases h with ⟨rfl, hFlat⟩ | ⟨event, hEvent, hRolled⟩
  · cases hEvent : e.rollByDate.get? bar.ts.date with
    | none => rfl
    | some event =>
      have hZero : b'.net event.oldContract = 0 := by
        rcases hFlat event hEvent with h | h
        · rwa [netPosition_getPositions hConsistent.keyed] at h
        · exact h
      simp [hZero]
  · rw [hEvent, Option.elim_some, hRolled.net_front]

theorem RollStep.open_iff {e : BacktestEngine σ ρ} {bar : VerifiedBar} {b b' : MockBroker}
    (h : RollStep e bar b b') (id : BrokerOrderId) (order : Order) (filled : ℤ) :
    OpenOrder b' id order filled ↔ OpenOrder b id order filled := by
  have hSame := h.sameBook
  exact ⟨fun hOpen => hOpen.congr (by rw [hSame.orders]) hSame.cancelled.symm (by rw [hSame.filledQty]),
    fun hOpen => hOpen.congr (by rw [hSame.orders]) hSame.cancelled (by rw [hSame.filledQty])⟩

/-- The contracts a pass may trade: the bar's and those of its signals. -/
def PassContract (e : BacktestEngine σ ρ) (bar : VerifiedBar) (history : List VerifiedBar)
    (c : ContractSymbol) : Prop :=
  c = bar.contract ∨ ∃ signal, Emits e history signal ∧ signal.contract = c

/-- The order of a pass, if there is one, is for the bar's contract or for a signal's. -/
theorem Acted.placed_cases {e : BacktestEngine σ ρ} {bar : VerifiedBar} {history : List VerifiedBar}
    {b b' : MockBroker} {outcome : BarOutcome} (h : Acted e bar history b outcome b') :
    (outcome.placed = none ∧ b' = b) ∨
      ∃ id contract side quantity, outcome.placed = some id ∧
        Ordered b b' contract side quantity id ∧
        PassContract e bar history contract := by
  cases h with
  | ruined => exact .inl ⟨rfl, rfl⟩
  | stopLoss _ hOrdered => exact .inr ⟨_, _, _, _, rfl, hOrdered, .inl rfl⟩
  | noSignal => exact .inl ⟨rfl, rfl⟩
  | kept => exact .inl ⟨rfl, rfl⟩
  | closed hEmits _ _ hOrdered => exact .inr ⟨_, _, _, _, rfl, hOrdered, .inr ⟨_, hEmits, rfl⟩⟩
  | cappedToZero => exact .inl ⟨rfl, rfl⟩
  | onTarget => exact .inl ⟨rfl, rfl⟩
  | blocked => exact .inl ⟨rfl, rfl⟩
  | ordered hEmits _ _ _ _ _ hOrdered => exact .inr ⟨_, _, _, _, rfl, hOrdered, .inr ⟨_, hEmits, rfl⟩⟩

/-- The order book over one pass: what `advance` left open, and at most one new market order. -/
structure BookStep (traded : ContractSymbol → Prop) (bar : VerifiedBar) (slippage : Option SlippageModel)
    (b b' : MockBroker) (r : BarRecord) : Prop where
  advanced : MockBroker.Advanced b r.advanced bar slippage r.filled
  consistent : Consistent b → Consistent b'
  kept : ∀ id order, b.orders.get? id = some order → Consistent b → b'.orders.get? id = some order
  open_iff : Consistent b → ∀ id order filled, OpenOrder b' id order filled ↔
    (OpenOrder r.advanced id order filled ∧ r.outcome.placed ≠ some id) ∨
      (r.outcome.placed = some id ∧ b'.orders.get? id = some order ∧ filled = 0)
  placed : ∀ id, r.outcome.placed = some id → Consistent b → b.orders.get? id = none ∧
    ∃ order, b'.orders.get? id = some order ∧ order.orderType = .mkt ∧ traded order.contract

theorem BookStep.mono {traded traded' : ContractSymbol → Prop} {bar : VerifiedBar}
    {slippage : Option SlippageModel} {b b' : MockBroker} {r : BarRecord}
    (h : BookStep traded bar slippage b b' r) (hMono : ∀ c, traded c → traded' c) :
    BookStep traded' bar slippage b b' r where
  advanced := h.advanced
  consistent := h.consistent
  kept := h.kept
  open_iff := h.open_iff
  placed id hPlaced hConsistent := by
    obtain ⟨hFresh, order, hGet, hType, hTraded⟩ := h.placed id hPlaced hConsistent
    exact ⟨hFresh, order, hGet, hType, hMono _ hTraded⟩

theorem BarStep.book {e : BacktestEngine σ ρ} {bar : VerifiedBar} {s s' : LoopState σ ρ}
    {r : BarRecord} (h : BarStep e bar s s' r) :
    BookStep (PassContract e bar (s.history ++ [bar])) bar e.slippage s.broker s'.broker r := by
  obtain ⟨b, hRoll, hActed⟩ := h.acted
  have hSame := hRoll.sameBook
  have hOrders : b.orders = s.broker.orders := hSame.orders.trans h.advanced.orders
  have hBefore : Consistent s.broker → Consistent b :=
    fun hb => hRoll.consistent (h.advanced.consistent hb)
  rw [h.processed]
  rcases hActed.placed_cases with ⟨hNone, hSameBroker⟩ |
    ⟨id, contract, side, quantity, hPlaced, ⟨order, hContract, -, -, hType, hOrder⟩, hOf⟩
  · rw [hSameBroker]
    refine ⟨h.advanced, hBefore, fun id order hGet _ => hOrders ▸ hGet, ?_, ?_⟩
    · intro _ id order filled
      simp [hNone, hRoll.open_iff]
    · intro id hSome
      rw [hNone] at hSome
      cases hSome
  · have hFresh : Consistent s.broker → s.broker.orders.get? id = none := fun hb => by
      rw [← hOrders, hOrder.id_eq]
      exact (hBefore hb).next_fresh.1
    have hNew : r.processed.orders.get? id = some order := by simp [hOrder.orders]
    refine ⟨h.advanced, fun hb => (hBefore hb).place hOrder, ?_, ?_, ?_⟩
    · intro id' order' hGet hb
      have hId : id' ≠ id := by
        rintro rfl
        rw [hFresh hb] at hGet
        cases hGet
      rw [hOrder.orders, Dict.get?_set_of_ne _ _ hId, hOrders]
      exact hGet
    · intro hb id' order' filled
      rw [hOrder.open_iff (hBefore hb), hRoll.open_iff, hPlaced, Option.some.injEq, or_comm]
      by_cases hId : id' = id
      · subst hId
        simp [hNew, eq_comm]
      · have hId' : ¬id = id' := fun he => hId he.symm
        simp [hId, hId']
    · intro id' hId hb
      obtain rfl : id = id' := Option.some.inj (hPlaced.symm.trans hId)
      exact ⟨hFresh hb, order, hNew, hType, hContract ▸ hOf⟩

/-- The only order that can be open afterwards is a new one, when the bar fills all that were. -/
theorem BookStep.open_new {traded : ContractSymbol → Prop} {bar : VerifiedBar}
    {slippage : Option SlippageModel} {b b' : MockBroker} {r : BarRecord}
    (h : BookStep traded bar slippage b b' r) (hConsistent : Consistent b)
    (hMarket : MarketOnly b)
    (hBar : ∀ id order filled, OpenOrder b id order filled → order.contract = bar.contract)
    {id : BrokerOrderId} {order : Order} {filled : ℤ} (hOpen : OpenOrder b' id order filled) :
    r.outcome.placed = some id ∧ filled = 0 := by
  rcases (h.open_iff hConsistent id order filled).mp hOpen with ⟨hBefore, -⟩ | ⟨hPlaced, -, hZero⟩
  · exact absurd (hBar id order filled (h.advanced.open_before hBefore).1)
      (h.advanced.open_other hMarket hBefore)
  · exact ⟨hPlaced, hZero⟩

theorem BookStep.marketOnly {traded : ContractSymbol → Prop} {bar : VerifiedBar}
    {slippage : Option SlippageModel} {b b' : MockBroker} {r : BarRecord}
    (h : BookStep traded bar slippage b b' r) (hConsistent : Consistent b)
    (hMarket : MarketOnly b) : MarketOnly b' := by
  intro id order filled hOpen
  rcases (h.open_iff hConsistent id order filled).mp hOpen with ⟨hBefore, -⟩ | ⟨hPlaced, hGet, -⟩
  · exact hMarket id order filled (h.advanced.open_before hBefore).1
  · obtain ⟨-, order', hGet', hType, -⟩ := h.placed id hPlaced hConsistent
    exact Option.some.inj (hGet.symm.trans hGet') ▸ hType

/-- A bar returns events only for orders that were open, of its own contract. -/
theorem BookStep.event_open {traded : ContractSymbol → Prop} {bar : VerifiedBar}
    {slippage : Option SlippageModel} {b b' : MockBroker} {r : BarRecord}
    (h : BookStep traded bar slippage b b' r) {id : BrokerOrderId}
    (hEvents : eventsOf id r.filled ≠ []) :
    ∃ order filled, OpenOrder b id order filled ∧ order.contract = bar.contract := by
  by_cases hKnown : id ∈ b.orders.keys
  · rcases h.advanced.fills id hKnown with
      ⟨hNone, -⟩ | ⟨order, filled, intended, price, event, -, -, hOpen, hContract, -⟩
    · exact absurd hNone hEvents
    · exact ⟨order, filled, hOpen, hContract⟩
  · exact absurd (h.advanced.unknown id hKnown) hEvents

/-! ## Runs -/

theorem index_lt {α : Type} {xs : List α} {x : α} {i : ℕ} (h : xs[i]? = some x) : i < xs.length := by
  by_contra hne
  rw [List.getElem?_eq_none (not_lt.mp hne)] at h
  cases h

theorem getElem?_concat_cases {α : Type} {xs : List α} {x y : α} {i : ℕ}
    (h : (xs ++ [x])[i]? = some y) : xs[i]? = some y ∨ (i = xs.length ∧ y = x) := by
  rw [List.getElem?_append] at h
  split at h
  · exact .inl h
  · rename_i hi
    have : i - xs.length = 0 := by
      by_contra hne
      rw [List.getElem?_eq_none (by simp; omega)] at h
      cases h
    rw [this] at h
    exact .inr ⟨by omega, (Option.some.inj h).symm⟩

theorem getElem?_concat_of_some {α : Type} {xs : List α} {x y : α} {i : ℕ} (h : xs[i]? = some y) :
    (xs ++ [x])[i]? = some y := by
  have hi : i < xs.length := by
    by_contra hne
    rw [List.getElem?_eq_none (not_lt.mp hne)] at h
    cases h
  rwa [List.getElem?_append_left hi]

/-- A run is the loop over its bars and a report on the state it ends in. -/
theorem run_loop {e : BacktestEngine σ ρ} {bars : List VerifiedBar} {s s' : LoopState σ ρ}
    {result : RunResult} {records : List BarRecord}
    (h : e.run bars s = .ok (result, records) s') :
    ∃ s₁, each e.processBar bars.zipIdx s = .ok records s₁ ∧ s'.broker = s₁.broker ∧
      result.fills = s₁.fills ∧ result.ordersPlaced = s₁.orders ∧
      result.equityCurve = s₁.equityCurve := by
  simp only [BacktestEngine.run, BacktestEngine.accountEquity, bind_ok_iff, get_ok_iff,
    liftExcept_ok_iff, modify_ok_iff, pure_ok_iff, Prod.mk.injEq] at h
  obtain ⟨_, s₁, hLoop, _, _, ⟨_, _, ⟨rfl, rfl⟩, metrics, _, ⟨-, rfl⟩, _, _, rfl, rfl, rfl⟩, _, _,
    ⟨rfl, rfl⟩, ⟨rfl, rfl⟩, rfl⟩ := h
  exact ⟨s₁, hLoop, rfl, rfl, rfl, rfl⟩

/-- The run rule: an invariant of the bars done, their records and the state between two bars. -/
theorem run_rule {e : BacktestEngine σ ρ} {bars : List VerifiedBar} {s s' : LoopState σ ρ}
    {result : RunResult} {records : List BarRecord}
    (Inv : List VerifiedBar → List BarRecord → LoopState σ ρ → Prop)
    (hStep : ∀ done bar rest log r s s', bars = done ++ bar :: rest → Inv done log s →
      BarStep e bar s s' r → Inv (done ++ [bar]) (log ++ [r]) s')
    (hStart : Inv [] [] s) (h : e.run bars s = .ok (result, records) s') :
    ∃ s₁, Inv bars records s₁ ∧ s'.broker = s₁.broker ∧ result.fills = s₁.fills ∧
      result.ordersPlaced = s₁.orders := by
  obtain ⟨s₁, hLoop, hBroker, hFills, hOrders, -⟩ := run_loop h
  refine ⟨s₁, ?_, hBroker, hFills, hOrders⟩
  have hAll := each_rule (fun done log s => Inv (done.map Prod.fst) log s) ?_ hStart hLoop
  · rwa [List.zipIdx_map_fst] at hAll
  · rintro done step rest log r s s' hItems hInv hRun
    have hBars : bars = done.map Prod.fst ++ step.1 :: rest.map Prod.fst := by
      rw [← List.zipIdx_map_fst 0 bars, hItems]
      simp
    simpa using hStep _ _ _ _ _ _ _ hBars hInv (processBar_ok hRun)

end Futur3.Engine
