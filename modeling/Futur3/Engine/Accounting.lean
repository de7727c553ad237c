import Futur3.Engine.Backtest
import Futur3.Execution.MockBrokerSpec

/-! # The account is its tape of executions

A run of broker operations leaves a tape: every fill and every roll leg, read off
what the operations returned. Net quantities, the equity marked to market and the
day's realized result are functions of that tape.
-/

namespace Futur3.Engine

open Data Execution Prelude Method

inductive BrokerOp where
  | place (order : Order)
  | modify (id : BrokerOrderId) (limitPrice stopPrice : Option ℚ) (quantity : Option ℤ)
  | cancel (id : BrokerOrderId)
  | fill (id : BrokerOrderId) (price : ℚ) (quantity : Option ℤ)
  | advance (bar : VerifiedBar) (slippage : Option SlippageModel)
  | roll (front back : ContractSymbol) (frontFill backFill : ℚ)

abbrev BrokerTape := List (Execution ContractSymbol ℚ)

/-- The execution that a fill event reports, signed by the side of its order. -/
def executionOf (b : MockBroker) (event : OrderEvent) : Option (Execution ContractSymbol ℚ) :=
  match b.orders.get? event.brokerOrderId, event.fillPrice, event.fillQuantity with
  | some order, some price, some quantity =>
    some ⟨event.contract, order.side.signed quantity, price⟩
  | _, _, _ => none

def rollLegs (front back : ContractSymbol) (frontFill backFill : ℚ) (qty : ℤ) : BrokerTape :=
  if qty = 0 then [] else [⟨front, -qty, frontFill⟩, ⟨back, qty, backFill⟩]

def perform : BrokerOp → BrokerM BrokerTape
  | .place order => do
    let _ ← MockBroker.placeOrder order
    pure []
  | .modify id limitPrice stopPrice quantity => do
    MockBroker.modifyOrder id limitPrice stopPrice quantity
    pure []
  | .cancel id => do
    MockBroker.cancelOrder id
    pure []
  | .fill id price quantity => do
    let event ← MockBroker.fillOrder id price quantity
    let b ← get
    pure (executionOf b event).toList
  | .advance bar slippage => do
    let events ← MockBroker.advance bar slippage
    let b ← get
    pure (events.filterMap (executionOf b))
  | .roll front back frontFill backFill => do
    let qty ← MockBroker.rollPosition front back frontFill backFill
    pure (rollLegs front back frontFill backFill qty)

/-- Starting equity plus the gain of every execution at its contract's mark. -/
def tapeEquity (startingEquity : ℚ) (mark : ContractSymbol → ℚ) :
    BrokerTape → Except SizingFailure ℚ
  | [] => pure startingEquity
  | e :: rest => do
    let mult ← multiplierFor e.contract
    let others ← tapeEquity startingEquity mark rest
    pure (others + (mark e.contract - e.price) * e.quantity * mult)

/-! ## The invariant -/

/-- Contract by contract, the broker's ledger is the tape's. -/
structure Accounted (b : MockBroker) (tape : BrokerTape) : Prop where
  keyed : ∀ c p, b.positions.get? c = some p → p.contract = c
  net : ∀ c, b.net c = Tape.netQuantity tape c
  value : ∀ c mult, multiplierFor c = .ok mult → ∀ mark,
    b.contractValue c mark mult = Tape.gain tape c mark * mult
  realized : b.positions.total (fun _ p => p.realizedPnlToday) = b.realizedPnlToday
  configured : ∀ c p, b.positions.get? c = some p → p.quantity = 0 →
    ∃ mult, multiplierFor c = .ok mult
  traded : ∀ c, c ∈ b.positions.keys ↔ ∃ e ∈ tape, e.contract = c

theorem Accounted.fresh (config : BrokerConfig) : Accounted (MockBroker.fresh config) [] where
  keyed c p h := by simp [MockBroker.fresh] at h
  net c := rfl
  value c mult _ mark := by simp [MockBroker.contractValue, MockBroker.fresh]
  realized := rfl
  configured c p h := by simp [MockBroker.fresh] at h
  traded c := by simp [MockBroker.fresh]

theorem Accounted.noFill {b b' : MockBroker} {tape : BrokerTape} (h : Accounted b tape)
    (hSame : MockBroker.NoFill b b') : Accounted b' tape where
  keyed := hSame.positions ▸ h.keyed
  net c := by rw [← h.net c, MockBroker.net, MockBroker.net, hSame.positions]
  value c mult hMult mark := by
    rw [← h.value c mult hMult mark, MockBroker.contractValue, MockBroker.contractValue,
      hSame.positions]
  realized := by rw [hSame.positions, hSame.realizedPnlToday, h.realized]
  configured := hSame.positions ▸ h.configured
  traded := hSame.positions ▸ h.traded

theorem Accounted.book {b b' : MockBroker} {tape : BrokerTape} {c : ContractSymbol} {delta : ℤ}
    {price : ℚ} (h : Accounted b tape) (hBook : MockBroker.BookedFill b b' c delta price) :
    Accounted b' (tape ++ [⟨c, delta, price⟩]) := by
  have hNet := hBook.net
  obtain ⟨p, gained, hSet, hTotal, hp⟩ := hBook
  refine ⟨?_, ?_, ?_, ?_, ?_, ?_⟩
  · intro c' p' hGet
    rw [hSet, Dict.get?_set] at hGet
    split at hGet
    · rename_i hc
      cases hGet
      rw [hp.contract, hc]
    · exact h.keyed c' p' hGet
  · intro c'
    rw [hNet, h.net, Tape.netQuantity_append, Tape.netQuantity_singleton]
    simp only [eq_comm]
  · intro c' mult hMult mark
    rw [Tape.gain_append, Tape.gain_singleton]
    by_cases hc : c' = c
    · subst hc
      rw [MockBroker.contractValue, hSet, Dict.get?_set_self, Option.elim_some,
        hp.value mult hMult mark, h.value c' mult hMult mark, if_pos rfl]
      ring
    · have hc' : ¬c = c' := fun e => hc e.symm
      rw [MockBroker.contractValue, hSet, Dict.get?_set_of_ne _ _ hc, if_neg hc', add_zero]
      exact h.value c' mult hMult mark
  · rw [hSet, Dict.total_set, h.realized, hTotal, hp.realized, MockBroker.contractRealized]
    ring
  · intro c' p' hGet hFlat
    rw [hSet, Dict.get?_set] at hGet
    split at hGet
    · rename_i hc
      cases hGet
      exact hc ▸ hp.configured hFlat
    · exact h.configured c' p' hGet hFlat
  · intro c'
    rw [hSet, Dict.mem_keys_iff]
    simp only [List.mem_append, List.mem_singleton, or_and_right, exists_or, exists_eq_left,
      ← h.traded c', Dict.mem_keys_iff, Dict.get?_set]
    by_cases hc : c' = c
    · simp [hc]
    · have hc' : ¬c = c' := fun e => hc e.symm
      simp [hc, hc']

/-! ## One operation -/

theorem executionOf_congr {b b' : MockBroker} (h : b'.orders = b.orders) :
    executionOf b' = executionOf b := by
  funext event
  simp only [executionOf, h]

theorem executionOf_fill {b b' : MockBroker} {id : BrokerOrderId} {order : Order} {filled actual : ℤ}
    {price : ℚ} {e : OrderEvent} (h : MockBroker.FillStep b b' id order filled actual price e) :
    executionOf b e = some ⟨order.contract, order.side.signed actual, price⟩ := by
  simp [executionOf, h.event_id, h.order_found, h.event_price, h.event_quantity, h.event_contract]

theorem Accounted.advance {bar : VerifiedBar} {slippage : Option SlippageModel} {b b' : MockBroker}
    {tape : BrokerTape} {events : List OrderEvent} (h : Accounted b tape)
    (hRun : MockBroker.advance bar slippage b = .ok events b') :
    Accounted b' (tape ++ events.filterMap (executionOf b')) := by
  simp only [MockBroker.advance, bind_ok_iff, get_ok_iff, pure_ok_iff] at hRun
  obtain ⟨_, _, ⟨rfl, rfl⟩, fills, _, hLoop, rfl, rfl⟩ := hRun
  -- the orders stay the same, so every event reads the same side throughout
  have hLoopInv := each_rule (fun _ log s => s.orders = b.orders ∧
    Accounted s (tape ++ log.flatten.filterMap (executionOf b))) ?_ ⟨rfl, by simpa using h⟩ hLoop
  · rw [executionOf_congr hLoopInv.1]
    exact hLoopInv.2
  · rintro done id rest log es s s' - ⟨hOrders, hInv⟩ hStep
    rcases MockBroker.advanceOrder_ok hStep with ⟨rfl, rfl, -⟩ | ⟨e, rfl, hFilled⟩
    · exact ⟨hOrders, by simpa using hInv⟩
    · obtain ⟨order, filled, intended, price, -, -, -, hFill⟩ := hFilled
      refine ⟨hFill.orders.trans hOrders, ?_⟩
      have hExecution := executionOf_fill hFill
      rw [executionOf_congr hOrders] at hExecution
      simpa [hExecution] using hInv.book hFill.booked

theorem Accounted.roll {front back : ContractSymbol} {frontFill backFill : ℚ} {b b' : MockBroker}
    {tape : BrokerTape} {qty : ℤ} (h : Accounted b tape)
    (hRun : MockBroker.rollPosition front back frontFill backFill b = .ok qty b') :
    Accounted b' (tape ++ rollLegs front back frontFill backFill qty) := by
  obtain ⟨hQty, ⟨hZero, rfl⟩ | ⟨hOpen, hRolled⟩⟩ := MockBroker.rollPosition_ok hRun
  · simpa [rollLegs, hZero] using h
  · obtain ⟨b₁, hFront, hBack⟩ := hRolled.legs
    rw [← hQty] at hFront hBack
    simpa [rollLegs, hOpen] using (h.book hFront).book hBack

theorem Accounted.perform {op : BrokerOp} {b b' : MockBroker} {tape legs : BrokerTape}
    (h : Accounted b tape) (hRun : perform op b = .ok legs b') : Accounted b' (tape ++ legs) := by
  cases op with
  | place order =>
    simp only [Engine.perform, bind_ok_iff, pure_ok_iff] at hRun
    obtain ⟨id, _, hPlace, rfl, rfl⟩ := hRun
    simpa using h.noFill (MockBroker.placeOrder_ok hPlace).toNoFill
  | modify id limitPrice stopPrice quantity =>
    simp only [Engine.perform, bind_ok_iff, pure_ok_iff] at hRun
    obtain ⟨_, _, hModify, rfl, rfl⟩ := hRun
    simpa using h.noFill (MockBroker.modifyOrder_ok hModify).1
  | cancel id =>
    simp only [Engine.perform, bind_ok_iff, pure_ok_iff] at hRun
    obtain ⟨_, _, hCancel, rfl, rfl⟩ := hRun
    simpa using h.noFill (MockBroker.cancelOrder_ok hCancel).1
  | fill id price quantity =>
    simp only [Engine.perform, bind_ok_iff, get_ok_iff, pure_ok_iff] at hRun
    obtain ⟨event, _, hFill, _, _, ⟨rfl, rfl⟩, rfl, rfl⟩ := hRun
    obtain ⟨order, filled, actual, hStep, -⟩ := MockBroker.fillOrder_ok hFill
    rw [executionOf_congr hStep.orders, executionOf_fill hStep]
    exact h.book hStep.booked
  | advance bar slippage =>
    simp only [Engine.perform, bind_ok_iff, get_ok_iff, pure_ok_iff] at hRun
    obtain ⟨events, _, hAdvance, _, _, ⟨rfl, rfl⟩, rfl, rfl⟩ := hRun
    exact h.advance hAdvance
  | roll front back frontFill backFill =>
    simp only [Engine.perform, bind_ok_iff, pure_ok_iff] at hRun
    obtain ⟨qty, _, hRoll, rfl, rfl⟩ := hRun
    exact h.roll hRoll

/-- After any run from a fresh broker the ledger is that of the tape of the run. -/
theorem Accounted.run {config : BrokerConfig} {ops : List BrokerOp} {legs : List BrokerTape}
    {b : MockBroker} (hRun : each Engine.perform ops (MockBroker.fresh config) = .ok legs b) :
    Accounted b legs.flatten := by
  refine each_rule (fun _ log s => Accounted s log.flatten) ?_ (Accounted.fresh config) hRun
  rintro done op rest log leg s s' - hInv hStep
  simpa using hInv.perform hStep

/-! ## Equity -/

def multiplierOr (c : ContractSymbol) : ℚ := (multiplierFor c).toOption.getD 0

theorem multiplierOr_eq {c : ContractSymbol} {mult : ℚ} (h : multiplierFor c = .ok mult) :
    multiplierOr c = mult := by
  rw [multiplierOr, h]
  rfl

theorem tapeEquity_ok_iff {startingEquity : ℚ} {mark : ContractSymbol → ℚ} {tape : BrokerTape}
    {v : ℚ} : tapeEquity startingEquity mark tape = .ok v ↔
      (∀ e ∈ tape, ∃ mult, multiplierFor e.contract = .ok mult) ∧
        v = startingEquity + (tape.map fun e =>
          (mark e.contract - e.price) * e.quantity * multiplierOr e.contract).sum := by
  induction tape generalizing v with
  | nil =>
    rw [tapeEquity, except_pure_ok_iff]
    simp [eq_comm]
  | cons e rest ih =>
    simp only [tapeEquity, except_bind_ok_iff, except_pure_ok_iff, ih, List.forall_mem_cons,
      List.map_cons, List.sum_cons]
    constructor
    · rintro ⟨mult, hMult, others, ⟨hRest, rfl⟩, rfl⟩
      refine ⟨⟨⟨mult, hMult⟩, hRest⟩, ?_⟩
      rw [multiplierOr_eq hMult]
      ring
    · rintro ⟨⟨⟨mult, hMult⟩, hRest⟩, rfl⟩
      refine ⟨mult, hMult, _, ⟨hRest, rfl⟩, ?_⟩
      rw [multiplierOr_eq hMult]
      ring

def unrealizedAt (mark : ContractSymbol → ℚ) (p : Position) : ℚ :=
  (mark p.contract - p.avgEntryPrice) * p.quantity * multiplierOr p.contract

theorem addUnrealized_ok_iff {lastClose : Dict ContractSymbol ℚ} {mark : ContractSymbol → ℚ}
    {positions : List Position} {u v : ℚ}
    (hMarked : ∀ p ∈ positions, p.quantity ≠ 0 →
      lastClose.get? p.contract = some (mark p.contract)) :
    addUnrealized lastClose u positions = .ok v ↔
      (∀ p ∈ positions, p.quantity ≠ 0 → ∃ mult, multiplierFor p.contract = .ok mult) ∧
        v = u + (positions.map (unrealizedAt mark)).sum := by
  induction positions generalizing u v with
  | nil =>
    rw [addUnrealized, except_pure_ok_iff]
    simp [eq_comm]
  | cons p rest ih =>
    have ih := fun u v => ih (u := u) (v := v) fun q hq => hMarked q (List.mem_cons_of_mem p hq)
    rw [List.forall_mem_cons, List.map_cons, List.sum_cons]
    by_cases hFlat : p.quantity = 0
    · simp [addUnrealized, hFlat, ih, unrealizedAt]
    · have hClose := hMarked p List.mem_cons_self hFlat
      simp only [addUnrealized, hFlat, if_false, hClose, except_bind_ok_iff, ih, not_false_eq_true,
        forall_const, ne_eq]
      constructor
      · rintro ⟨mult, hMult, hRest, rfl⟩
        refine ⟨⟨⟨mult, hMult⟩, hRest⟩, ?_⟩
        rw [unrealizedAt, multiplierOr_eq hMult]
        ring
      · rintro ⟨⟨⟨mult, hMult⟩, hRest⟩, rfl⟩
        refine ⟨mult, hMult, hRest, ?_⟩
        rw [unrealizedAt, multiplierOr_eq hMult]
        ring

theorem getPositions_perm (b : MockBroker) : b.getPositions.Perm b.positions.values :=
  List.perm_insertionSort _ _

theorem mem_getPositions_iff {b : MockBroker} {p : Position} :
    p ∈ b.getPositions ↔ ∃ c, b.positions.get? c = some p := by
  rw [(getPositions_perm b).mem_iff, Dict.mem_values_iff]

/-- Open positions are configured exactly when everything on the tape is. -/
theorem Accounted.configured_iff {b : MockBroker} {tape : BrokerTape} (h : Accounted b tape) :
    (∀ p ∈ b.getPositions, p.quantity ≠ 0 → ∃ mult, multiplierFor p.contract = .ok mult) ↔
      ∀ e ∈ tape, ∃ mult, multiplierFor e.contract = .ok mult := by
  constructor
  · intro hOpen e he
    obtain ⟨p, hp⟩ := (Dict.mem_keys_iff _ _).mp ((h.traded e.contract).mpr ⟨e, he, rfl⟩)
    by_cases hFlat : p.quantity = 0
    · exact h.configured e.contract p hp hFlat
    · have := hOpen p (mem_getPositions_iff.mpr ⟨_, hp⟩) hFlat
      rwa [h.keyed _ _ hp] at this
  · intro hTape p hp hOpen
    obtain ⟨c, hGet⟩ := mem_getPositions_iff.mp hp
    obtain ⟨e, he, rfl⟩ := (h.traded c).mp ((Dict.mem_keys_iff _ _).mpr ⟨p, hGet⟩)
    rw [h.keyed _ _ hGet]
    exact hTape e he

/-- Realized and unrealized results of all contracts add up to the gain of the tape. -/
theorem Accounted.total_value {b : MockBroker} {tape : BrokerTape} (h : Accounted b tape)
    (hConfigured : ∀ e ∈ tape, ∃ mult, multiplierFor e.contract = .ok mult)
    (mark : ContractSymbol → ℚ) :
    b.realizedPnlToday + (b.getPositions.map (unrealizedAt mark)).sum =
      (tape.map fun e => (mark e.contract - e.price) * e.quantity * multiplierOr e.contract).sum := by
  have hKey : ∀ c ∈ b.positions.keys, b.contractValue c (mark c) (multiplierOr c) =
      Tape.gain tape c (mark c) * multiplierOr c := by
    intro c hc
    obtain ⟨e, he, rfl⟩ := (h.traded c).mp hc
    obtain ⟨mult, hMult⟩ := hConfigured e he
    rw [multiplierOr_eq hMult]
    exact h.value e.contract mult hMult (mark e.contract)
  have hValue : ∀ item ∈ b.positions.items,
      b.contractValue item.1 (mark item.1) (multiplierOr item.1) =
        item.2.realizedPnlToday + unrealizedAt mark item.2 := by
    rintro ⟨c, p⟩ hItem
    have hGet := (Dict.mem_items_iff _ c p).mp hItem
    simp [MockBroker.contractValue, hGet, unrealizedAt, h.keyed c p hGet]
  calc b.realizedPnlToday + (b.getPositions.map (unrealizedAt mark)).sum
      = (b.positions.items.map fun item => item.2.realizedPnlToday).sum +
          (b.positions.items.map fun item => unrealizedAt mark item.2).sum := by
        rw [((getPositions_perm b).map _).sum_eq, ← h.realized, Dict.total, Dict.values,
          List.map_map]
        rfl
    _ = (b.positions.items.map fun item =>
          b.contractValue item.1 (mark item.1) (multiplierOr item.1)).sum := by
        rw [← List.sum_map_add]
        exact congrArg List.sum (List.map_congr_left fun item hItem => (hValue item hItem).symm)
    _ = (b.positions.keys.map fun c => Tape.gain tape c (mark c) * multiplierOr c).sum := by
        rw [← List.map_congr_left hKey, Dict.keys, List.map_map]
        rfl
    _ = _ := Tape.sum_gain tape b.positions.keys b.positions.keys_nodup
        (fun e he => (h.traded e.contract).mpr ⟨e, he, rfl⟩) mark multiplierOr

theorem Accounted.markToMarket_iff {b : MockBroker} {tape : BrokerTape} (h : Accounted b tape)
    {lastClose : Dict ContractSymbol ℚ} {mark : ContractSymbol → ℚ}
    (hMark : ∀ c, b.net c ≠ 0 → lastClose.get? c = some (mark c)) (v : ℚ) :
    markToMarket (b.config.startingEquity + b.realizedPnlToday) b.getPositions lastClose = .ok v ↔
      tapeEquity b.config.startingEquity mark tape = .ok v := by
  have hMarked : ∀ p ∈ b.getPositions, p.quantity ≠ 0 →
      lastClose.get? p.contract = some (mark p.contract) := by
    intro p hp hOpen
    obtain ⟨c, hGet⟩ := mem_getPositions_iff.mp hp
    rw [h.keyed c p hGet]
    refine hMark c ?_
    rwa [MockBroker.net, hGet]
  rw [tapeEquity_ok_iff, ← h.configured_iff]
  simp only [markToMarket, except_bind_ok_iff, except_pure_ok_iff, addUnrealized_ok_iff hMarked]
  constructor
  · rintro ⟨u, ⟨hConfigured, rfl⟩, rfl⟩
    refine ⟨hConfigured, ?_⟩
    rw [← h.total_value (h.configured_iff.mp hConfigured) mark]
    ring
  · rintro ⟨hConfigured, rfl⟩
    refine ⟨_, ⟨hConfigured, rfl⟩, ?_⟩
    rw [← h.total_value (h.configured_iff.mp hConfigured) mark]
    ring

/-- After any run of operations that raised nothing: net quantities, equity at any marks and the
day's realized result are those of the tape of all fills and roll legs. -/
theorem accounting_identity {config : BrokerConfig} {ops : List BrokerOp} {legs : List BrokerTape}
    {b : MockBroker} (hRun : each perform ops (MockBroker.fresh config) = .ok legs b) :
    (∀ c, b.net c = Tape.netQuantity legs.flatten c) ∧
      (∀ lastClose mark, (∀ c, b.net c ≠ 0 → lastClose.get? c = some (mark c)) → ∀ v,
        (markToMarket (b.config.startingEquity + b.realizedPnlToday) b.getPositions lastClose = .ok v ↔
          tapeEquity b.config.startingEquity mark legs.flatten = .ok v)) ∧
      (b.getPositions.map Position.realizedPnlToday).sum = b.realizedPnlToday := by
  have h := Accounted.run hRun
  refine ⟨h.net, fun lastClose mark hMark v => h.markToMarket_iff hMark v, ?_⟩
  rw [((getPositions_perm b).map _).sum_eq, ← h.realized, Dict.total, Dict.values, List.map_map]
  rfl

/-- Buy two in two parts, roll, and sell three: a flat front and a flipped back month. -/
def rollAndFlip : List BrokerOp :=
  let order (contract : ContractSymbol) (side : Side) (quantity : ℤ) (h : 0 < quantity) : Order :=
    { contract, side, quantity, orderType := .mkt, limitPrice := none, stopPrice := none
      duration := .day, parentOrderId := none, ocoGroupId := none, clientOrderId := none
      quantity_pos := h, limit_present := by decide, stop_present := by decide }
  [.place (order "MESZ25" .buy 2 (by decide)), .fill ⟨1⟩ 6800 (some 1), .fill ⟨1⟩ 6810 none,
    .roll "MESZ25" "MESH26" 6820 6870, .place (order "MESH26" .sell 3 (by decide)),
    .fill ⟨2⟩ 6850 none]

theorem accounting_identity_roll_and_flip : ∃ legs b,
    each perform rollAndFlip freshBroker = .ok legs b ∧
      (∀ c, b.net c = Tape.netQuantity legs.flatten c) ∧
      (∀ lastClose mark, (∀ c, b.net c ≠ 0 → lastClose.get? c = some (mark c)) → ∀ v,
        (markToMarket (b.config.startingEquity + b.realizedPnlToday) b.getPositions lastClose = .ok v ↔
          tapeEquity b.config.startingEquity mark legs.flatten = .ok v)) ∧
      (b.getPositions.map Position.realizedPnlToday).sum = b.realizedPnlToday := by
  have hReturns : returns (each perform rollAndFlip) freshBroker
      (fun legs _ => legs.flatten.length = 5) = true := by decide +kernel
  obtain ⟨legs, b, hRun, -⟩ := exists_ok_of_returns hReturns
  exact ⟨legs, b, hRun, accounting_identity hRun⟩

end Futur3.Engine
