import Futur3.Engine.LookAhead
import Futur3.Engine.NextBarFill
import Futur3.Execution.BrokerReach
import Futur3.Execution.ClientTags
import Futur3.Execution.FixedSize

/-! # A portfolio of one stream

The portfolio engine over one stream does what the backtest engine does over its
bars. The two loops are walked side by side, one date for one bar: the states
mirror each other, with brokers that differ in client ids only.
-/

namespace Futur3.Engine

open Data Execution Prelude Method Selection
open MockBroker (Consistent)

variable {σ ρ : Type}

/-- A strategy of one stream, as a strategy of the portfolio that has this stream only. -/
def Strategy.onStream (strategy : Strategy σ) (key : ContractSymbol) : CrossSectionalStrategy σ where
  generateSignals histories memory := do
    let (signal, memory) ← strategy.generateSignal ((histories.get? key).getD []) memory
    match signal with
    | none => pure (.empty, memory)
    | some signal => pure (.ofList [(key, signal)], memory)

def BacktestEngine.asPortfolio (e : BacktestEngine σ ρ) (key : ContractSymbol) (volLookback : ℤ)
    (sqrt : ℚ → ℚ) : PortfolioBacktestEngine σ ρ where
  strategy := e.strategy.onStream key
  guard := e.guard
  risk := e.risk
  slippage := e.slippage
  targetPosition := e.targetPosition
  rollEvents := e.rollEvents
  riskParity := false
  volLookback := volLookback
  sqrt := sqrt

/-! ## States that mirror each other -/

def LoopState.mirror (s : LoopState σ ρ) (broker : MockBroker)
    (history : Dict ContractSymbol (List VerifiedBar)) : PortfolioState σ ρ where
  broker := broker
  guard := s.guard
  strategy := s.strategy
  history := history
  lastClose := s.lastClose
  equityCurve := s.equityCurve
  signalsEmitted := s.signals
  orders := s.orders
  fills := s.fills
  rollsExecuted := s.rollsExecuted
  totalRollCost := s.totalRollCost

/-- The states mirror each other; the portfolio has recorded the taken bars already. -/
def Mirrors (key : ContractSymbol) (taken : List VerifiedBar) (s : LoopState σ ρ)
    (p : PortfolioState σ ρ) : Prop :=
  ∃ broker history, SameLedger s.broker broker ∧ history.get? key = some (s.history ++ taken) ∧
    s.survivalCapped = 0 ∧ p = s.mirror broker history

variable {key : ContractSymbol} {taken : List VerifiedBar} {e : BacktestEngine σ ρ}
  {volLookback : ℤ} {sqrt : ℚ → ℚ}

theorem mirrors_onBroker {α β : Type} {x : BrokerM α} {y : BrokerM β} {Q : α → β → Prop}
    (h : Agree SameLedger Q x y) :
    Agree (Mirrors key taken) Q (onBroker x : EngineM σ ρ α) (PortfolioBacktestEngine.onBroker y) := by
  rintro s _ ⟨broker, history, hLedger, hHistory, hCapped, rfl⟩
  have hBoth : Both SameLedger Q (x s.broker) (y (s.mirror broker history).broker) := h _ _ hLedger
  unfold onBroker PortfolioBacktestEngine.onBroker
  generalize x s.broker = r at hBoth ⊢
  generalize y (s.mirror broker history).broker = r' at hBoth ⊢
  cases hBoth with
  | ok hQ hLedger' => exact .ok hQ ⟨_, history, hLedger', hHistory, hCapped, rfl⟩
  | error => exact .error

theorem mirrors_isTradeAllowed (hGuard : e.guard.IgnoresClientIds) (contract : ContractSymbol)
    (side : Side) (quantity : ℤ) :
    Agree (Mirrors key taken) Eq (e.isTradeAllowed contract side quantity)
      ((e.asPortfolio key volLookback sqrt).isTradeAllowed contract side quantity) := by
  rintro s _ ⟨broker, history, hLedger, hHistory, hCapped, rfl⟩
  have hSame := hGuard s.broker broker contract side quantity s.guard hLedger
  refine .ok (congrArg Prod.fst hSame) ⟨broker, history, hLedger, hHistory, hCapped, ?_⟩
  exact congrArg (fun out => { s.mirror broker history with guard := out.2 }) hSame.symm

theorem both_market (contract : ContractSymbol) (side : Side) (quantity : ℤ) (tag tag' : String) :
    BothExcept SameTerms (Order.market contract side quantity tag)
      (Order.market contract side quantity tag') := by
  unfold Order.market Order.create
  by_cases hQuantity : quantity ≤ 0
  · rw [dif_pos hQuantity, dif_pos hQuantity]
    exact .error
  · have hLimit : ¬(requiresLimit .mkt = true ∧ (none : Option ℚ) = none) := fun h => by cases h.1
    have hStop : ¬(requiresStop .mkt = true ∧ (none : Option ℚ) = none) := fun h => by cases h.1
    rw [dif_neg hQuantity, dif_neg hLimit, dif_neg hStop, dif_neg hQuantity, dif_neg hLimit,
      dif_neg hStop]
    exact .ok ⟨some tag', rfl⟩

theorem mirrors_placeMarket (contract : ContractSymbol) (side : Side) (quantity : ℤ)
    (tag tag' : String) :
    Agree (Mirrors key taken) Eq
      (BacktestEngine.placeMarket contract side quantity tag : EngineM σ ρ BrokerOrderId)
      (PortfolioBacktestEngine.placeMarket contract side quantity tag') := by
  apply leads_bind (leads_liftExcept ((both_market contract side quantity tag tag').mapError _ _))
  intro order order' hTerms
  apply leads_bind (mirrors_onBroker (MockBroker.same_placeOrder hTerms))
  rintro id _ rfl
  refine leads_bind (agree_modify ?_) fun _ _ _ => leads_pure rfl
  rintro s _ ⟨broker, history, hLedger, hHistory, hCapped, rfl⟩
  exact ⟨broker, history, hLedger, hHistory, hCapped, rfl⟩

/-- Both engines ask the guard, then place the order. -/
theorem mirrors_checked (hGuard : e.guard.IgnoresClientIds) {α β : Type} (contract : ContractSymbol)
    (side : Side) (quantity : ℤ) (tag tag' : String) (refused : α) (placed : BrokerOrderId → α)
    (refused' : β) (placed' : BrokerOrderId → β) :
    Agree (Mirrors key taken) (fun _ _ => True)
      (do
        let block ← e.isTradeAllowed contract side quantity
        if block ≠ none then pure refused
        else
          let id ← BacktestEngine.placeMarket contract side quantity tag
          pure (placed id))
      (do
        let block ← (e.asPortfolio key volLookback sqrt).isTradeAllowed contract side quantity
        if block ≠ none then pure refused'
        else
          let id ← PortfolioBacktestEngine.placeMarket contract side quantity tag'
          pure (placed' id)) := by
  apply leads_bind (mirrors_isTradeAllowed hGuard contract side quantity)
  rintro block _ rfl
  apply leads_ite Iff.rfl
  · intro _
    exact leads_pure trivial
  · intro _
    exact leads_bind (mirrors_placeMarket contract side quantity tag tag') fun _ _ _ =>
      leads_pure trivial

/-! ## One bar, one date -/

theorem mirrors_accountEquity :
    Agree (Mirrors key taken) Eq e.accountEquity (e.asPortfolio key volLookback sqrt).accountEquity := by
  apply leads_get_bind
  rintro s _ ⟨broker, history, hLedger, hHistory, hCapped, rfl⟩
  have hMetrics : (s.mirror broker history).broker.getAccountMetrics = s.broker.getAccountMetrics :=
    hLedger.metrics
  rw [hMetrics]
  apply leads_bind (leads_liftExcept_same _ _ _)
  rintro metrics _ rfl
  refine leads_bind (agree_modify ?_) fun _ _ _ => leads_pure rfl
  rintro t _ ⟨broker, history, hLedger, hHistory, hCapped, rfl⟩
  exact ⟨broker, history, hLedger, hHistory, hCapped, rfl⟩

def Taken (key : ContractSymbol) (bar : VerifiedBar) (s : LoopState σ ρ) (p : PortfolioState σ ρ) :
    Prop :=
  Mirrors key [bar] s p ∧ s.lastClose.get? bar.contract = some bar.close

/-- The states at the decision on a bar: the bar is recorded and its close is known. -/
def AtBar (key : ContractSymbol) (bar : VerifiedBar) (s : LoopState σ ρ) (p : PortfolioState σ ρ) :
    Prop :=
  Mirrors key [] s p ∧ s.history.getLast? = some bar ∧ s.lastClose.get? bar.contract = some bar.close

theorem leads_mark (bar : VerifiedBar) :
    Leads (Taken key bar) (AtBar key bar) Eq (e.mark bar) (e.asPortfolio key volLookback sqrt).mark := by
  have hEquity : Agree (Taken key bar) Eq e.accountEquity
      (e.asPortfolio key volLookback sqrt).accountEquity := by
    apply mirrors_accountEquity.with_left
    intro s equity s' hClose hRun
    simp only [BacktestEngine.accountEquity, bind_ok_iff, get_ok_iff, liftExcept_ok_iff,
      modify_ok_iff, pure_ok_iff] at hRun
    obtain ⟨_, _, ⟨rfl, rfl⟩, _, _, ⟨-, rfl⟩, _, _, rfl, -, rfl⟩ := hRun
    exact hClose
  apply leads_bind hEquity
  rintro equity _ rfl
  apply leads_get_bind
  rintro s _ ⟨⟨broker, history, hLedger, hHistory, hCapped, rfl⟩, hClose⟩
  have hPositions : (s.mirror broker history).broker.getPositions = s.broker.getPositions :=
    hLedger.getPositions
  rw [hPositions]
  apply leads_bind (leads_liftExcept_same _ _ _)
  rintro mtmEquity _ rfl
  refine leads_bind (leads_modify ?_) fun _ _ _ => leads_pure rfl
  rintro t _ ⟨⟨broker, history, hLedger, hHistory, hCapped, rfl⟩, hClose⟩
  refine ⟨⟨broker, history, hLedger, ?_, hCapped, rfl⟩, List.getLast?_concat, hClose⟩
  rwa [List.append_nil]

/-! ### Fills -/

def BacktestEngine.takeBar (e : BacktestEngine σ ρ) (bar : VerifiedBar) :
    EngineM σ ρ (List OrderEvent × MockBroker) := do
  let filled ← onBroker (MockBroker.advance bar e.slippage)
  modify fun s => { s with fills := s.fills + filled.length
                           lastClose := s.lastClose.set bar.contract bar.close }
  let s ← get
  pure (filled, s.broker)

theorem fillAndRoll_eq (hGate : e.survivalGate = false) (bar : VerifiedBar) :
    e.fillAndRoll bar = (do
      let out ← e.takeBar bar
      e.executeRoll bar
      pure out) := by
  unfold BacktestEngine.fillAndRoll BacktestEngine.takeBar
  simp only [hGate, bind_assoc, pure_bind]
  rfl

theorem leads_takeBar (bar : VerifiedBar) :
    Leads (Mirrors key []) (Taken key bar) (fun _ _ => True) (e.takeBar bar)
      ((e.asPortfolio key volLookback sqrt).takeBar (key, bar)) := by
  apply leads_bind (mirrors_onBroker (MockBroker.same_advance bar e.slippage))
  intro filled filled' hFilled
  refine leads_bind (leads_modify (T := Taken key bar) ?_) fun _ _ _ => ?_
  · rintro s _ ⟨broker, history, hLedger, hHistory, hCapped, rfl⟩
    have hRecorded : (history.get? key).getD [] = s.history := by
      rw [hHistory, List.append_nil, Option.getD_some]
    refine ⟨⟨broker, history.set key (s.history ++ [bar]), hLedger, ?_, hCapped, ?_⟩, ?_⟩
    · exact Dict.get?_set_self ..
    · simp only [LoopState.mirror, hRecorded, hFilled]
    · exact Dict.get?_set_self ..
  · apply leads_get_bind
    intro s p _
    exact leads_pure trivial

/-! ### Rolls -/

theorem filter_eq_singleton {α β : Type} [DecidableEq β] {f : α → β} {items : List α} {a : α}
    (hDistinct : (items.map f).Nodup) (hMem : a ∈ items) :
    items.filter (fun x => f x = f a) = [a] := by
  induction items with
  | nil => cases hMem
  | cons x rest ih =>
    obtain ⟨hx, hRest⟩ := List.nodup_cons.mp hDistinct
    rcases List.mem_cons.mp hMem with rfl | hLater
    · have hNone : rest.filter (fun x => f x = f a) = [] := by
        apply List.filter_eq_nil_iff.mpr
        intro y hy hEq
        exact hx (List.mem_map.mpr ⟨y, hy, of_decide_eq_true hEq⟩)
      rw [List.filter_cons_of_pos (by simp), hNone]
    · have hNe : f x ≠ f a := fun hEq => hx (List.mem_map.mpr ⟨a, hLater, hEq.symm⟩)
      rw [List.filter_cons_of_neg (by simpa using hNe), ih hRest hLater]

/-- With distinct roll dates a date has one roll at most. -/
theorem rollsOn_eq (hRolls : (e.rollEvents.map RollEvent.rollDate).Nodup) (date : Date) :
    (e.asPortfolio key volLookback sqrt).rollsOn date = (e.rollByDate.get? date).toList := by
  change e.rollEvents.filter (fun event => event.rollDate = date) = _
  cases hEvent : e.rollByDate.get? date with
  | none =>
    apply List.filter_eq_nil_iff.mpr
    intro event hMem hDate
    obtain rfl := of_decide_eq_true hDate
    have hPair : (event.rollDate, event) ∈ e.rollEvents.map fun event => (event.rollDate, event) :=
      List.mem_map.mpr ⟨event, hMem, rfl⟩
    obtain ⟨event', hFound⟩ := Dict.exists_get?_ofList hPair
    cases hEvent.symm.trans hFound
  | some event =>
    obtain ⟨hMem, rfl⟩ := BacktestEngine.mem_rollEvents hEvent
    exact filter_eq_singleton hRolls hMem

def BacktestEngine.roll (event : RollEvent) : EngineM σ ρ PUnit := do
  let rolled ← onBroker (MockBroker.rollPosition event.oldContract event.newContract
    event.frontSettle event.backSettle)
  if rolled = 0 then pure ⟨⟩
  else
    let mult ← Method.liftExcept ((multiplierFor event.newContract).mapError RunFailure.sizing)
    let cost := (event.backSettle - event.frontSettle) * rolled * mult
    modify fun s => { s with rollsExecuted := s.rollsExecuted + 1
                             totalRollCost := s.totalRollCost + cost }

/-- Looking for the position first makes no difference: a flat broker rolls nothing. -/
theorem executeRoll_eq {bar : VerifiedBar} {event : RollEvent} {s : LoopState σ ρ}
    (hEvent : e.rollByDate.get? bar.ts.date = some event) (hConsistent : Consistent s.broker) :
    e.executeRoll bar s = BacktestEngine.roll event s := by
  unfold BacktestEngine.executeRoll
  rw [hEvent]
  simp only [get_bind]
  by_cases hFlat : netPosition s.broker.getPositions event.oldContract = 0
  · rw [if_pos hFlat]
    rw [netPosition_getPositions hConsistent.keyed] at hFlat
    have hRolled : (onBroker (MockBroker.rollPosition event.oldContract event.newContract
        event.frontSettle event.backSettle) : EngineM σ ρ ℤ) s = .ok 0 s := by
      unfold onBroker
      rw [MockBroker.rollPosition_flat hFlat]
    rw [BacktestEngine.roll, bind_of_ok hRolled, if_pos rfl]
  · rw [if_neg hFlat]
    rfl

theorem leads_roll (bar : VerifiedBar) (event : RollEvent) :
    Agree (Taken key bar) Eq (BacktestEngine.roll event : EngineM σ ρ PUnit)
      (PortfolioBacktestEngine.executeRoll event) := by
  have hRolled : Agree (Mirrors key [bar]) Eq (BacktestEngine.roll event : EngineM σ ρ PUnit)
      (PortfolioBacktestEngine.executeRoll event) := by
    apply leads_bind (mirrors_onBroker (MockBroker.same_rollPosition _ _ _ _))
    rintro rolled _ rfl
    apply leads_ite Iff.rfl
    · intro _
      exact leads_pure rfl
    · intro _
      apply leads_bind (leads_liftExcept_same _ _ _)
      rintro mult _ rfl
      apply agree_modify
      rintro s _ ⟨broker, history, hLedger, hHistory, hCapped, rfl⟩
      exact ⟨broker, history, hLedger, hHistory, hCapped, rfl⟩
  apply hRolled.with_left
  intro s u s' hClose hRun
  simp only [BacktestEngine.roll, bind_ok_iff, onBroker_ok_iff, ite_ok_iff, pure_ok_iff,
    liftExcept_ok_iff, modify_ok_iff] at hRun
  obtain ⟨rolled, _, ⟨b, -, rfl⟩, ⟨-, -, rfl⟩ | ⟨-, mult, _, ⟨-, rfl⟩, rfl⟩⟩ := hRun
  · exact hClose
  · exact hClose

theorem leads_executeRoll (hRolls : (e.rollEvents.map RollEvent.rollDate).Nodup) (bar : VerifiedBar) :
    Leads (fun s p => Taken key bar s p ∧ Consistent s.broker) (Taken key bar) (fun _ _ => True)
      (e.executeRoll bar)
      (each PortfolioBacktestEngine.executeRoll
        ((e.asPortfolio key volLookback sqrt).rollsOn bar.ts.date)) := by
  rw [rollsOn_eq hRolls]
  cases hEvent : e.rollByDate.get? bar.ts.date with
  | none =>
    rintro s p ⟨hTaken, -⟩
    unfold BacktestEngine.executeRoll
    rw [hEvent]
    exact .ok trivial hTaken
  | some event =>
    rintro s p ⟨hTaken, hConsistent⟩
    rw [executeRoll_eq hEvent hConsistent, Option.toList_some]
    rw [each_singleton]
    exact (leads_roll bar event).then_right (fun _ _ _ => leads_pure trivial) s p hTaken

/-! ### Decisions -/

theorem both_signals (hOwn : TradesLastContract e.strategy) {bar : VerifiedBar}
    {history : List VerifiedBar} (hLast : history.getLast? = some bar) (memory : σ)
    {histories : Dict ContractSymbol (List VerifiedBar)} (hHistory : histories.get? key = some history) :
    BothExcept (fun out out' =>
        out' = (out.1.elim .empty fun signal => .ofList [(key, signal)], out.2) ∧
          ∀ signal, out.1 = some signal → signal.contract = bar.contract)
      (e.strategy.generateSignal history memory)
      ((e.asPortfolio key volLookback sqrt).strategy.generateSignals histories memory) := by
  obtain ⟨before, rfl⟩ := List.getLast?_eq_some_iff.mp hLast
  have hOut : (e.asPortfolio key volLookback sqrt).strategy.generateSignals histories memory =
      (e.strategy.generateSignal (before ++ [bar]) memory >>= fun out =>
        match out.1 with
        | none => pure (.empty, out.2)
        | some signal => pure (.ofList [(key, signal)], out.2)) := by
    change (e.strategy.generateSignal ((histories.get? key).getD []) memory >>= _) = _
    rw [hHistory]
    rfl
  rw [hOut]
  cases hSignal : e.strategy.generateSignal (before ++ [bar]) memory with
  | error text => exact .error
  | ok out =>
    obtain ⟨signal, memory'⟩ := out
    cases signal with
    | none => exact .ok ⟨rfl, by simp⟩
    | some signal =>
      refine .ok ⟨rfl, ?_⟩
      rintro _ ⟨⟩
      exact hOwn before bar memory signal memory' hSignal

section Decide

variable (hGate : e.survivalGate = false) (hGuard : e.guard.IgnoresClientIds)

include hGate hGuard

theorem mirrors_tradeSignal (hRisk : e.risk.SurvivalOnRequest) (i : ℕ) (bar : VerifiedBar)
    (mtmEquity : ℚ) (positions : List Position) (signal : Signal) :
    Agree (Mirrors key []) (fun _ _ => True) (e.tradeSignal i bar mtmEquity positions signal)
      ((e.asPortfolio key volLookback sqrt).tradeLeg positions mtmEquity none key signal bar.close) := by
  apply leads_get_left
  intro s
  have hInputs : e.survivalInputs s.closesByContract signal.contract i = .ok (none, none) := by
    unfold BacktestEngine.survivalInputs
    rw [hGate]
    rfl
  rw [hInputs]
  have hSized := (BothExcept.refl (e.risk.sizePosition signal.contract signal.fullKellyFraction
    mtmEquity bar.close none none)).with_left fun decision h => hRisk _ _ _ _ decision h
  apply leads_bind (leads_liftExcept (hSized.mapError RunFailure.sizing
    (PortfolioFailure.run ∘ RunFailure.sizing)))
  rintro decision _ ⟨rfl, hBinding⟩
  refine leads_modify_left (S := Mirrors key []) ?_ ?_
  · rintro s _ ⟨broker, history, hLedger, hHistory, hCapped, rfl⟩
    refine ⟨broker, history, hLedger, hHistory, ?_, rfl⟩
    change s.survivalCapped + (if decision.bindingConstraint = .survival then 1 else 0) = 0
    rw [if_neg hBinding, hCapped]
  apply leads_ite Iff.rfl
  · intro _
    exact leads_pure trivial
  · intro _
    have hSame : (e.asPortfolio key volLookback sqrt).resolveOrder decision signal positions
        signal.contract = e.resolveOrder decision signal positions := rfl
    rw [hSame]
    cases e.resolveOrder decision signal positions with
    | none => exact leads_pure trivial
    | some resolved =>
      exact mirrors_checked hGuard _ _ _ _ _ (BarOutcome.blocked signal decision)
        (BarOutcome.ordered signal decision) (LegOutcome.blocked decision)
        (LegOutcome.ordered decision)

omit hGate in
theorem mirrors_flatten (bar : VerifiedBar) (positions : List Position) (signal : Signal) :
    Agree (Mirrors key []) (fun _ _ => True) (e.flattenOnFlat signal positions bar)
      ((e.asPortfolio key volLookback sqrt).flatten signal.contract positions) := by
  apply leads_ite Iff.rfl
  · intro _
    exact leads_pure trivial
  · intro _
    exact mirrors_checked hGuard _ _ _ _ _ none some LegOutcome.flatBlocked LegOutcome.flattened

/-- What the two engines do with a signal for the contract of the bar. -/
theorem mirrors_signal (hRisk : e.risk.SurvivalOnRequest) (i : ℕ) (bar : VerifiedBar)
    (mtmEquity : ℚ) (positions : List Position) (signal : Signal)
    {lastClose : Dict ContractSymbol ℚ} (hClose : lastClose.get? signal.contract = some bar.close) :
    Agree (Mirrors key []) (fun _ _ => True)
      (if signal.direction = 0 then
        if e.targetPosition then do
          let closing ← e.flattenOnFlat signal positions bar
          pure (BarOutcome.flat signal closing)
        else pure (.flat signal none)
      else e.tradeSignal i bar mtmEquity positions signal)
      ((e.asPortfolio key volLookback sqrt).placeLeg positions lastClose mtmEquity none (key, signal)) := by
  unfold PortfolioBacktestEngine.placeLeg
  rw [hClose]
  apply leads_ite Iff.rfl
  · intro _
    apply leads_ite Iff.rfl
    · intro _
      exact (mirrors_flatten hGuard bar positions signal).then_left fun _ _ _ => leads_pure trivial
    · intro _
      exact leads_pure trivial
  · intro _
    exact mirrors_tradeSignal hGate hGuard hRisk i bar mtmEquity positions signal

theorem leads_act (hRisk : e.risk.SurvivalOnRequest) (hStop : e.stopLossPct = none)
    (hOwn : TradesLastContract e.strategy) (i : ℕ) (bar : VerifiedBar) (mtmEquity : ℚ)
    (positions : List Position) :
    Leads (AtBar key bar) (Mirrors key []) (fun _ _ => True) (e.act i bar mtmEquity positions)
      ((e.asPortfolio key volLookback sqrt).decide mtmEquity positions) := by
  unfold BacktestEngine.act PortfolioBacktestEngine.decide
  rw [hStop]
  apply leads_ite Iff.rfl
  · rintro - s p ⟨hMirrors, -⟩
    exact .ok trivial hMirrors
  intro _
  apply leads_get_bind
  rintro s _ ⟨⟨broker, history, hLedger, hHistory, hCapped, rfl⟩, hLast, hClose⟩
  rw [List.append_nil] at hHistory
  apply leads_bind (leads_liftExcept ((both_signals hOwn hLast s.strategy hHistory).mapError
    RunFailure.strategy (PortfolioFailure.run ∘ RunFailure.strategy)))
  rintro ⟨signal, memory⟩ _ ⟨rfl, hSignal⟩
  refine leads_bind (leads_modify (T := Mirrors key []) ?_) fun _ _ _ => ?_
  · rintro t _ ⟨⟨broker, history, hLedger, hHistory, hCapped, rfl⟩, -⟩
    exact ⟨broker, history, hLedger, hHistory, hCapped, rfl⟩
  cases signal with
  | none => exact leads_pure trivial
  | some signal =>
    refine leads_bind (agree_modify ?_) fun _ _ _ => ?_
    · rintro t _ ⟨broker, history, hLedger, hHistory, hCapped, rfl⟩
      exact ⟨broker, history, hLedger, hHistory, hCapped, rfl⟩
    rw [← hSignal signal rfl] at hClose
    -- one signal is one leg, which is not weighted
    change Agree (Mirrors key []) (fun _ _ => True) _ (pure none >>= fun weights =>
      each ((e.asPortfolio key volLookback sqrt).recordLeg positions s.lastClose mtmEquity weights)
        [(key, signal)])
    rw [pure_bind, each_singleton]
    refine Leads.then_right (Q := fun _ _ => True) ?_ fun _ _ _ => leads_pure trivial
    apply leads_get_right
    intro p
    refine (mirrors_signal hGate hGuard hRisk i bar mtmEquity positions signal hClose).then_right
      fun _ _ _ => ?_
    apply leads_get_right
    intro p'
    exact leads_pure trivial

/-- One bar of the backtest and one date of the portfolio. -/
theorem agree_processBar (hRisk : e.risk.SurvivalOnRequest) (hStop : e.stopLossPct = none)
    (hRolls : (e.rollEvents.map RollEvent.rollDate).Nodup) (hOwn : TradesLastContract e.strategy)
    (step : VerifiedBar × ℕ) :
    Agree (fun s p => Mirrors key [] s p ∧ Consistent s.broker) (fun _ _ => True)
      (e.processBar step)
      ((e.asPortfolio key volLookback sqrt).processDate (step.1.ts.date, [(key, step.1)])) := by
  obtain ⟨bar, i⟩ := step
  have hTake : Leads (fun s p => Mirrors key [] s p ∧ Consistent s.broker)
      (fun s p => Taken key bar s p ∧ Consistent s.broker) (fun _ _ => True) (e.takeBar bar)
      (each (e.asPortfolio key volLookback sqrt).takeBar [(key, bar)]) := by
    rw [each_singleton]
    refine Leads.then_right (Q := fun _ _ => True) ?_ fun _ _ _ => leads_pure trivial
    apply (leads_takeBar bar).with_left
    intro s out s' hConsistent hRun
    simp only [BacktestEngine.takeBar, bind_ok_iff, onBroker_ok_iff, modify_ok_iff, get_ok_iff,
      pure_ok_iff] at hRun
    obtain ⟨filled, _, ⟨b, hAdvance, rfl⟩, _, _, rfl, _, _, ⟨rfl, rfl⟩, -, rfl⟩ := hRun
    exact (MockBroker.advance_ok hAdvance).consistent hConsistent
  have hPass : Leads (fun s p => Mirrors key [] s p ∧ Consistent s.broker) (Mirrors key [])
      (fun _ _ => True) (e.processBar (bar, i))
      ((e.asPortfolio key volLookback sqrt).processDate (bar.ts.date, [(key, bar)])) := by
    unfold BacktestEngine.processBar PortfolioBacktestEngine.processDate
    rw [fillAndRoll_eq hGate, bind_assoc]
    apply leads_bind hTake
    intro out bars _
    rw [bind_assoc]
    refine leads_bind (leads_executeRoll hRolls bar) fun _ _ _ => ?_
    rw [pure_bind]
    apply leads_bind (leads_mark bar)
    rintro ⟨mtmEquity, positions⟩ _ rfl
    apply leads_get_right
    intro p
    refine leads_bind (leads_act hGate hGuard hRisk hStop hOwn i bar mtmEquity positions)
      fun _ _ _ => ?_
    apply leads_get_left
    intro s
    exact leads_pure trivial
  refine (hPass.with_left fun s r s' hConsistent hRun => ?_).of_pre fun s p h => ⟨h, h.2⟩
  exact (processBar_ok hRun).book.consistent hConsistent

end Decide

/-! ## Runs -/

theorem indexed_stream {bars : List VerifiedBar}
    (hDates : bars.Pairwise fun a b => barDate a < barDate b) :
    indexed (.ofList [(key, bars)]) = bars.map fun bar => (key, bar) := by
  have hItems : (Dict.ofList [(key, bars)]).items = [(key, bars)] := rfl
  rw [indexed, hItems, List.flatMap_singleton]
  apply sortBy_of_pairwise
  rw [List.pairwise_map]
  apply hDates.imp
  intro a b hLt
  exact Prod.Lex.le_iff.mpr (.inl hLt)

theorem byDate_stream {bars : List VerifiedBar}
    (hDates : bars.Pairwise fun a b => barDate a < barDate b) :
    byDate (bars.map fun bar => (key, bar)) = bars.map fun bar => (barDate bar, [(key, bar)]) := by
  induction bars with
  | nil => rfl
  | cons bar rest ih =>
    obtain ⟨hBar, hRest⟩ := List.pairwise_cons.mp hDates
    have hSplit := @byDate_append [(key, bar)] (rest.map fun bar => (key, bar)) ?_
    · rw [List.map_cons, List.map_cons, ← ih hRest]
      exact hSplit
    · rintro p hp q hq
      obtain rfl := List.mem_singleton.mp hp
      obtain ⟨later, hLater, rfl⟩ := List.mem_map.mp hq
      exact (hBar later hLater).ne

theorem forall₂_steps (key : ContractSymbol) (bars : List VerifiedBar) (n : ℕ) :
    List.Forall₂ (fun (step : VerifiedBar × ℕ) group => group = (barDate step.1, [(key, step.1)]))
      (bars.zipIdx n) (bars.map fun bar => (barDate bar, [(key, bar)])) := by
  induction bars generalizing n with
  | nil => exact .nil
  | cons bar rest ih => exact .cons rfl (ih (n + 1))

theorem agree_run (hGate : e.survivalGate = false) (hStop : e.stopLossPct = none)
    (hRisk : e.risk.SurvivalOnRequest) (hGuard : e.guard.IgnoresClientIds)
    (hRolls : (e.rollEvents.map RollEvent.rollDate).Nodup) (hOwn : TradesLastContract e.strategy)
    {bars : List VerifiedBar} (hDates : bars.Pairwise fun a b => barDate a < barDate b)
    (key : ContractSymbol) (volLookback : ℤ) (sqrt : ℚ → ℚ) :
    Leads (fun s p => Mirrors key [] s p ∧ Consistent s.broker) (Mirrors key [])
      (fun out out' => out.1 = out'.1) (e.run bars)
      ((e.asPortfolio key volLookback sqrt).run (.ofList [(key, bars)])) := by
  unfold BacktestEngine.run PortfolioBacktestEngine.run
  rw [indexed_stream hDates, byDate_stream hDates]
  have hPass : ∀ (step : VerifiedBar × ℕ) (group : Date × List StreamBar),
      group = (barDate step.1, [(key, step.1)]) →
      Agree (fun s p => Mirrors key [] s p ∧ Consistent s.broker) (fun _ _ => True)
        (e.processBar step) ((e.asPortfolio key volLookback sqrt).processDate group) := by
    rintro step _ rfl
    exact agree_processBar hGate hGuard hRisk hStop hRolls hOwn step
  apply leads_bind (agree_each_rel (forall₂_steps key bars 0) hPass)
  intro records records' _
  refine Leads.of_pre ?_ fun s p h => h.1
  apply leads_bind mirrors_accountEquity
  rintro finalEquity _ rfl
  apply leads_get_bind
  rintro s _ ⟨broker, history, hLedger, hHistory, hCapped, rfl⟩
  apply leads_pure
  obtain ⟨orders, events, -, rfl⟩ := hLedger
  simp only [List.length_map, hCapped]
  rfl

theorem start_mirrors (key : ContractSymbol) (bars : List VerifiedBar) (broker : MockBroker)
    (guard : ρ) (memory : σ) :
    Mirrors key [] (.start broker guard memory) (.start broker guard memory (.ofList [(key, bars)])) := by
  refine ⟨broker, _, .refl broker, ?_, rfl, rfl⟩
  exact Dict.get?_set_self ..

/-- The portfolio engine over one stream of bars with increasing dates returns the result of the
backtest engine over these bars. -/
theorem portfolio_refines_backtest (hGate : e.survivalGate = false) (hStop : e.stopLossPct = none)
    (hRisk : e.risk.SurvivalOnRequest) (hGuard : e.guard.IgnoresClientIds)
    (hRolls : (e.rollEvents.map RollEvent.rollDate).Nodup) (hOwn : TradesLastContract e.strategy)
    {bars : List VerifiedBar} (hDates : bars.Pairwise fun a b => barDate a < barDate b)
    (key : ContractSymbol) (volLookback : ℤ) (sqrt : ℚ → ℚ) (config : BrokerConfig) (guard : ρ)
    (memory : σ) (result : RunResult) :
    (∃ records s, e.run bars (.start (.fresh config) guard memory) = .ok (result, records) s) ↔
      ∃ records p, (e.asPortfolio key volLookback sqrt).run (.ofList [(key, bars)])
        (.start (.fresh config) guard memory (.ofList [(key, bars)])) =
          .ok (result, records) p := by
  have hBoth := agree_run hGate hStop hRisk hGuard hRolls hOwn hDates key volLookback sqrt _ _
    ⟨start_mirrors key bars (.fresh config) guard memory,
      (MockBroker.fresh_idle config).toConsistent⟩
  constructor
  · rintro ⟨records, s, hRun⟩
    obtain ⟨⟨_, records'⟩, p, hRun', rfl, -⟩ := hBoth.exists_ok hRun
    exact ⟨records', p, hRun'⟩
  · rintro ⟨records, p, hRun⟩
    obtain ⟨⟨_, records'⟩, s, hRun', rfl, -⟩ := hBoth.exists_ok_left hRun
    exact ⟨records', s, hRun'⟩

/-! ## A held position through a roll -/

def rollToG26 : RollEvent where
  rollDate := .dec12
  oldContract := "CLF26"
  newContract := "CLG26"
  frontSettle := 75
  backSettle := 76
  rollGap := 1
  gap_eq := by norm_num

def throughRoll : List VerifiedBar :=
  [dailyBar "CLF26" .dec10 75, dailyBar "CLF26" .dec11 75,
    dailyBar "CLG26" .dec12 76]

theorem portfolio_refines_backtest_rolled : ∃ result records p,
    ((scriptedEngine true [rollToG26]).asPortfolio "CL" 60 id).run (.ofList [("CL", throughRoll)])
        (.start freshBroker () [(1, 20)] (.ofList [("CL", throughRoll)])) = .ok (result, records) p ∧
      result.rollsExecuted = 1 := by
  have hReturns : returns ((scriptedEngine true [rollToG26]).run throughRoll)
      (.start freshBroker () [(1, 20)]) (fun out _ => out.1.rollsExecuted = 1) = true := by
    decide +kernel
  obtain ⟨⟨result, records⟩, s, hRun, hRolled⟩ := exists_ok_of_returns hReturns
  have hDates : throughRoll.Pairwise fun a b => barDate a < barDate b := by
    have hDays : throughRoll.map barDate = [.of 2025 12 10, .of 2025 12 11, .of 2025 12 12] := rfl
    rw [← @List.pairwise_map _ _ barDate (· < ·), hDays]
    decide +kernel
  have hDistinct : ([rollToG26].map RollEvent.rollDate).Nodup := List.nodup_singleton _
  obtain ⟨records', p, hRun'⟩ := (portfolio_refines_backtest rfl rfl (base_survivalOnRequest _ _ _)
    plain_ignoresClientIds hDistinct scripted_tradesLastContract hDates "CL" 60 id freshBroker.config
    () [(1, 20)] result).mp ⟨records, s, hRun⟩
  exact ⟨result, records', p, hRun', of_decide_eq_true hRolled⟩

end Futur3.Engine
