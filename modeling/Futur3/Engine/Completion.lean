import Futur3.Engine.Accounting
import Futur3.Engine.BacktestSpec
import Futur3.Execution.Configured

/-! # A run completes or meets a price guard

Over configured contracts nothing in the loop raises but its price guards: the fill of
an order refuses an open that is not positive after slippage, and the sizer a close
that is not positive. A run that meets neither has one point on its curve for each bar.
-/

namespace Futur3.Engine

open Data Execution Prelude Method

variable {σ ρ : Type}

/-- A strategy that returns a signal for a contract of this kind, or none. -/
def Strategy.SignalsFor (strategy : Strategy σ) (contracts : ContractSymbol → Prop) : Prop :=
  ∀ history memory, ∃ signal memory', strategy.generateSignal history memory =
    .ok (signal, memory') ∧ ∀ emitted ∈ signal, contracts emitted.contract

inductive PriceRefused (band : Option SlippageBand) (bar : VerifiedBar) : RunFailure → Prop
  | fill {raised : Raised} (h : MockBroker.OpenRefused band bar raised) :
      PriceRefused band bar (.broker raised)
  | sizing (h : bar.close ≤ 0) : PriceRefused band bar (.sizing (.price bar.close))

/-- An engine for configured contracts: its sizer, its haircut, its strategy and its rolls. -/
structure Wired (e : BacktestEngine σ ρ) (margins : MarginSource) (band : Option SlippageBand) :
    Prop where
  risk : e.risk.Answers margins
  slippage : e.slippage = band.map .tickHaircut
  strategy : e.strategy.SignalsFor (Configured margins)
  rolls : ∀ event ∈ e.rollEvents, Configured margins event.newContract ∧ 0 < event.backSettle

/-- Between two bars: a ready broker, and no zero among the closes kept for the survival gate. -/
structure Running (margins : MarginSource) (s : LoopState σ ρ) : Prop where
  ready : MockBroker.Ready margins s.broker
  closes : ∀ c closes, s.closesByContract.get? c = some closes → ∀ close ∈ closes, close ≠ 0

section Pass

variable {e : BacktestEngine σ ρ} {margins : MarginSource} {band : Option SlippageBand}
variable {bar : VerifiedBar} {s : LoopState σ ρ} {F : RunFailure → Prop}

theorem ends_onBroker {α : Type} {x : BrokerM α} {G : Raised → Prop} (hs : Running margins s)
    (h : Ends x s.broker (fun _ b => MockBroker.Ready margins b) G) (hF : ∀ r, G r → F (.broker r)) :
    Ends (onBroker x : EngineM σ ρ α) s (fun _ s' => Running margins s') F := by
  rcases h.cases with ⟨a, b, hRun, hReady⟩ | ⟨r, b, hRun, hRaised⟩
  · have hOk : (onBroker x : EngineM σ ρ α) s = .ok a { s with broker := b } := by
      rw [onBroker, hRun]
    exact .of_ok hOk ⟨hReady, hs.closes⟩
  · have hError : (onBroker x : EngineM σ ρ α) s = .error (.broker r) { s with broker := b } := by
      rw [onBroker, hRun]
    exact .of_error hError (hF r hRaised)

/-! ## Orders -/

theorem ends_placeMarket {contract : ContractSymbol} {quantity : ℤ} (hs : Running margins s)
    (hContract : Configured margins contract) (hQuantity : 0 < quantity) (side : Side)
    (tag : String) :
    Ends (BacktestEngine.placeMarket contract side quantity tag : EngineM σ ρ BrokerOrderId) s
      (fun _ s' => Running margins s') F := by
  obtain ⟨order, hOrder⟩ := Order.market_returns hQuantity contract side tag
  obtain ⟨hOrderContract, -, -, hType⟩ := Order.market_ok hOrder
  apply ends_liftExcept_ok (congrArg (Except.mapError (RunFailure.broker ∘ Raised.broker)) hOrder)
  have hPlaced : Ends (MockBroker.placeOrder order) s.broker
      (fun _ b => MockBroker.Ready margins b) fun _ => False :=
    MockBroker.ends_placeOrder hs.ready hType (hOrderContract ▸ hContract)
  apply ends_bind (ends_onBroker hs hPlaced fun _ => False.elim)
  intro id s' hs'
  apply ends_modify_bind (P := Running margins) ⟨hs'.ready, hs'.closes⟩
  intro s'' hs''
  exact ends_pure hs''

theorem ends_isTradeAllowed (hs : Running margins s) (contract : ContractSymbol) (side : Side)
    (quantity : ℤ) :
    Ends (e.isTradeAllowed contract side quantity) s (fun _ s' => Running margins s') F := by
  apply ends_get_bind
  apply ends_modify_bind (P := Running margins) ⟨hs.ready, hs.closes⟩
  intro s' hs'
  exact ends_pure hs'

/-- An order behind the trade gate. -/
theorem ends_checked {α : Type} {contract : ContractSymbol} {quantity : ℤ} (hs : Running margins s)
    (hContract : Configured margins contract) (hQuantity : 0 < quantity) (side : Side)
    (tag : String) (refused : α) (placed : BrokerOrderId → α) :
    Ends (do
      let block ← e.isTradeAllowed contract side quantity
      if block ≠ none then pure refused
      else
        let id ← BacktestEngine.placeMarket contract side quantity tag
        pure (placed id)) s (fun _ s' => Running margins s') F := by
  apply ends_bind (ends_isTradeAllowed hs contract side quantity)
  intro block s₁ hs₁
  apply ends_ite
  · intro _
    exact ends_pure hs₁
  · intro _
    apply ends_bind (ends_placeMarket hs₁ hContract hQuantity side tag)
    intro id s₂ hs₂
    exact ends_pure hs₂

theorem ends_flattenOnFlat {signal : Signal} (hs : Running margins s)
    (hContract : Configured margins signal.contract) (positions : List Position) (bar : VerifiedBar) :
    Ends (e.flattenOnFlat signal positions bar) s (fun _ s' => Running margins s') F := by
  unfold BacktestEngine.flattenOnFlat
  apply ends_ite
  · intro _
    exact ends_pure hs
  · intro hNet
    exact ends_checked hs hContract (abs_pos.mpr hNet) _ _ none some

theorem ends_applyStopLoss (hs : Running margins s) (hBar : Configured margins bar.contract)
    (positions : List Position) (pct : ℚ) :
    Ends (e.applyStopLoss bar positions pct) s (fun _ s' => Running margins s') F := by
  unfold BacktestEngine.applyStopLoss
  cases hFind : positions.find? fun p => p.contract = bar.contract ∧ p.quantity ≠ 0 with
  | none => exact ends_pure hs
  | some pos =>
    have hFound := List.find?_some hFind
    have hOpen : pos.quantity ≠ 0 := (of_decide_eq_true hFound).2
    apply ends_ite
    · intro _
      exact ends_pure hs
    · intro _
      apply ends_ite
      · intro _
        exact ends_pure hs
      · intro _
        exact ends_checked hs hBar (abs_pos.mpr hOpen) _ _ none some

/-! ## The decision -/

theorem closeReturns_returns {closes : List ℚ} (h : ∀ close ∈ closes, close ≠ 0) :
    ∃ returns, BacktestEngine.closeReturns closes = .ok returns := by
  induction closes with
  | nil => exact ⟨[], rfl⟩
  | cons prev rest ih =>
    obtain ⟨returns, hReturns⟩ := ih fun close hMem => h close (List.mem_cons_of_mem prev hMem)
    cases rest with
    | nil => exact ⟨[], rfl⟩
    | cons next rest =>
      rw [BacktestEngine.closeReturns, if_neg (h prev List.mem_cons_self), hReturns]
      exact ⟨_, rfl⟩

theorem survivalInputs_returns (e : BacktestEngine σ ρ) (hs : Running margins s)
    (contract : ContractSymbol) (i : ℕ) :
    ∃ inputs, e.survivalInputs s.closesByContract contract i = .ok inputs := by
  unfold BacktestEngine.survivalInputs
  split
  · exact ⟨_, rfl⟩
  · cases hGet : s.closesByContract.get? contract with
    | none => exact ⟨_, rfl⟩
    | some closes =>
      dsimp only
      split
      · exact ⟨_, rfl⟩
      · obtain ⟨returns, hReturns⟩ := closeReturns_returns (hs.closes contract closes hGet)
        rw [hReturns]
        exact ⟨_, rfl⟩

theorem resolveOrder_pos {decision : SizingDecision} {signal : Signal} {positions : List Position}
    {side : Side} {quantity : ℤ} (hContracts : 0 < decision.contracts)
    (h : e.resolveOrder decision signal positions = some (side, quantity)) : 0 < quantity := by
  unfold BacktestEngine.resolveOrder at h
  extract_lets target delta at h
  split at h
  · split at h
    · cases h
    · rename_i hHeld
      cases h
      exact abs_pos.mpr hHeld
  · cases h
    exact hContracts

theorem ends_tradeSignal {signal : Signal} {mtm : ℚ} (hWired : Wired e margins band)
    (hs : Running margins s) (hContract : Configured margins signal.contract) (hEquity : 0 < mtm)
    (i : ℕ) (positions : List Position) :
    Ends (e.tradeSignal i bar mtm positions signal) s (fun _ s' => Running margins s')
      (PriceRefused band bar) := by
  apply ends_get_bind
  obtain ⟨⟨returns, seed⟩, hInputs⟩ := survivalInputs_returns e hs signal.contract i
  apply ends_liftExcept_ok hInputs
  by_cases hPrice : bar.close ≤ 0
  · have hRefused := hWired.risk.refuses signal.contract signal.fullKellyFraction mtm bar.close returns
      seed hEquity hPrice
    exact ends_liftExcept_error (congrArg (Except.mapError RunFailure.sizing) hRefused) (.sizing hPrice)
  obtain ⟨decision, hDecision⟩ := hWired.risk.sizes signal.contract signal.fullKellyFraction mtm
    bar.close returns seed hContract hEquity (not_le.mp hPrice)
  apply ends_liftExcept_ok (congrArg (Except.mapError RunFailure.sizing) hDecision)
  apply ends_modify_bind (P := Running margins) ⟨hs.ready, hs.closes⟩
  intro s₁ hs₁
  apply ends_ite
  · intro _
    exact ends_pure hs₁
  · intro hContracts
    cases hResolved : e.resolveOrder decision signal positions with
    | none => exact ends_pure hs₁
    | some resolved =>
      obtain ⟨side, quantity⟩ := resolved
      exact ends_checked hs₁ hContract (resolveOrder_pos (not_le.mp hContracts) hResolved) side _
        (BarOutcome.blocked signal decision) (BarOutcome.ordered signal decision)

theorem ends_decide {mtm : ℚ} (hWired : Wired e margins band) (hs : Running margins s)
    (hEquity : 0 < mtm) (i : ℕ) (positions : List Position) :
    Ends (e.decide i bar mtm positions) s (fun _ s' => Running margins s')
      (PriceRefused band bar) := by
  apply ends_get_bind
  obtain ⟨signal, memory, hSignal, hContract⟩ := hWired.strategy s.history s.strategy
  apply ends_liftExcept_ok (congrArg (Except.mapError RunFailure.strategy) hSignal)
  apply ends_modify_bind (P := Running margins) ⟨hs.ready, hs.closes⟩
  intro s₁ hs₁
  cases signal with
  | none => exact ends_pure hs₁
  | some signal =>
    have hContract := hContract signal rfl
    apply ends_modify_bind (P := Running margins) ⟨hs₁.ready, hs₁.closes⟩
    intro s₂ hs₂
    apply ends_ite
    · intro _
      apply ends_ite
      · intro _
        apply ends_bind (ends_flattenOnFlat hs₂ hContract positions bar)
        intro closing s₃ hs₃
        exact ends_pure hs₃
      · intro _
        exact ends_pure hs₂
    · intro _
      exact ends_tradeSignal hWired hs₂ hContract hEquity i positions

theorem ends_act (hWired : Wired e margins band) (hs : Running margins s)
    (hBar : Configured margins bar.contract) (i : ℕ) (mtm : ℚ) (positions : List Position) :
    Ends (e.act i bar mtm positions) s (fun _ s' => Running margins s') (PriceRefused band bar) := by
  unfold BacktestEngine.act
  apply ends_ite
  · intro _
    exact ends_pure hs
  · intro hRuined
    have hEquity := not_le.mp hRuined
    cases e.stopLossPct with
    | none => exact ends_decide hWired hs hEquity i positions
    | some pct =>
      apply ends_bind (ends_applyStopLoss hs hBar positions pct)
      intro stopped s' hs'
      cases stopped with
      | some id => exact ends_pure hs'
      | none => exact ends_decide hWired hs' hEquity i positions

/-! ## Fills, roll and mark -/

theorem ends_executeRoll (hWired : Wired e margins band) (hs : Running margins s)
    (bar : VerifiedBar) :
    Ends (e.executeRoll bar) s (fun _ s' => Running margins s') F := by
  unfold BacktestEngine.executeRoll
  cases hEvent : e.rollByDate.get? bar.ts.date with
  | none => exact ends_pure hs
  | some event =>
    obtain ⟨hNew, hPrice⟩ := hWired.rolls event (e.mem_rollEvents hEvent).1
    obtain ⟨multiplier, hMultiplier⟩ := hNew.multiplier
    apply ends_get_bind
    apply ends_ite
    · intro _
      exact ends_pure hs
    · intro _
      have hRoll : Ends (MockBroker.rollPosition event.oldContract event.newContract event.frontSettle
          event.backSettle) s.broker (fun _ b => MockBroker.Ready margins b) fun _ => False :=
        MockBroker.ends_rollPosition hs.ready hNew hPrice event.frontSettle
      apply ends_bind (ends_onBroker hs hRoll fun _ => False.elim)
      intro rolled s' hs'
      apply ends_ite
      · intro _
        exact ends_pure hs'
      · intro _
        apply ends_liftExcept_ok (congrArg (Except.mapError RunFailure.sizing) hMultiplier)
        exact .of_ok rfl ⟨hs'.ready, hs'.closes⟩

theorem closes_append {closesByContract : Dict ContractSymbol (List ℚ)}
    (h : ∀ c closes, closesByContract.get? c = some closes → ∀ close ∈ closes, close ≠ 0)
    (contract : ContractSymbol) {price : ℚ} (hPrice : price ≠ 0) :
    ∀ c closes, (closesByContract.set contract
      ((closesByContract.get? contract).getD [] ++ [price])).get? c = some closes →
        ∀ close ∈ closes, close ≠ 0 := by
  intro c closes hGet close hMem
  rw [Dict.get?_set] at hGet
  split at hGet
  · cases hGet
    rcases List.mem_append.mp hMem with hOld | hNew
    · cases hClosed : closesByContract.get? contract with
      | none => simp [hClosed] at hOld
      | some old =>
        rw [hClosed, Option.getD_some] at hOld
        exact h contract old hClosed close hOld
    · rwa [List.mem_singleton.mp hNew]
  · exact h c closes hGet close hMem

theorem ends_fillAndRoll (hWired : Wired e margins band) (hs : Running margins s)
    (hClose : e.survivalGate = true → bar.close ≠ 0) :
    Ends (e.fillAndRoll bar) s (fun _ s' => Running margins s') (PriceRefused band bar) := by
  unfold BacktestEngine.fillAndRoll
  rw [hWired.slippage]
  apply ends_bind (ends_onBroker hs (MockBroker.ends_advance hs.ready band bar) fun _ => .fill)
  intro filled s₁ hs₁
  apply ends_modify_bind (P := Running margins) ⟨hs₁.ready, hs₁.closes⟩
  intro s₂ hs₂
  apply ends_get_bind
  apply ends_bind (ends_executeRoll hWired hs₂ bar)
  intro _ s₃ hs₃
  apply ends_ite
  · intro hGate
    have hCloses := closes_append hs₃.closes bar.contract (hClose hGate)
    apply ends_modify_bind (P := Running margins) ⟨hs₃.ready, hCloses⟩
    intro s₄ hs₄
    exact ends_pure hs₄
  · intro _
    exact ends_pure hs₃

theorem addUnrealized_returns {positions : List Position} (lastClose : Dict ContractSymbol ℚ)
    (unrealized : ℚ) (h : ∀ p ∈ positions, ∃ multiplier, multiplierFor p.contract = .ok multiplier) :
    ∃ total, addUnrealized lastClose unrealized positions = .ok total := by
  induction positions generalizing unrealized with
  | nil => exact ⟨unrealized, rfl⟩
  | cons p rest ih =>
    have ih := fun u => ih u fun q hq => h q (List.mem_cons_of_mem p hq)
    obtain ⟨multiplier, hMultiplier⟩ := h p List.mem_cons_self
    rw [addUnrealized]
    split
    · exact ih unrealized
    · cases lastClose.get? p.contract with
      | none => exact ih unrealized
      | some price =>
        dsimp only
        rw [hMultiplier]
        exact ih _

theorem ends_accountEquity (hs : Running margins s) :
    Ends e.accountEquity s (fun _ s' => Running margins s') F := by
  apply ends_get_bind
  obtain ⟨metrics, hMetrics, -⟩ := s.broker.getAccountMetrics_ok
  apply ends_liftExcept_ok (congrArg (Except.mapError (RunFailure.broker ∘ Raised.broker)) hMetrics)
  apply ends_modify_bind (P := Running margins) ⟨hs.ready, hs.closes⟩
  intro s' hs'
  exact ends_pure hs'

theorem ends_mark (hs : Running margins s) (bar : VerifiedBar) :
    Ends (e.mark bar) s (fun _ s' => Running margins s') F := by
  apply ends_bind (ends_accountEquity hs)
  intro equity s₁ hs₁
  apply ends_get_bind
  have hHeld : ∀ p ∈ s₁.broker.getPositions,
      ∃ multiplier, multiplierFor p.contract = .ok multiplier := by
    intro p hp
    obtain ⟨c, hGet⟩ := mem_getPositions_iff.mp hp
    rw [hs₁.ready.keyed c p hGet]
    exact (hs₁.ready.held c p hGet).multiplier
  obtain ⟨total, hTotal⟩ := addUnrealized_returns s₁.lastClose 0 hHeld
  have hMark : markToMarket equity s₁.broker.getPositions s₁.lastClose = .ok (equity + total) := by
    rw [markToMarket, hTotal]
    rfl
  apply ends_liftExcept_ok (congrArg (Except.mapError RunFailure.sizing) hMark)
  apply ends_modify_bind (P := Running margins) ⟨hs₁.ready, hs₁.closes⟩
  intro s₂ hs₂
  exact ends_pure hs₂

/-- One pass over the bar of a configured contract. -/
theorem ends_processBar (hWired : Wired e margins band) (hs : Running margins s)
    {step : VerifiedBar × ℕ} (hBar : Configured margins step.1.contract)
    (hClose : e.survivalGate = true → step.1.close ≠ 0) :
    Ends (e.processBar step) s (fun _ s' => Running margins s') (PriceRefused band step.1) := by
  apply ends_bind (ends_fillAndRoll hWired hs hClose)
  rintro ⟨filled, advanced⟩ s₁ hs₁
  apply ends_bind (ends_mark hs₁ step.1)
  rintro ⟨mtm, positions⟩ s₂ hs₂
  apply ends_bind (ends_act hWired hs₂ hBar step.2 mtm positions)
  intro outcome s₃ hs₃
  exact ends_get_bind (ends_pure hs₃)

end Pass

/-! ## Runs -/

def Completes (e : BacktestEngine σ ρ) (bars : List VerifiedBar) (s : LoopState σ ρ) : Prop :=
  ∃ result records s', e.run bars s = .ok (result, records) s' ∧
    result.equityCurve.length = bars.length

def StopsAtPrice (e : BacktestEngine σ ρ) (band : Option SlippageBand) (bars : List VerifiedBar)
    (s : LoopState σ ρ) : Prop :=
  ∃ bar ∈ bars, ∃ failure s', e.run bars s = .error failure s' ∧ PriceRefused band bar failure

section Run

variable {e : BacktestEngine σ ρ} {margins : MarginSource} {band : Option SlippageBand}

/-- A run that starts with an empty curve returns one with as many points as it has bars. -/
theorem run_curve {bars : List VerifiedBar} {s s' : LoopState σ ρ} {result : RunResult}
    {records : List BarRecord} (hStart : s.equityCurve = [])
    (h : e.run bars s = .ok (result, records) s') : result.equityCurve.length = bars.length := by
  obtain ⟨s₁, hLoop, -, -, -, hCurve⟩ := run_loop h
  obtain ⟨points, hPoints, hLength⟩ := each_appends (fun _ _ _ _ => processBar_curve) hLoop
  rw [hCurve, hPoints, hStart, List.nil_append, hLength, List.length_zipIdx]

theorem ends_run {bars : List VerifiedBar} {s : LoopState σ ρ} (hWired : Wired e margins band)
    (hs : Running margins s) (hBars : ∀ bar ∈ bars, Configured margins bar.contract)
    (hCloses : e.survivalGate = true → ∀ bar ∈ bars, bar.close ≠ 0) :
    Ends (e.run bars) s (fun _ _ => True)
      fun failure => ∃ bar ∈ bars, PriceRefused band bar failure := by
  have hLoop : Ends (each e.processBar bars.zipIdx) s (fun _ => Running margins)
      fun failure => ∃ step ∈ bars.zipIdx, PriceRefused band step.1 failure := by
    refine ends_each ?_ hs
    intro step hStep s₁ hs₁
    have hMem := List.fst_mem_of_mem_zipIdx hStep
    exact ends_processBar hWired hs₁ (hBars step.1 hMem) fun hGate => hCloses hGate step.1 hMem
  have hRaised : Ends (each e.processBar bars.zipIdx) s (fun _ => Running margins)
      fun failure => ∃ bar ∈ bars, PriceRefused band bar failure :=
    hLoop.weaken fun failure ⟨step, hStep, hRefused⟩ =>
      ⟨step.1, List.fst_mem_of_mem_zipIdx hStep, hRefused⟩
  apply ends_bind hRaised
  intro records s₁ hs₁
  apply ends_bind (ends_accountEquity hs₁)
  intro finalEquity s₂ hs₂
  exact ends_get_bind (ends_pure trivial)

theorem not_priceRefused {bar : VerifiedBar} (hOpen : haircut band bar.contract < bar.openPrice)
    (hClose : 0 < bar.close) (failure : RunFailure) : ¬PriceRefused band bar failure := by
  intro hRefused
  cases hRefused with
  | fill h =>
    cases h with
    | intended h => exact absurd ((haircut_nonneg band bar.contract).trans_lt hOpen) (not_lt.mpr h)
    | fill h => exact absurd (sub_pos.mpr hOpen) (not_lt.mpr h)
  | sizing h => exact absurd hClose (not_lt.mpr h)

theorem start_running {config : BrokerConfig} (margins : MarginSource)
    (hServes : MockBroker.ServesMarket config) (guard : ρ) (memory : σ) :
    Running margins (.start (.fresh config) guard memory) where
  ready := MockBroker.fresh_ready margins hServes
  closes c closes h := by simp [LoopState.start] at h

/-- Over configured contracts a run completes, or a price guard stops it; over opens that exceed
the haircut and positive closes it completes. -/
theorem run_completes_or_refuses {params : RiskParams} {bootstrap : SurvivalBootstrap}
    (hRisk : e.risk = .base params margins bootstrap ∨
      ∃ fixed, e.risk = .fixedSize fixed params margins bootstrap)
    (hSlippage : e.slippage = band.map .tickHaircut)
    (hStrategy : e.strategy.SignalsFor (Configured margins))
    (hRolls : ∀ event ∈ e.rollEvents, Configured margins event.newContract ∧ 0 < event.backSettle)
    {config : BrokerConfig} (hServes : MockBroker.ServesMarket config) {bars : List VerifiedBar}
    (hBars : ∀ bar ∈ bars, Configured margins bar.contract)
    (hCloses : e.survivalGate = true → ∀ bar ∈ bars, bar.close ≠ 0) (guard : ρ) (memory : σ) :
    (Completes e bars (.start (.fresh config) guard memory) ∨
      StopsAtPrice e band bars (.start (.fresh config) guard memory)) ∧
    ((∀ bar ∈ bars, haircut band bar.contract < bar.openPrice ∧ 0 < bar.close) →
      Completes e bars (.start (.fresh config) guard memory)) := by
  have hAnswers : e.risk.Answers margins := by
    rcases hRisk with hBase | ⟨fixed, hFixed⟩
    · exact hBase ▸ base_answers
    · exact hFixed ▸ fixedSize_answers fixed
  have hEnds := ends_run ⟨hAnswers, hSlippage, hStrategy, hRolls⟩
    (start_running margins hServes guard memory) hBars hCloses
  have hEnd : Completes e bars (.start (.fresh config) guard memory) ∨
      StopsAtPrice e band bars (.start (.fresh config) guard memory) := by
    rcases hEnds.cases with ⟨⟨result, records⟩, s, hRun, -⟩ |
      ⟨failure, s, hRun, bar, hMem, hRefused⟩
    · exact .inl ⟨result, records, s, hRun, run_curve rfl hRun⟩
    · exact .inr ⟨bar, hMem, failure, s, hRun, hRefused⟩
  refine ⟨hEnd, fun hPrices => hEnd.resolve_right ?_⟩
  rintro ⟨bar, hMem, failure, s, -, hRefused⟩
  exact not_priceRefused (hPrices bar hMem).1 (hPrices bar hMem).2 failure hRefused

end Run

/-! ## Crude oil in April 2020 -/

def longCrude : Signal := .long "CLK20" (.utcMidnight (.of 2020 4 17)) "long" 20 (by norm_num)

/-- Long crude at every bar, with every overlay of the engine. -/
def crudeEngine (band : Option SlippageBand) : BacktestEngine Unit Unit where
  strategy := { generateSignal := fun _ memory => .ok (some longCrude, memory) }
  guard := .plain
  risk := .default fun _ _ _ _ _ _ => 1
  slippage := band.map .tickHaircut
  survivalGate := true
  survivalSeed := 0
  targetPosition := true
  rollEvents := []
  stopLossPct := some (1 / 2)
  stop_loss_pos := by norm_num

theorem crude_configured : Configured (.static contractInitialMargin) "CLK20" where
  margin := ⟨"CL", 7200, rfl, rfl, by norm_num⟩
  multiplier := ⟨1000, rfl⟩

/-- The order of April 17 falls due at the open of April 20. -/
theorem negative_open_refused :
    ((crudeEngine none).run [dailyBar "CLK20" (.of 2020 4 17) 18,
        dailyBar "CLK20" (.of 2020 4 20) (-37)]).raised (.start freshBroker () ()) =
      some (.broker (.broker (.fillPrice (-37)))) := by
  decide +kernel

def crudeBars : List VerifiedBar :=
  [dailyBar "CLK20" (.of 2020 4 15) 20, dailyBar "CLK20" (.of 2020 4 16) 19,
    dailyBar "CLK20" (.of 2020 4 17) 18]

theorem run_completes_or_refuses_crude :
    Completes (crudeEngine (some .realistic)) crudeBars (.start freshBroker () ()) := by
  have hPrices : ∀ bar ∈ crudeBars, bar.contract = "CLK20" ∧ 1 / 100 < bar.openPrice ∧
      0 < bar.close := by
    simp only [crudeBars, List.forall_mem_cons, dailyBar]
    norm_num
  have hHaircut : haircut (some .realistic) "CLK20" = 1 / 100 := by decide +kernel
  have hSlippage : (crudeEngine (some .realistic)).slippage =
      (some .realistic : Option SlippageBand).map .tickHaircut := rfl
  have hStrategy : (crudeEngine (some .realistic)).strategy.SignalsFor
      (Configured (.static contractInitialMargin)) :=
    fun _ memory => ⟨some longCrude, memory, rfl, by
      simp [longCrude, Signal.long, crude_configured]⟩
  have hRolls : ∀ event ∈ (crudeEngine (some .realistic)).rollEvents,
      Configured (.static contractInitialMargin) event.newContract ∧ 0 < event.backSettle := by
    simp [crudeEngine]
  have hServes : MockBroker.ServesMarket freshBroker.config := ⟨fun _ => rfl, by decide⟩
  have hBars : ∀ bar ∈ crudeBars, Configured (.static contractInitialMargin) bar.contract := by
    intro bar hMem
    rw [(hPrices bar hMem).1]
    exact crude_configured
  refine (run_completes_or_refuses (.inl rfl) hSlippage hStrategy hRolls hServes hBars
    (fun _ bar hMem => (hPrices bar hMem).2.2.ne') () ()).2 ?_
  intro bar hMem
  rw [(hPrices bar hMem).1, hHaircut]
  exact (hPrices bar hMem).2

end Futur3.Engine
