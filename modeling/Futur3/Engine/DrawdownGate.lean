import Futur3.Engine.BacktestSpec
import Futur3.Execution.PropBroker
import Mathlib.Data.Fintype.EquivFin

/-! # The trailing gate inside the loop

The loop marks open positions at the last close; the gate of the prop account adds
up realized profit only. Once the marked curve has fallen by the limit the gate
holds as long as its own figures are in breach too.
-/

namespace Futur3.Engine

open Data Execution Prelude Method
open MockBroker (OpenOrder Consistent)

/-- The curve at this bar is below its own running maximum by at least the limit. -/
def DrawnDown (limit peak : ℚ) (curve : List ℚ) (j : ℕ) : Prop :=
  ∃ mtm ∈ curve[j]?, limit ≤ (curve.take (j + 1)).foldl max peak - mtm

instance (limit peak : ℚ) (curve : List ℚ) (j : ℕ) : Decidable (DrawnDown limit peak curve j) :=
  inferInstanceAs (Decidable (∃ mtm ∈ curve[j]?, _))

/-- The order placed, if there is one, shrinks the position of the broker before it. -/
def OnlyShrinks (b b' : MockBroker) (placed : Option BrokerOrderId) : Prop :=
  ∀ id order, placed = some id → b'.orders.get? id = some order →
    b.Reduces order.contract order.side order.quantity

theorem onlyShrinks_none (b b' : MockBroker) : OnlyShrinks b b' none := by
  intro id order hPlaced
  cases hPlaced

/-- From a drawdown of the curve on, every order shrinks the position it finds. -/
def ShrinksOnceDrawn (limit peak : ℚ) (curve : List ℚ) (records : List BarRecord) : Prop :=
  ∀ j, DrawnDown limit peak curve j → ∀ k, j ≤ k → ∀ r, records[k]? = some r →
    OnlyShrinks r.advanced r.processed r.outcome.placed

theorem drawnDown_concat {limit peak : ℚ} {curve : List ℚ} {j : ℕ} (hj : j < curve.length) (x : ℚ) :
    DrawnDown limit peak (curve ++ [x]) j ↔ DrawnDown limit peak curve j := by
  unfold DrawnDown
  rw [List.getElem?_append_left hj, List.take_append_of_le_length (Nat.succ_le_of_lt hj)]

theorem DrawnDown.lt {limit peak : ℚ} {curve : List ℚ} {j : ℕ} (h : DrawnDown limit peak curve j) :
    j < curve.length := by
  obtain ⟨mtm, hMem, -⟩ := h
  exact index_lt hMem

theorem ShrinksOnceDrawn.concat {limit peak : ℚ} {curve : List ℚ} {records : List BarRecord}
    (h : ShrinksOnceDrawn limit peak curve records) (hLength : curve.length = records.length)
    {mtm : ℚ} {r : BarRecord}
    (hNew : (∃ j < (curve ++ [mtm]).length, DrawnDown limit peak (curve ++ [mtm]) j) →
      OnlyShrinks r.advanced r.processed r.outcome.placed) :
    ShrinksOnceDrawn limit peak (curve ++ [mtm]) (records ++ [r]) := by
  intro j hDrawn k hjk r' hGet
  rcases getElem?_concat_cases hGet with hOld | ⟨rfl, rfl⟩
  · have hk := index_lt hOld
    have hj : j < curve.length := by omega
    exact h j ((drawnDown_concat hj mtm).mp hDrawn) k hjk r' hOld
  · exact hNew ⟨j, hDrawn.lt, hDrawn⟩

/-- No order passes the gate of the account unless it shrinks its position. -/
def Gated (limits : PropLimits) (a : PropAwareMockBroker) : Prop :=
  a.Shut ∨ a.Breached limits

instance (limits : PropLimits) (a : PropAwareMockBroker) : Decidable (Gated limits a) :=
  inferInstanceAs (Decidable (_ ∨ _))

variable {limits : PropLimits} {a : PropAwareMockBroker}

theorem Gated.reduces {contract : ContractSymbol} {side : Side} {quantity : ℤ}
    (h : Gated limits a)
    (hAllowed : (propTradeAllowed limits a.broker contract side quantity a.guard).1 = none) :
    a.broker.Reduces contract side quantity := by
  by_contra hIncreases
  rcases h with hShut | hBreached
  · exact PropAwareMockBroker.shut_blocks hShut hIncreases hAllowed
  · exact PropAwareMockBroker.breached_blocks hBreached hIncreases hAllowed

theorem propTradeAllowed_peak (limits : PropLimits) (a : PropAwareMockBroker)
    (contract : ContractSymbol) (side : Side) (quantity : ℤ) :
    let r := (propTradeAllowed limits a.broker contract side quantity a.guard).2
    r.equityPeak = a.guard.equityPeak ∨ r.equityPeak = max a.guard.equityPeak a.broker.currentEquity := by
  intro r
  unfold r propTradeAllowed
  cases a.broker.isTradeAllowed quantity with
  | some block => exact .inl rfl
  | none =>
    simp only [increasingBlockReason]
    split
    · exact .inl rfl
    · cases a.guard.halted with
      | some halt => exact .inl rfl
      | none =>
        dsimp only
        split_ifs
        · exact .inl rfl
        · exact .inr rfl
        · exact .inr rfl
        · exact .inr rfl

theorem Gated.checked (h : Gated limits a) (contract : ContractSymbol) (side : Side) (quantity : ℤ) :
    Gated limits
      { a with guard := (propTradeAllowed limits a.broker contract side quantity a.guard).2 } := by
  rcases h with hShut | hBreached
  · refine .inl (hShut.imp id fun hHalted => ?_)
    obtain ⟨halt, hHalt⟩ := Option.isSome_iff_exists.mp hHalted
    exact Option.isSome_iff_exists.mpr ⟨halt, halt_latches hHalt⟩
  · refine .inr (hBreached.imp id fun hTrailing => ?_)
    rcases propTradeAllowed_peak limits a contract side quantity with hPeak | hPeak
    · rw [hPeak]
      exact hTrailing
    · rw [hPeak]
      simpa [max_assoc] using hTrailing

theorem exists_flat_contract (b : MockBroker) : ∃ c, b.net c = 0 := by
  obtain ⟨c, hFresh⟩ := Infinite.exists_notMem_finset b.positions.keys.toFinset
  refine ⟨c, ?_⟩
  have hNone : b.positions.get? c = none := by
    apply (Dict.get?_eq_none_iff _ _).mpr
    simpa using hFresh
  simp [MockBroker.net, hNone]

/-- An account that is not gated can still be opened: the gate lets one contract through. -/
theorem gated_iff : Gated limits a ↔ ∀ contract side quantity,
    ¬a.broker.Reduces contract side quantity →
      (propTradeAllowed limits a.broker contract side quantity a.guard).1 ≠ none := by
  constructor
  · intro h contract side quantity hIncreases hAllowed
    exact hIncreases (h.reduces hAllowed)
  · intro hRefuses
    obtain ⟨c, hFlat⟩ := exists_flat_contract a.broker
    have hOpens : ¬a.broker.Reduces c .buy 1 := by simp [MockBroker.Reduces, hFlat]
    have hRefused := hRefuses c .buy 1 hOpens
    by_contra hNot
    obtain ⟨hShut, hBreached⟩ := not_or.mp hNot
    obtain ⟨hAll, hHalted⟩ := not_or.mp hShut
    obtain ⟨hDaily, hTrailing⟩ := not_or.mp hBreached
    apply hRefused
    have hBase : a.broker.isTradeAllowed 1 = none := by simp [MockBroker.isTradeAllowed, hAll]
    have hNone : a.guard.halted = none := by simpa using hHalted
    have hCap : ¬|a.broker.net c + Side.buy.signed 1| > limits.maxContracts := by
      simpa [hFlat] using limits.max_pos
    simp only [propTradeAllowed, hBase, hOpens, if_false, increasingBlockReason, hNone, hCap,
      hDaily]
    exact congrArg Prod.fst (if_neg hTrailing)

/-! ## One pass -/

section Pass

variable {σ : Type} {e : BacktestEngine σ PropState} {s s' : LoopState σ PropState}

def LoopState.account (s : LoopState σ PropState) : PropAwareMockBroker := ⟨s.broker, s.guard⟩

theorem Ordered.onlyShrinks {b b' : MockBroker} {contract : ContractSymbol} {side : Side}
    {quantity : ℤ} {id : BrokerOrderId} (h : Ordered b b' contract side quantity id)
    (hReduces : b.Reduces contract side quantity) : OnlyShrinks b b' (some id) := by
  obtain ⟨order, rfl, rfl, rfl, -, hPlaced⟩ := h
  rintro id' order' hId hGet
  cases hId
  rw [hPlaced.orders, Dict.get?_set_self] at hGet
  cases hGet
  exact hReduces

theorem isTradeAllowed_gated (hGuard : e.guard = .prop limits) (hGated : Gated limits s.account)
    {contract : ContractSymbol} {side : Side} {quantity : ℤ} {block : Option TradeBlock}
    (h : e.isTradeAllowed contract side quantity s = .ok block s') :
    s'.broker = s.broker ∧ Gated limits s'.account ∧
      (¬block ≠ none → s.broker.Reduces contract side quantity) := by
  simp only [BacktestEngine.isTradeAllowed, bind_ok_iff, get_ok_iff, modify_ok_iff, pure_ok_iff,
    hGuard] at h
  obtain ⟨_, _, ⟨rfl, rfl⟩, _, _, rfl, rfl, rfl⟩ := h
  refine ⟨rfl, hGated.checked contract side quantity, fun hNone => ?_⟩
  exact hGated.reduces (not_not.mp hNone)

theorem tradeSignal_gated (hGuard : e.guard = .prop limits) (hGated : Gated limits s.account)
    {i : ℕ} {bar : VerifiedBar} {mtm : ℚ} {positions : List Position} {signal : Signal}
    {outcome : BarOutcome} (h : e.tradeSignal i bar mtm positions signal s = .ok outcome s') :
    OnlyShrinks s.broker s'.broker outcome.placed := by
  simp only [BacktestEngine.tradeSignal, bind_ok_iff, get_ok_iff, liftExcept_ok_iff, modify_ok_iff] at h
  obtain ⟨_, _, ⟨rfl, rfl⟩, _, _, ⟨-, rfl⟩, decision, _, ⟨-, rfl⟩, _, s₁, hs₁, h⟩ := h
  have hBroker : s₁.broker = s.broker := hs₁ ▸ rfl
  have hGated₁ : Gated limits s₁.account := hs₁ ▸ hGated
  rw [ite_ok_iff, pure_ok_iff] at h
  rcases h with ⟨-, rfl, -⟩ | ⟨-, h⟩
  · exact onlyShrinks_none _ _
  cases hResolved : e.resolveOrder decision signal positions with
  | none =>
    simp only [hResolved, pure_ok_iff] at h
    obtain ⟨rfl, -⟩ := h
    exact onlyShrinks_none _ _
  | some resolved =>
    simp only [hResolved, bind_ok_iff, ite_ok_iff, pure_ok_iff] at h
    obtain ⟨block, s₂, hAllowed, h⟩ := h
    obtain ⟨hBroker₂, -, hReduces⟩ := isTradeAllowed_gated hGuard hGated₁ hAllowed
    rcases h with ⟨-, rfl, -⟩ | ⟨hNone, id, s₃, hPlace, rfl, rfl⟩
    · exact onlyShrinks_none _ _
    · have hOrdered := (placeMarket_ok hPlace).1
      rw [hBroker₂, hBroker] at hOrdered
      exact hOrdered.onlyShrinks (hBroker ▸ hReduces hNone)

theorem flattenOnFlat_gated (hGuard : e.guard = .prop limits) (hGated : Gated limits s.account)
    {bar : VerifiedBar} {signal : Signal} {positions : List Position}
    {closing : Option BrokerOrderId}
    (h : e.flattenOnFlat signal positions bar s = .ok closing s') :
    OnlyShrinks s.broker s'.broker closing := by
  simp only [BacktestEngine.flattenOnFlat, ite_ok_iff, bind_ok_iff, pure_ok_iff] at h
  rcases h with ⟨-, rfl, -⟩ | ⟨-, block, s₁, hAllowed, h⟩
  · exact onlyShrinks_none _ _
  obtain ⟨hBroker, -, hReduces⟩ := isTradeAllowed_gated hGuard hGated hAllowed
  rcases h with ⟨-, rfl, -⟩ | ⟨hNone, id, s₂, hPlace, rfl, rfl⟩
  · exact onlyShrinks_none _ _
  · have hOrdered := (placeMarket_ok hPlace).1
    rw [hBroker] at hOrdered
    exact hOrdered.onlyShrinks (hReduces hNone)

theorem decide_gated (hGuard : e.guard = .prop limits) (hGated : Gated limits s.account) {i : ℕ}
    {bar : VerifiedBar} {mtm : ℚ} {positions : List Position} {outcome : BarOutcome}
    (h : e.decide i bar mtm positions s = .ok outcome s') :
    OnlyShrinks s.broker s'.broker outcome.placed := by
  simp only [BacktestEngine.decide, bind_ok_iff, get_ok_iff, liftExcept_ok_iff, modify_ok_iff] at h
  obtain ⟨_, _, ⟨rfl, rfl⟩, ⟨signal, memory⟩, _, ⟨-, rfl⟩, _, s₁, hs₁, h⟩ := h
  cases signal with
  | none =>
    obtain ⟨rfl, -⟩ := pure_ok_iff.mp h
    exact onlyShrinks_none _ _
  | some signal =>
    simp only [bind_ok_iff, modify_ok_iff, ite_ok_iff, pure_ok_iff] at h
    obtain ⟨_, s₂, hs₂, h⟩ := h
    have hBroker : s₂.broker = s.broker := by rw [← hs₂, ← hs₁]
    have hGated₂ : Gated limits s₂.account := by
      rw [← hs₂, ← hs₁]
      exact hGated
    rw [← hBroker]
    rcases h with ⟨-, ⟨-, closing, s₃, hFlatten, rfl, rfl⟩ | ⟨-, rfl, -⟩⟩ | ⟨-, hTrade⟩
    · exact flattenOnFlat_gated hGuard hGated₂ hFlatten
    · exact onlyShrinks_none _ _
    · exact tradeSignal_gated hGuard hGated₂ hTrade

theorem applyStopLoss_gated (hGuard : e.guard = .prop limits) (hGated : Gated limits s.account)
    {bar : VerifiedBar} {positions : List Position} {pct : ℚ} {stopped : Option BrokerOrderId}
    (h : e.applyStopLoss bar positions pct s = .ok stopped s') :
    OnlyShrinks s.broker s'.broker stopped ∧
      (stopped = none → s'.broker = s.broker ∧ Gated limits s'.account) := by
  unfold BacktestEngine.applyStopLoss at h
  cases hFind : positions.find? fun p => p.contract = bar.contract ∧ p.quantity ≠ 0 with
  | none =>
    simp only [hFind, pure_ok_iff] at h
    obtain ⟨rfl, rfl⟩ := h
    exact ⟨onlyShrinks_none _ _, fun _ => ⟨rfl, hGated⟩⟩
  | some p =>
    simp only [hFind, ite_ok_iff, pure_ok_iff, bind_ok_iff] at h
    rcases h with ⟨-, rfl, rfl⟩ | ⟨-, ⟨-, rfl, rfl⟩ | ⟨-, block, s₁, hAllowed, h⟩⟩
    · exact ⟨onlyShrinks_none _ _, fun _ => ⟨rfl, hGated⟩⟩
    · exact ⟨onlyShrinks_none _ _, fun _ => ⟨rfl, hGated⟩⟩
    obtain ⟨hBroker, hGated₁, hReduces⟩ := isTradeAllowed_gated hGuard hGated hAllowed
    rcases h with ⟨-, rfl, rfl⟩ | ⟨hNone, id, s₂, hPlace, rfl, rfl⟩
    · exact ⟨onlyShrinks_none _ _, fun _ => ⟨hBroker, hGated₁⟩⟩
    · have hOrdered := (placeMarket_ok hPlace).1
      rw [hBroker] at hOrdered
      exact ⟨hOrdered.onlyShrinks (hReduces hNone), fun hStopped => nomatch hStopped⟩

theorem act_gated (hGuard : e.guard = .prop limits) (hGated : Gated limits s.account) {i : ℕ}
    {bar : VerifiedBar} {mtm : ℚ} {positions : List Position} {outcome : BarOutcome}
    (h : e.act i bar mtm positions s = .ok outcome s') :
    OnlyShrinks s.broker s'.broker outcome.placed := by
  unfold BacktestEngine.act at h
  rw [ite_ok_iff, pure_ok_iff] at h
  rcases h with ⟨-, rfl, -⟩ | ⟨-, h⟩
  · exact onlyShrinks_none _ _
  cases hPct : e.stopLossPct with
  | none =>
    rw [hPct] at h
    exact decide_gated hGuard hGated h
  | some pct =>
    simp only [hPct, bind_ok_iff] at h
    obtain ⟨stopped, s₁, hStop, h⟩ := h
    obtain ⟨hShrinks, hUntouched⟩ := applyStopLoss_gated hGuard hGated hStop
    cases stopped with
    | some id =>
      obtain ⟨rfl, rfl⟩ := pure_ok_iff.mp h
      exact hShrinks
    | none =>
      obtain ⟨hBroker, hGated₁⟩ := hUntouched rfl
      rw [← hBroker]
      exact decide_gated hGuard hGated₁ h

/-- The pass up to the mark, where the decision finds the account. -/
def BacktestEngine.marked (e : BacktestEngine σ PropState) (bar : VerifiedBar) :
    EngineM σ PropState (ℚ × List Position) := do
  let _ ← e.fillAndRoll bar
  e.mark bar

theorem RollStep.eq_of_noRolls {bar : VerifiedBar} {b b' : MockBroker} (h : RollStep e bar b b')
    (hNoRolls : e.rollEvents = []) : b' = b := by
  rcases h with ⟨rfl, -⟩ | ⟨event, hEvent, -⟩
  · rfl
  · have := (BacktestEngine.mem_rollEvents hEvent).1
    rw [hNoRolls] at this
    cases this

theorem processBar_gated (hGuard : e.guard = .prop limits) (hNoRolls : e.rollEvents = [])
    {step : VerifiedBar × ℕ} {r : BarRecord} (h : e.processBar step s = .ok r s') :
    let m := (e.marked step.1).after s
    ∃ mtm, m.equityCurve = s.equityCurve ++ [mtm] ∧ s'.equityCurve = m.equityCurve ∧
      (Gated limits m.account → OnlyShrinks r.advanced r.processed r.outcome.placed) := by
  intro m
  simp only [BacktestEngine.processBar, bind_ok_iff, get_ok_iff, pure_ok_iff] at h
  obtain ⟨⟨filled, advanced⟩, s₁, hFill, ⟨mtm, positions⟩, s₂, hMark, outcome, s₃, hAct, _, _,
    ⟨rfl, rfl⟩, rfl, rfl⟩ := h
  have hMarked : m = s₂ := after_of_ok ((bind_of_ok hFill).trans hMark)
  have hRoll := (fillAndRoll_ok hFill).2.1.eq_of_noRolls hNoRolls
  obtain ⟨-, hBroker, -, -, -, hCurve⟩ := mark_ok hMark
  rw [hMarked]
  refine ⟨mtm, ?_, (keeps_act step.2 step.1 mtm positions).ok hAct, fun hGated => ?_⟩
  · rw [hCurve, (keeps_fillAndRoll step.1).ok hFill]
  · have hShrinks := act_gated hGuard hGated hAct
    rwa [hBroker, hRoll] at hShrinks

end Pass

/-! ## Runs -/

section Runs

variable {σ : Type} {e : BacktestEngine σ PropState}

/-- Where the curve is drawn down, the gate's own account is gated at the decision. -/
def SeesDrawdown (e : BacktestEngine σ PropState) (limits : PropLimits) (peak : ℚ)
    (s : LoopState σ PropState) (step : VerifiedBar × ℕ) : Prop :=
  let m := (e.marked step.1).after s
  (∃ j < m.equityCurve.length, DrawnDown limits.trailingMaxLossLimit peak m.equityCurve j) →
    Gated limits m.account

instance (e : BacktestEngine σ PropState) (limits : PropLimits) (peak : ℚ)
    (s : LoopState σ PropState) (step : VerifiedBar × ℕ) :
    Decidable (SeesDrawdown e limits peak s step) :=
  inferInstanceAs (Decidable (_ → _))

def pass (e : BacktestEngine σ PropState) (step : VerifiedBar × ℕ) : EngineM σ PropState PUnit :=
  (e.processBar step).forget

/-- In every run over a prop account at whose bars the gate sees a drawdown of the marked curve as
soon as there is one: from the first drawdown on, every order shrinks the position it finds. -/
theorem drawdown_stops_opening (hGuard : e.guard = .prop limits) (hNoRolls : e.rollEvents = [])
    {bars : List VerifiedBar} {account : PropAwareMockBroker} {memory : σ} {result : RunResult}
    {records : List BarRecord} {s' : LoopState σ PropState}
    (hSees : Follows (pass e) (SeesDrawdown e limits account.guard.equityPeak)
      (.start account.broker account.guard memory) bars.zipIdx)
    (hRun : e.run bars (.start account.broker account.guard memory) = .ok (result, records) s') :
    ShrinksOnceDrawn limits.trailingMaxLossLimit account.guard.equityPeak result.equityCurve
      records := by
  set s := LoopState.start account.broker account.guard memory with hs
  set limit := limits.trailingMaxLossLimit
  set peak := account.guard.equityPeak
  obtain ⟨s₁, hLoop, -, -, -, hCurve⟩ := run_loop hRun
  rw [hCurve]
  refine (each_rule (fun done log t => t = runAll (pass e) s done ∧
    t.equityCurve.length = log.length ∧ ShrinksOnceDrawn limit peak t.equityCurve log)
    ?_ ⟨rfl, rfl, ?_⟩ hLoop).2.2
  · rintro done step rest log r t t' hItems ⟨rfl, hLength, hShrinks⟩ hPass
    rw [hItems] at hSees
    obtain ⟨-, hSeesHere, -⟩ := (follows_append _ _ _).mp hSees
    obtain ⟨mtm, hMarked, hKept, hGated⟩ := processBar_gated hGuard hNoRolls hPass
    rw [hKept, hMarked]
    refine ⟨?_, by simp [hLength], hShrinks.concat hLength fun hDrawn => hGated ?_⟩
    · rw [runAll_concat, pass, after_forget, after_of_ok hPass]
    · exact hSeesHere (hMarked ▸ hDrawn)
  · intro j hDrawn
    exact absurd hDrawn.lt (Nat.not_lt_zero j)

end Runs

/-! ## A falling market -/

/-- A trailing limit of 500 with room for ten contracts and no daily limit in reach. -/
def trailing500 : PropLimits where
  dailyLossLimit := 1000000
  trailingMaxLossLimit := 500
  maxContracts := 10
  daily_pos := by norm_num
  trailing_pos := by norm_num
  max_pos := by norm_num

def propEngine : BacktestEngine (List (ℤ × ℚ)) PropState where
  strategy := scripted
  guard := .prop trailing500
  risk := .default fun _ _ _ _ _ _ => 1
  slippage := none
  survivalGate := false
  survivalSeed := 0
  targetPosition := false
  rollEvents := []
  stopLossPct := none
  stop_loss_pos := no_stop_loss

def propAccount : PropAwareMockBroker := ⟨freshBroker, ⟨freshBroker.config.startingEquity, none⟩⟩

def fallingDays : List VerifiedBar :=
  [dailyBar "MESZ25" .dec10 5000, dailyBar "MESZ25" .dec11 5000,
    dailyBar "MESZ25" .dec12 4900, dailyBar "MESZ25" .dec15 4900]

def buySellBuy : List (ℤ × ℚ) := [(1, 2), (-1, 2), (1, 2), (1, 2)]

theorem drawdown_stops_opening_realized : ∃ result records s',
    propEngine.run fallingDays (.start propAccount.broker propAccount.guard buySellBuy) =
        .ok (result, records) s' ∧
      DrawnDown trailing500.trailingMaxLossLimit propAccount.guard.equityPeak result.equityCurve 2 ∧
      ShrinksOnceDrawn trailing500.trailingMaxLossLimit propAccount.guard.equityPeak
        result.equityCurve records := by
  have hReturns : returns (propEngine.run fallingDays)
      (.start propAccount.broker propAccount.guard buySellBuy) (fun out _ =>
        DrawnDown trailing500.trailingMaxLossLimit propAccount.guard.equityPeak
          out.1.equityCurve 2) = true := by decide +kernel
  obtain ⟨⟨result, records⟩, s', hRun, hDrawn⟩ := exists_ok_of_returns hReturns
  have hSees : Follows (pass propEngine)
      (SeesDrawdown propEngine trailing500 propAccount.guard.equityPeak)
      (.start propAccount.broker propAccount.guard buySellBuy) fallingDays.zipIdx := by
    decide +kernel
  exact ⟨result, records, s', hRun, of_decide_eq_true hDrawn,
    drawdown_stops_opening rfl rfl hSees hRun⟩

/-- Long on the first day and again on the third, with the loss still open. -/
def buyHoldBuy : List (ℤ × ℚ) := [(1, 2), (0, 0), (1, 2), (1, 2)]

/-- The order of a bar leaves a larger position than the broker had. -/
def Grows (r : BarRecord) : Prop :=
  ∃ id ∈ r.outcome.placed, ∃ order ∈ r.processed.orders.get? id,
    |r.advanced.net order.contract| <
      |r.advanced.net order.contract + order.side.signed order.quantity|

instance (r : BarRecord) : Decidable (Grows r) :=
  inferInstanceAs (Decidable (∃ id ∈ r.outcome.placed, _))

/-- On the third day the marked curve is down by the limit and the order adds to the position. -/
theorem open_loss_unseen : ∃ result records s',
    propEngine.run fallingDays (.start propAccount.broker propAccount.guard buyHoldBuy) =
        .ok (result, records) s' ∧
      (∀ bar ∈ fallingDays, 0 < bar.low) ∧ (∃ r, records[2]? = some r ∧ Grows r) ∧
      ¬ShrinksOnceDrawn trailing500.trailingMaxLossLimit propAccount.guard.equityPeak
        result.equityCurve records := by
  have hReturns : returns (propEngine.run fallingDays)
      (.start propAccount.broker propAccount.guard buyHoldBuy) (fun out _ =>
        DrawnDown trailing500.trailingMaxLossLimit propAccount.guard.equityPeak
          out.1.equityCurve 2 ∧ ∃ r ∈ out.2[2]?, Grows r) = true := by decide +kernel
  obtain ⟨⟨result, records⟩, s', hRun, hTest⟩ := exists_ok_of_returns hReturns
  obtain ⟨hDrawn, r, hGet, hGrows⟩ := of_decide_eq_true hTest
  refine ⟨result, records, s', hRun, by decide +kernel, ⟨r, hGet, hGrows⟩, fun hShrinks => ?_⟩
  obtain ⟨id, hPlaced, order, hOrder, hLess⟩ := hGrows
  exact lt_asymm hLess (hShrinks 2 hDrawn 2 le_rfl r hGet id order hPlaced hOrder)

end Futur3.Engine
