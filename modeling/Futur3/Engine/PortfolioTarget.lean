import Futur3.Engine.Portfolio
import Futur3.Engine.TargetPosition

/-! # Targets across gaps in the streams

A decision is taken on every date, an order fills on the next bar of its contract.
The delta of a decision is counted from the filled position, so it leads to the target
exactly when nothing is pending for the contract at the time.
-/

namespace Futur3.Engine

open Data Execution Prelude Method
open MockBroker (OpenOrder Consistent MarketOnly)

/-! ## The trace of a run -/

inductive PortfolioEvent where
  | bar (r : BarFill)
  | leg (l : LegRecord)

def PortfolioEvent.contract : PortfolioEvent → ContractSymbol
  | bar r => r.bar.contract
  | leg l => l.signal.contract

def DateRecord.events (r : DateRecord) : List PortfolioEvent :=
  r.bars.map .bar ++ r.legs.map .leg

def trace (records : List DateRecord) : List PortfolioEvent := records.flatMap DateRecord.events

def lastAbout (c : ContractSymbol) (events : List PortfolioEvent) : Option PortfolioEvent :=
  events.reverse.find? fun e => e.contract = c

theorem lastAbout_concat (c : ContractSymbol) (events : List PortfolioEvent) (e : PortfolioEvent) :
    lastAbout c (events ++ [e]) = if e.contract = c then some e else lastAbout c events := by
  simp only [lastAbout, List.reverse_append, List.reverse_singleton, List.singleton_append,
    List.find?_cons]
  split <;> simp_all

/-- The count the sizing gate returned, where it returned one to trade on. -/
def LegOutcome.sized : LegOutcome → Option SizingDecision
  | onTarget decision => some decision
  | blocked decision => some decision
  | ordered decision _ => some decision
  | _ => none

/-- The leg was passed over: no close seen yet, or refused by the gate. -/
def LegOutcome.passedOver : LegOutcome → Bool
  | noPrice => true
  | flatBlocked => true
  | blocked _ => true
  | _ => false

def signedTarget (signal : Signal) (decision : SizingDecision) : ℤ :=
  if signal.direction > 0 then decision.contracts else -decision.contracts

/-- The signed target of a decision: zero for a flat signal, else the sized count if positive. -/
def LegRecord.target (l : LegRecord) : Option ℤ :=
  if l.signal.direction = 0 then some 0 else l.outcome.sized.map (signedTarget l.signal)

/-- Nothing is pending for the leg's contract before its order; where the leg is passed over, what is
already committed is the target. -/
def LegRecord.Clear (l : LegRecord) (target : ℤ) : Prop :=
  if l.outcome.passedOver then l.before.committed l.signal.contract = target
  else l.before.committed l.signal.contract = l.before.net l.signal.contract

/-- The position after the first bar since a decision, for every decision with a target. -/
def AtFirstBar (P : LegRecord → ℤ → BarFill → Prop) (events : List PortfolioEvent) : Prop :=
  ∀ pre r post l target, events = pre ++ .bar r :: post →
    lastAbout r.bar.contract pre = some (.leg l) → l.target = some target → P l target r

/-- The first bar of a contract after a decision about it leaves the target as the position. -/
def TracksTarget (events : List PortfolioEvent) : Prop :=
  AtFirstBar (fun _ target r => r.after.net r.bar.contract = target) events

def NothingPending (events : List PortfolioEvent) : Prop :=
  AtFirstBar (fun l target _ => l.Clear target) events

theorem append_cons_eq_concat {α : Type} {xs pre post : List α} {x y : α}
    (h : xs ++ [y] = pre ++ x :: post) :
    (post = [] ∧ xs = pre ∧ y = x) ∨ ∃ rest, xs = pre ++ x :: rest := by
  rcases List.eq_nil_or_concat post with rfl | ⟨rest, last, rfl⟩
  · obtain ⟨hPre, hLast⟩ := List.append_inj' h rfl
    exact .inl ⟨rfl, hPre, List.singleton_inj.mp hLast⟩
  · right
    refine ⟨rest, ?_⟩
    rw [List.concat_eq_append, ← List.cons_append, ← List.append_assoc] at h
    exact (List.append_inj' h rfl).1

theorem AtFirstBar.concat_bar {P : LegRecord → ℤ → BarFill → Prop} {events : List PortfolioEvent}
    (h : AtFirstBar P events) {r : BarFill}
    (hNew : ∀ l target, lastAbout r.bar.contract events = some (.leg l) →
      l.target = some target → P l target r) : AtFirstBar P (events ++ [.bar r]) := by
  intro pre r' post l target hSplit hLast hTarget
  rcases append_cons_eq_concat hSplit with ⟨-, rfl, hEvent⟩ | ⟨rest, hOld⟩
  · cases hEvent
    exact hNew l target hLast hTarget
  · exact h pre r' rest l target hOld hLast hTarget

theorem AtFirstBar.concat_leg {P : LegRecord → ℤ → BarFill → Prop} {events : List PortfolioEvent}
    (h : AtFirstBar P events) (l : LegRecord) : AtFirstBar P (events ++ [.leg l]) := by
  intro pre r' post l' target hSplit hLast hTarget
  rcases append_cons_eq_concat hSplit with ⟨-, -, hEvent⟩ | ⟨rest, hOld⟩
  · cases hEvent
  · exact h pre r' rest l' target hOld hLast hTarget

/-! ## One bar, one leg -/

section Pass

variable {σ ρ : Type} {e : PortfolioBacktestEngine σ ρ} {s s' : PortfolioState σ ρ}

namespace PortfolioBacktestEngine

theorem onBroker_ok_iff {α : Type} {x : BrokerM α} {a : α} :
    (onBroker x : PortfolioM σ ρ α) s = .ok a s' ↔
      ∃ b, x s.broker = .ok a b ∧ { s with broker := b } = s' := by
  unfold onBroker
  cases x s.broker with
  | ok a' b' => simp
  | error e b' => simp

theorem takeBar_ok {p : StreamBar} {r : BarFill} (h : e.takeBar p s = .ok r s') :
    r.after = s'.broker ∧ MockBroker.Advanced s.broker s'.broker r.bar e.slippage r.filled := by
  simp only [takeBar, bind_ok_iff, get_ok_iff, onBroker_ok_iff, modify_ok_iff, pure_ok_iff] at h
  obtain ⟨filled, _, ⟨b, hAdvance, rfl⟩, _, _, rfl, _, _, ⟨rfl, rfl⟩, rfl, rfl⟩ := h
  exact ⟨rfl, MockBroker.advance_ok hAdvance⟩

theorem isTradeAllowed_ok {contract : ContractSymbol} {side : Side} {quantity : ℤ}
    {block : Option TradeBlock} (h : e.isTradeAllowed contract side quantity s = .ok block s') :
    s'.broker = s.broker := by
  simp only [isTradeAllowed, bind_ok_iff, get_ok_iff, modify_ok_iff, pure_ok_iff] at h
  obtain ⟨_, _, ⟨rfl, rfl⟩, _, _, rfl, rfl, rfl⟩ := h
  rfl

theorem placeMarket_ok {contract : ContractSymbol} {side : Side} {quantity : ℤ} {tag : String}
    {id : BrokerOrderId} (h : placeMarket contract side quantity tag s = .ok id s') :
    Ordered s.broker s'.broker contract side quantity id := by
  simp only [placeMarket, bind_ok_iff, liftExcept_ok_iff, mapError_ok_iff, onBroker_ok_iff,
    modify_ok_iff, pure_ok_iff] at h
  obtain ⟨order, _, ⟨hOrder, rfl⟩, id', _, ⟨b, hPlace, rfl⟩, _, _, rfl, rfl, rfl⟩ := h
  obtain ⟨hContract, hSide, hQuantity, hType⟩ := Order.market_ok hOrder
  exact ⟨order, hContract, hSide, hQuantity, hType, MockBroker.placeOrder_ok hPlace⟩

end PortfolioBacktestEngine

/-- The orders of a leg: none, or one that trades a delta of its contract. -/
structure LegMove (b b' : MockBroker) (contract : ContractSymbol) (delta : ℤ) : Prop where
  consistent : Consistent b'
  market : MarketOnly b'
  net : ∀ c, b'.net c = b.net c
  committed : ∀ c, b'.committed c = b.committed c + if contract = c then delta else 0

theorem LegMove.none {b : MockBroker} (hConsistent : Consistent b) (hMarket : MarketOnly b)
    (contract : ContractSymbol) : LegMove b b contract 0 where
  consistent := hConsistent
  market := hMarket
  net _ := rfl
  committed c := by
    rw [ite_self, add_zero]

theorem Ordered.legMove {b b' : MockBroker} {contract : ContractSymbol} {side : Side} {quantity : ℤ}
    {id : BrokerOrderId} (h : Ordered b b' contract side quantity id) (hConsistent : Consistent b)
    (hMarket : MarketOnly b) : LegMove b b' contract (side.signed quantity) where
  consistent := by
    obtain ⟨order, -, -, -, -, hPlaced⟩ := h
    exact hConsistent.place hPlaced
  market := by
    obtain ⟨order, -, -, -, hType, hPlaced⟩ := h
    intro id' order' filled hOpen
    rcases (hPlaced.open_iff hConsistent id' order' filled).mp hOpen with ⟨-, rfl, -⟩ | ⟨-, hBefore⟩
    · exact hType
    · exact hMarket id' order' filled hBefore
  net c := by
    obtain ⟨order, -, -, -, -, hPlaced⟩ := h
    simp only [MockBroker.net, hPlaced.positions]
  committed c := h.committed hConsistent c

namespace PortfolioBacktestEngine

theorem resolveOrder_none {decision : SizingDecision} {signal : Signal} {positions : List Position}
    {contract : ContractSymbol} (hTarget : e.targetPosition = true)
    (h : e.resolveOrder decision signal positions contract = none) :
    signedTarget signal decision - netPosition positions contract = 0 := by
  simpa only [signedTarget, resolveOrder, hTarget, if_true, ite_eq_left_iff, reduceCtorEq, imp_false,
    not_not] using h

theorem resolveOrder_some {decision : SizingDecision} {signal : Signal} {positions : List Position}
    {contract : ContractSymbol} {side : Side} {quantity : ℤ} (hTarget : e.targetPosition = true)
    (h : e.resolveOrder decision signal positions contract = some (side, quantity)) :
    side.signed quantity = signedTarget signal decision - netPosition positions contract := by
  simp only [resolveOrder, hTarget, if_true, Option.ite_none_left_eq_some, Option.some.injEq,
    Prod.mk.injEq] at h
  obtain ⟨-, rfl, rfl⟩ := h
  exact Side.signed_reopen _

variable {positions : List Position} (hConsistent : Consistent s.broker)
  (hMarket : MarketOnly s.broker) (hNet : ∀ c, netPosition positions c = s.broker.net c)
include hConsistent hMarket hNet

theorem flatten_ok {contract : ContractSymbol} {outcome : LegOutcome}
    (h : e.flatten contract positions s = .ok outcome s') :
    LegMove s.broker s'.broker contract
      (if outcome.passedOver then 0 else 0 - s.broker.net contract) := by
  simp only [flatten, ite_ok_iff, bind_ok_iff, pure_ok_iff, hNet] at h
  rcases h with ⟨hFlat, rfl, rfl⟩ | ⟨-, block, s₁, hAllowed, h⟩
  · rw [hFlat]
    exact .none hConsistent hMarket contract
  have hBroker := isTradeAllowed_ok hAllowed
  rcases h with ⟨-, rfl, rfl⟩ | ⟨-, id, s₂, hPlace, rfl, rfl⟩
  · rw [hBroker]
    exact .none hConsistent hMarket contract
  · have hOrdered := placeMarket_ok hPlace
    rw [hBroker] at hOrdered
    have hMove := hOrdered.legMove hConsistent hMarket
    rw [Side.signed_close, ← zero_sub] at hMove
    exact hMove

theorem tradeLeg_ok (hTarget : e.targetPosition = true) {mtm price : ℚ}
    {weights : Option (Dict ContractSymbol ℚ)} {key : ContractSymbol} {signal : Signal}
    {outcome : LegOutcome} (h : e.tradeLeg positions mtm weights key signal price s = .ok outcome s') :
    ∃ delta, LegMove s.broker s'.broker signal.contract delta ∧
      ∀ decision, outcome.sized = some decision →
        delta = if outcome.passedOver then 0
          else signedTarget signal decision - s.broker.net signal.contract := by
  simp only [tradeLeg, bind_ok_iff, liftExcept_ok_iff, ite_ok_iff, pure_ok_iff] at h
  obtain ⟨decision, _, ⟨-, rfl⟩, ⟨-, rfl, rfl⟩ | ⟨-, h⟩⟩ := h
  · refine ⟨0, .none hConsistent hMarket _, fun _ hSized => ?_⟩
    cases hSized
  cases hResolved : e.resolveOrder decision signal positions signal.contract with
  | none =>
    simp only [hResolved, pure_ok_iff] at h
    obtain ⟨rfl, rfl⟩ := h
    refine ⟨0, .none hConsistent hMarket _, fun decision' hSized => ?_⟩
    cases hSized
    rw [← hNet]
    exact (resolveOrder_none hTarget hResolved).symm
  | some resolved =>
    obtain ⟨side, quantity⟩ := resolved
    simp only [hResolved, bind_ok_iff, ite_ok_iff, pure_ok_iff] at h
    obtain ⟨block, s₁, hAllowed, h⟩ := h
    have hBroker := isTradeAllowed_ok hAllowed
    rcases h with ⟨-, rfl, rfl⟩ | ⟨-, id, s₂, hPlace, rfl, rfl⟩
    · rw [hBroker]
      exact ⟨0, .none hConsistent hMarket _, fun _ _ => rfl⟩
    · have hOrdered := placeMarket_ok hPlace
      rw [hBroker] at hOrdered
      refine ⟨_, hOrdered.legMove hConsistent hMarket, fun decision' hSized => ?_⟩
      cases hSized
      rw [← hNet]
      exact resolveOrder_some hTarget hResolved

/-- A leg with a target trades the gap between the position and the target, unless passed over. -/
theorem recordLeg_ok (hTarget : e.targetPosition = true) {lastClose : Dict ContractSymbol ℚ}
    {mtm : ℚ} {weights : Option (Dict ContractSymbol ℚ)} {leg : ContractSymbol × Signal}
    {l : LegRecord} (h : e.recordLeg positions lastClose mtm weights leg s = .ok l s') :
    l.before = s.broker ∧ l.after = s'.broker ∧
      ∃ delta, LegMove s.broker s'.broker l.signal.contract delta ∧
        ∀ target, l.target = some target →
          delta = if l.outcome.passedOver then 0
            else target - s.broker.net l.signal.contract := by
  simp only [recordLeg, bind_ok_iff, get_ok_iff, pure_ok_iff] at h
  obtain ⟨_, _, ⟨rfl, rfl⟩, outcome, s₁, hPlace, _, _, ⟨rfl, rfl⟩, rfl, rfl⟩ := h
  refine ⟨rfl, rfl, ?_⟩
  unfold placeLeg at hPlace
  cases hPrice : lastClose.get? leg.2.contract with
  | none =>
    simp only [hPrice, pure_ok_iff] at hPlace
    obtain ⟨rfl, rfl⟩ := hPlace
    exact ⟨0, .none hConsistent hMarket _, fun _ _ => rfl⟩
  | some price =>
    simp only [hPrice, hTarget, if_true, ite_ok_iff] at hPlace
    rcases hPlace with ⟨hFlat, hFlatten⟩ | ⟨hDirection, hTrade⟩
    · refine ⟨_, flatten_ok hConsistent hMarket hNet hFlatten, fun target hSome => ?_⟩
      simp only [LegRecord.target, hFlat, if_true, Option.some.injEq] at hSome
      rw [← hSome]
    · obtain ⟨delta, hMove, hDelta⟩ := tradeLeg_ok hConsistent hMarket hNet hTarget hTrade
      refine ⟨delta, hMove, fun target hSome => ?_⟩
      simp only [LegRecord.target, hDirection, if_false, Option.map_eq_some_iff] at hSome
      obtain ⟨decision, hSized, rfl⟩ := hSome
      exact hDelta decision hSized

end PortfolioBacktestEngine

end Pass

/-! ## Runs -/

structure Followed (events : List PortfolioEvent) (b : MockBroker) : Prop where
  consistent : Consistent b
  market : MarketOnly b
  carried : ∀ c l target, lastAbout c events = some (.leg l) → l.target = some target →
    (b.committed c = target ↔ l.Clear target)
  tracked : AtFirstBar (fun l target r => r.after.net r.bar.contract = target ↔ l.Clear target) events

theorem Followed.start {b : MockBroker} (hConsistent : Consistent b) (hMarket : MarketOnly b) :
    Followed [] b where
  consistent := hConsistent
  market := hMarket
  carried c l target hLast := nomatch hLast
  tracked pre r post l target hSplit := by
    simp at hSplit

/-- A bar settles what is committed for its contract and leaves the other contracts' pending. -/
theorem Followed.bar {events : List PortfolioEvent} {b b' : MockBroker} {r : BarFill}
    {slippage : Option SlippageModel} (h : Followed events b) (hAfter : r.after = b')
    (hAdvanced : MockBroker.Advanced b b' r.bar slippage r.filled) :
    Followed (events ++ [.bar r]) b' where
  consistent := hAdvanced.consistent h.consistent
  market id order filled hOpen := h.market id order filled (hAdvanced.open_before hOpen).1
  carried c l target hLast hTarget := by
    rw [lastAbout_concat] at hLast
    split at hLast
    · cases hLast
    · rw [hAdvanced.committed]
      exact h.carried c l target hLast hTarget
  tracked := by
    refine h.tracked.concat_bar fun l target hLast hTarget => ?_
    have hSettled : b'.committed r.bar.contract = b'.net r.bar.contract :=
      MockBroker.committed_eq_net (hAdvanced.consistent h.consistent)
        fun id order filled => hAdvanced.open_other h.market
    rw [hAfter, ← hSettled, hAdvanced.committed]
    exact h.carried _ l target hLast hTarget

theorem Followed.leg {events : List PortfolioEvent} {b b' : MockBroker} {l : LegRecord} {delta : ℤ}
    (h : Followed events b) (hBefore : l.before = b)
    (hMove : LegMove b b' l.signal.contract delta)
    (hDelta : ∀ target, l.target = some target →
      delta = if l.outcome.passedOver then 0 else target - b.net l.signal.contract) :
    Followed (events ++ [.leg l]) b' where
  consistent := hMove.consistent
  market := hMove.market
  carried c l' target hLast hTarget := by
    rw [lastAbout_concat] at hLast
    split at hLast
    · rename_i hContract
      cases hLast
      have hc : l.signal.contract = c := hContract
      rw [hMove.committed, if_pos hc, hDelta target hTarget, LegRecord.Clear, hBefore, hc]
      split
      · rw [add_zero]
      · omega
    · rename_i hOther
      have hc : ¬l.signal.contract = c := hOther
      rw [hMove.committed, if_neg hc, add_zero]
      exact h.carried c l' target hLast hTarget
  tracked := h.tracked.concat_leg l

section Runs

variable {σ ρ : Type} {e : PortfolioBacktestEngine σ ρ} {s s' : PortfolioState σ ρ}

namespace PortfolioBacktestEngine

theorem bars_followed {events : List PortfolioEvent} {bars : List StreamBar} {fills : List BarFill}
    (h : Followed events s.broker) (hRun : each e.takeBar bars s = .ok fills s') :
    Followed (events ++ fills.map .bar) s'.broker := by
  apply each_rule (fun _ log t => Followed (events ++ log.map PortfolioEvent.bar) t.broker) _ _ hRun
  · intro done p rest log r t t' _ hInv hTake
    obtain ⟨hAfter, hAdvanced⟩ := takeBar_ok hTake
    rw [List.map_append, ← List.append_assoc]
    exact hInv.bar hAfter hAdvanced
  · simpa using h

theorem legs_followed (hTarget : e.targetPosition = true) {events : List PortfolioEvent}
    {positions : List Position} {lastClose : Dict ContractSymbol ℚ} {mtm : ℚ}
    {weights : Option (Dict ContractSymbol ℚ)} {signals : List (ContractSymbol × Signal)}
    {ls : List LegRecord} (h : Followed events s.broker)
    (hNet : ∀ c, netPosition positions c = s.broker.net c)
    (hRun : each (e.recordLeg positions lastClose mtm weights) signals s = .ok ls s') :
    Followed (events ++ ls.map .leg) s'.broker := by
  suffices hBoth : Followed (events ++ ls.map .leg) s'.broker ∧
      ∀ c, netPosition positions c = s'.broker.net c from hBoth.1
  apply each_rule (fun _ log t => Followed (events ++ log.map PortfolioEvent.leg) t.broker ∧
    ∀ c, netPosition positions c = t.broker.net c) _ _ hRun
  · rintro done leg rest log l t t' _ ⟨hInv, hNet⟩ hLeg
    obtain ⟨hBefore, -, delta, hMove, hDelta⟩ :=
      recordLeg_ok hInv.consistent hInv.market hNet hTarget hLeg
    rw [List.map_append, ← List.append_assoc]
    refine ⟨hInv.leg hBefore hMove hDelta, fun c => ?_⟩
    rw [hMove.net, hNet]
  · simpa using ⟨h, hNet⟩

theorem mark_ok {mtm : ℚ} {positions : List Position} (h : e.mark s = .ok (mtm, positions) s') :
    positions = s'.broker.getPositions ∧ s'.broker = s.broker ∧
      s'.equityCurve = s.equityCurve ++ [mtm] := by
  simp only [mark, accountEquity, bind_ok_iff, get_ok_iff, liftExcept_ok_iff, mapError_ok_iff,
    modify_ok_iff, pure_ok_iff, Prod.mk.injEq] at h
  obtain ⟨_, _, ⟨_, _, ⟨rfl, rfl⟩, metrics, _, ⟨-, rfl⟩, _, _, rfl, rfl, rfl⟩, _, _, ⟨rfl, rfl⟩, _, _,
    ⟨-, rfl⟩, _, _, rfl, ⟨rfl, rfl⟩, rfl⟩ := h
  exact ⟨rfl, rfl, rfl⟩

theorem decide_followed (hTarget : e.targetPosition = true) {events : List PortfolioEvent}
    {positions : List Position} {mtm : ℚ} {ls : List LegRecord} (h : Followed events s.broker)
    (hNet : ∀ c, netPosition positions c = s.broker.net c)
    (hRun : e.decide mtm positions s = .ok ls s') :
    Followed (events ++ ls.map .leg) s'.broker := by
  simp only [decide, ite_ok_iff, bind_ok_iff, get_ok_iff, liftExcept_ok_iff, mapError_ok_iff,
    modify_ok_iff, pure_ok_iff] at hRun
  rcases hRun with ⟨-, rfl, rfl⟩ |
    ⟨-, _, _, ⟨rfl, rfl⟩, ⟨signals, memory⟩, _, ⟨-, rfl⟩, _, s₁, hs₁, hRun⟩
  · simpa using h
  have hBroker₁ : s₁.broker = s.broker := by rw [← hs₁]
  rcases hRun with ⟨-, rfl, rfl⟩ | ⟨-, _, s₂, hs₂, weights, _, ⟨-, rfl⟩, hLegs⟩
  · simpa [hBroker₁] using h
  · have hBroker₂ : s₂.broker = s.broker := by rw [← hs₂, hBroker₁]
    rw [← hBroker₂] at h hNet
    exact legs_followed hTarget h hNet hLegs

theorem processDate_followed (hTarget : e.targetPosition = true) (hNoRolls : e.rollEvents = [])
    {events : List PortfolioEvent} {group : Date × List StreamBar} {r : DateRecord}
    (h : Followed events s.broker) (hRun : e.processDate group s = .ok r s') :
    Followed (events ++ r.events) s'.broker := by
  have hRolls : e.rollsOn group.1 = [] := by simp [rollsOn, hNoRolls]
  simp only [processDate, bind_ok_iff, get_ok_iff, pure_ok_iff, hRolls, each_nil_ok_iff] at hRun
  obtain ⟨bars, s₁, hBars, _, _, ⟨-, rfl⟩, ⟨mtm, positions⟩, s₂, hMark, _, _, ⟨rfl, rfl⟩, ls, s₃,
    hDecide, rfl, rfl⟩ := hRun
  have hAfterBars := bars_followed h hBars
  obtain ⟨rfl, hBroker, -⟩ := mark_ok hMark
  rw [← hBroker] at hAfterBars
  have hNet := netPosition_getPositions hAfterBars.consistent.keyed
  have hAll := decide_followed hTarget hAfterBars hNet hDecide
  rwa [List.append_assoc] at hAll

theorem run_followed (hTarget : e.targetPosition = true) (hNoRolls : e.rollEvents = [])
    {histories : Dict ContractSymbol (List VerifiedBar)} {result : RunResult}
    {records : List DateRecord} (hConsistent : Consistent s.broker) (hMarket : MarketOnly s.broker)
    (hRun : e.run histories s = .ok (result, records) s') :
    ∃ b, Followed (trace records) b := by
  simp only [run, bind_ok_iff, pure_ok_iff, Prod.mk.injEq] at hRun
  obtain ⟨_, s₁, hLoop, _, _, -, _, _, -, ⟨-, rfl⟩, -⟩ := hRun
  refine ⟨s₁.broker, ?_⟩
  apply each_rule (fun _ log t => Followed (trace log) t.broker) _ (.start hConsistent hMarket) hLoop
  intro done group rest log r t t' _ hInv hDate
  have := processDate_followed hTarget hNoRolls hInv hDate
  rwa [trace, List.flatMap_append, List.flatMap_singleton]

end PortfolioBacktestEngine

/-- In target-position mode without rolls: the first bar of a contract after a decision leaves the
target as the position exactly when nothing was pending for it before the decision's order. -/
theorem tracks_target_iff (hTarget : e.targetPosition = true) (hNoRolls : e.rollEvents = [])
    {histories : Dict ContractSymbol (List VerifiedBar)} {broker : MockBroker} {guard : ρ}
    {memory : σ} {result : RunResult} {records : List DateRecord} (hConsistent : Consistent broker)
    (hMarket : MarketOnly broker)
    (hRun : e.run histories (PortfolioState.start broker guard memory histories) =
      .ok (result, records) s') :
    TracksTarget (trace records) ↔ NothingPending (trace records) := by
  obtain ⟨b, hFollowed⟩ := PortfolioBacktestEngine.run_followed hTarget hNoRolls
    (s := PortfolioState.start broker guard memory histories) hConsistent hMarket hRun
  constructor
  · intro h pre r post l target hSplit hLast hSome
    exact (hFollowed.tracked pre r post l target hSplit hLast hSome).mp
      (h pre r post l target hSplit hLast hSome)
  · intro h pre r post l target hSplit hLast hSome
    exact (hFollowed.tracked pre r post l target hSplit hLast hSome).mpr
      (h pre r post l target hSplit hLast hSome)

end Runs

/-! ## A stream with a missing day -/

theorem AtFirstBar.at_index {P : LegRecord → ℤ → BarFill → Prop} {events : List PortfolioEvent}
    (h : AtFirstBar P events) {k : ℕ} {r : BarFill} {l : LegRecord} {target : ℤ}
    (hGet : events[k]? = some (.bar r))
    (hLast : lastAbout r.bar.contract (events.take k) = some (.leg l))
    (hTarget : l.target = some target) : P l target r := by
  obtain ⟨hk, hEvent⟩ := List.getElem?_eq_some_iff.mp hGet
  apply h (events.take k) r (events.drop (k + 1)) l target _ hLast hTarget
  rw [← hEvent, ← List.drop_eq_getElem_cons hk, List.take_append_drop]

def steadyLong : CrossSectionalStrategy Unit where
  generateSignals histories memory :=
    match (histories.get? "MES").bind List.getLast? with
    | none => pure (.empty, memory)
    | some bar => do
      let signal ← Signal.create bar.contract bar.ts "steady_long" 1 2 1
      pure (.ofList [("MES", signal)], memory)

def steadyEngine : PortfolioBacktestEngine Unit Unit where
  strategy := steadyLong
  guard := .plain
  risk := .default fun _ _ _ _ _ _ => 1
  slippage := none
  targetPosition := true
  rollEvents := []
  riskParity := false
  volLookback := 60
  sqrt := id

/-- Two streams over three dates; the first has no bar on the second date. -/
def gappedStreams : Dict ContractSymbol (List VerifiedBar) :=
  .ofList [("MES", [dailyBar "MESZ25" .dec10 5000, dailyBar "MESZ25" .dec12 5000]),
    ("MNQ", [dailyBar "MNQZ25" .dec10 20000, dailyBar "MNQZ25" .dec11 20000,
      dailyBar "MNQZ25" .dec12 20000])]

theorem tracks_target_iff_gapped : ∃ result records s',
    steadyEngine.run gappedStreams (.start freshBroker () () gappedStreams) =
        .ok (result, records) s' ∧
      (TracksTarget (trace records) ↔ NothingPending (trace records)) := by
  have hReturns : returns (steadyEngine.run gappedStreams)
      (.start freshBroker () () gappedStreams) (fun _ _ => true) = true := by decide +kernel
  obtain ⟨⟨result, records⟩, s', hRun, -⟩ := exists_ok_of_returns hReturns
  have hIdle : MockBroker.Idle freshBroker := MockBroker.fresh_idle _
  exact ⟨result, records, s', hRun,
    tracks_target_iff rfl rfl hIdle.toConsistent hIdle.marketOnly hRun⟩

/-- Whether the bar at this place of the trace leaves a position other than the target. -/
def missesAt (events : List PortfolioEvent) (k : ℕ) : Bool :=
  match events[k]? with
  | some (.bar r) =>
    match lastAbout r.bar.contract (events.take k) with
    | some (.leg l) => l.target.any fun target => r.after.net r.bar.contract ≠ target
    | _ => false
  | _ => false

theorem not_tracksTarget_of_misses {events : List PortfolioEvent} {k : ℕ}
    (h : missesAt events k = true) : ¬TracksTarget events := by
  intro hTracks
  unfold missesAt at h
  split at h
  · rename_i r hGet
    split at h
    · rename_i l hLast
      cases hTarget : l.target with
      | none => simp [hTarget] at h
      | some target =>
        have hNe : r.after.net r.bar.contract ≠ target := by simpa [hTarget] using h
        exact hNe (AtFirstBar.at_index hTracks hGet hLast hTarget)
    · cases h
  · cases h

/-- The order of the first date is still open on the second; the third date fills both. -/
theorem gap_stacks_orders : ∃ result records s',
    steadyEngine.run gappedStreams (.start freshBroker () () gappedStreams) =
        .ok (result, records) s' ∧
      (∀ equity ∈ result.equityCurve, 0 < equity) ∧ ¬TracksTarget (trace records) := by
  have hReturns : returns (steadyEngine.run gappedStreams)
      (.start freshBroker () () gappedStreams) (fun out _ =>
        (∀ equity ∈ out.1.equityCurve, 0 < equity) ∧ missesAt (trace out.2) 5 = true) = true := by
    decide +kernel
  obtain ⟨⟨result, records⟩, s', hRun, hTest⟩ := exists_ok_of_returns hReturns
  obtain ⟨hEquity, hMisses⟩ := of_decide_eq_true hTest
  exact ⟨result, records, s', hRun, hEquity, not_tracksTarget_of_misses hMisses⟩

end Futur3.Engine
