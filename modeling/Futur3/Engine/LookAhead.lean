import Futur3.Engine.BacktestSpec
import Futur3.Engine.PortfolioTarget
import Futur3.Prelude.LoopTurns
import Futur3.Prelude.StableSort
import Mathlib.Data.List.SplitBy

/-! # No look-ahead

Two inputs that agree up to a date are run alike up to that date: every pass
returns the same record and leaves the same state, with its orders, events,
equity curve and trade ledger, and a run that raises by then raises in both.
-/

namespace Futur3.Engine

open Data Execution Prelude Method Selection

def AgreeUpTo {α : Type} (date : α → Date) (d : Date) (xs ys : List α) : Prop :=
  xs.filter (fun a => date a ≤ d) = ys.filter fun a => date a ≤ d

def barDate (bar : VerifiedBar) : Date := bar.ts.date

/-- A list in the order of its dates is what is dated by a day and what is dated later. -/
theorem filter_append_filter {α : Type} {date : α → Date} {xs : List α}
    (h : xs.Pairwise fun a b => date a ≤ date b) (d : Date) :
    (xs.filter fun a => date a ≤ d) ++ (xs.filter fun a => d < date a) = xs := by
  induction xs with
  | nil => rfl
  | cons a rest ih =>
    obtain ⟨ha, hRest⟩ := List.pairwise_cons.mp h
    rw [List.filter_cons, List.filter_cons]
    by_cases hd : date a ≤ d
    · rw [if_pos (decide_eq_true hd), if_neg (by simpa using hd), List.cons_append, ih hRest]
    · -- all that comes after is later still
      have hLater : ∀ b ∈ rest, d < date b := fun b hb => (not_le.mp hd).trans_le (ha b hb)
      rw [if_neg (by simpa using hd), if_pos (by simpa using hd),
        List.filter_eq_nil_iff.mpr fun b hb => by simpa using hLater b hb,
        List.filter_eq_self.mpr fun b hb => by simpa using hLater b hb]
      rfl

theorem AgreeUpTo.append {α : Type} {date : α → Date} {d : Date} {xs ys later later' : List α}
    (h : AgreeUpTo date d xs ys) (hLater : ∀ a ∈ later, d < date a)
    (hLater' : ∀ a ∈ later', d < date a) : AgreeUpTo date d (xs ++ later) (ys ++ later') := by
  have hNone : ∀ later : List α, (∀ a ∈ later, d < date a) →
      later.filter (fun a => date a ≤ d) = [] := by
    intro later hLater
    apply List.filter_eq_nil_iff.mpr
    intro a ha
    simpa using hLater a ha
  unfold AgreeUpTo at h ⊢
  rw [List.filter_append, List.filter_append, h, hNone later hLater, hNone later' hLater']

section Rolls

variable {d day : Date} {events events' : List RollEvent}

theorem AgreeUpTo.onDay (h : AgreeUpTo RollEvent.rollDate d events events') (hDay : day ≤ d) :
    (events.filter fun event => event.rollDate = day) =
      events'.filter fun event => event.rollDate = day := by
  have hOn : ∀ events : List RollEvent, (events.filter fun event => event.rollDate = day) =
      (events.filter fun event => event.rollDate ≤ d).filter fun event => event.rollDate = day := by
    intro events
    rw [List.filter_filter]
    apply List.filter_congr
    intro event _
    rw [← Bool.decide_and, decide_eq_decide]
    constructor
    · intro hRoll
      exact ⟨hRoll, hRoll.trans_le hDay⟩
    · exact fun hRoll => hRoll.1
  rw [hOn events, h, ← hOn]

theorem AgreeUpTo.lookup (h : AgreeUpTo RollEvent.rollDate d events events') (hDay : day ≤ d) :
    (Dict.ofList (events.map fun event => (event.rollDate, event))).get? day =
      (Dict.ofList (events'.map fun event => (event.rollDate, event))).get? day := by
  have hOn : ∀ events : List RollEvent,
      Dict.lookup day (events.map fun event => (event.rollDate, event)).reverse =
        Dict.lookup day ((events.filter fun event => event.rollDate = day).map
          fun event => (event.rollDate, event)).reverse := by
    intro events
    have hFilter : ((events.map fun event => (event.rollDate, event)).filter fun p => p.1 = day) =
        (events.filter fun event => event.rollDate = day).map
          fun event => (event.rollDate, event) := by
      rw [List.filter_map]
      rfl
    have hDay : decide (day = day) = true := decide_eq_true rfl
    rw [← hFilter, ← List.filter_reverse]
    exact (Dict.lookup_filter (p := fun k => decide (k = day)) hDay _).symm
  rw [Dict.get?_ofList, Dict.get?_ofList, hOn events, hOn events', h.onDay hDay]

end Rolls

/-! ## Runs that return -/

/-- If both runs return, the first of their records and the first points of their curves agree. -/
def BeginAlike {ε σ σ' β : Type} (n : ℕ) (r : EStateM.Result ε σ (RunResult × List β))
    (r' : EStateM.Result ε σ' (RunResult × List β)) : Prop :=
  ∀ result records s result' records' s', r = .ok (result, records) s →
    r' = .ok (result', records') s' →
    records.take n = records'.take n ∧ result.equityCurve.take n = result'.equityCurve.take n

/-- Two loops that have their first items and the turns over them in common. -/
theorem each_take_eq {ε σ ι β γ : Type} {f g : ι → Method ε σ β} {part : σ → List γ}
    {common later later' : List ι} {s t t' : σ} {as as' : List β} (hStart : part s = [])
    (hf : ∀ i s a s', f i s = .ok a s' → ∃ c, part s' = part s ++ [c])
    (hg : ∀ i s a s', g i s = .ok a s' → ∃ c, part s' = part s ++ [c])
    (hCommon : ∀ i ∈ common, f i = g i) (h : each f (common ++ later) s = .ok as t)
    (h' : each g (common ++ later') s = .ok as' t') :
    as.take common.length = as'.take common.length ∧
      (part t).take common.length = (part t').take common.length := by
  obtain ⟨first, mid, rest, hFirst, hRest, rfl⟩ := each_append_ok h
  obtain ⟨first', mid', rest', hFirst', hRest', rfl⟩ := each_append_ok h'
  rw [← each_congr hCommon, hFirst] at hFirst'
  cases hFirst'
  obtain ⟨points, hPoints, hLength⟩ := each_appends hf hFirst
  obtain ⟨added, hAdded, -⟩ := each_appends hf hRest
  obtain ⟨added', hAdded', -⟩ := each_appends hg hRest'
  rw [hStart, List.nil_append] at hPoints
  constructor
  · rw [← length_of_each hFirst, List.take_left, List.take_left]
  · rw [hAdded, hAdded', hPoints, ← hLength, List.take_left, List.take_left]

/-! ## The backtest -/

namespace BacktestEngine

variable {σ ρ : Type}

def withRolls (e : BacktestEngine σ ρ) (events : List RollEvent) : BacktestEngine σ ρ :=
  { e with rollEvents := events }

def through (e : BacktestEngine σ ρ) (d : Date) (bars : List VerifiedBar) (s : LoopState σ ρ) :
    Turns (VerifiedBar × ℕ) RunFailure (LoopState σ ρ) BarRecord :=
  (turns e.processBar bars.zipIdx s).upTo fun step => barDate step.1 ≤ d

theorem processBar_withRolls {e : BacktestEngine σ ρ} {events : List RollEvent}
    {step : VerifiedBar × ℕ}
    (h : e.rollByDate.get? step.1.ts.date = (e.withRolls events).rollByDate.get? step.1.ts.date) :
    e.processBar step = (e.withRolls events).processBar step := by
  have hRoll : e.executeRoll step.1 = (e.withRolls events).executeRoll step.1 := by
    unfold executeRoll
    rw [h]
  have hFill : e.fillAndRoll step.1 = (e.withRolls events).fillAndRoll step.1 := by
    unfold fillAndRoll
    rw [hRoll]
    rfl
  unfold processBar
  rw [hFill]
  rfl

theorem through_eq {e : BacktestEngine σ ρ} {d : Date} {bars : List VerifiedBar}
    (hOrdered : bars.Pairwise fun a b => barDate a ≤ barDate b) (s : LoopState σ ρ) :
    e.through d bars s =
      turns e.processBar (bars.filter fun bar => barDate bar ≤ d).zipIdx s := by
  unfold through
  conv_lhs => rw [← filter_append_filter hOrdered d, List.zipIdx_append]
  apply upTo_append
  · intro step hStep
    have hMem := (List.mem_filter.mp (List.fst_mem_of_mem_zipIdx hStep)).2
    exact hMem
  · intro step hStep
    have hMem := (List.mem_filter.mp (List.fst_mem_of_mem_zipIdx hStep)).2
    simpa using hMem

theorem processBar_common {e : BacktestEngine σ ρ} {events : List RollEvent} {d : Date}
    (hRolls : AgreeUpTo RollEvent.rollDate d e.rollEvents events) (bars : List VerifiedBar) :
    ∀ step ∈ (bars.filter fun bar => barDate bar ≤ d).zipIdx,
      e.processBar step = (e.withRolls events).processBar step := by
  intro step hStep
  apply processBar_withRolls
  have hDay := (List.mem_filter.mp (List.fst_mem_of_mem_zipIdx hStep)).2
  exact hRolls.lookup (of_decide_eq_true hDay)

theorem through_congr {e : BacktestEngine σ ρ} {events : List RollEvent} {d : Date}
    {bars bars' : List VerifiedBar} (hRolls : AgreeUpTo RollEvent.rollDate d e.rollEvents events)
    (hOrdered : bars.Pairwise fun a b => barDate a ≤ barDate b)
    (hOrdered' : bars'.Pairwise fun a b => barDate a ≤ barDate b)
    (hBars : AgreeUpTo barDate d bars bars') (s : LoopState σ ρ) :
    e.through d bars s = (e.withRolls events).through d bars' s := by
  rw [through_eq hOrdered, through_eq hOrdered', ← hBars]
  exact turns_congr (processBar_common hRolls bars) s

theorem run_curve {e : BacktestEngine σ ρ} {bars : List VerifiedBar} {s s' : LoopState σ ρ}
    {result : RunResult} {records : List BarRecord} (h : e.run bars s = .ok (result, records) s') :
    ∃ t, each e.processBar bars.zipIdx s = .ok records t ∧ result.equityCurve = t.equityCurve := by
  obtain ⟨t, hLoop, -, -, -, hCurve⟩ := run_loop h
  exact ⟨t, hLoop, hCurve⟩

theorem run_beginAlike {e : BacktestEngine σ ρ} {events : List RollEvent} {d : Date}
    {bars bars' : List VerifiedBar} (hRolls : AgreeUpTo RollEvent.rollDate d e.rollEvents events)
    (hOrdered : bars.Pairwise fun a b => barDate a ≤ barDate b)
    (hOrdered' : bars'.Pairwise fun a b => barDate a ≤ barDate b)
    (hBars : AgreeUpTo barDate d bars bars') {s : LoopState σ ρ} (hStart : s.equityCurve = []) :
    BeginAlike (bars.filter fun bar => barDate bar ≤ d).length (e.run bars s)
      ((e.withRolls events).run bars' s) := by
  intro result records t result' records' t' hRun hRun'
  obtain ⟨u, hLoop, hCurve⟩ := run_curve hRun
  obtain ⟨u', hLoop', hCurve'⟩ := run_curve hRun'
  rw [← filter_append_filter hOrdered d, List.zipIdx_append] at hLoop
  rw [← filter_append_filter hOrdered' d, List.zipIdx_append, ← hBars] at hLoop'
  have hCommon := each_take_eq hStart (fun _ _ _ _ h => processBar_curve h)
    (fun _ _ _ _ h => processBar_curve h) (processBar_common hRolls bars) hLoop hLoop'
  rw [hCurve, hCurve']
  rwa [List.length_zipIdx] at hCommon

end BacktestEngine

/-! ## The date axis of a portfolio -/

structure StreamsAgreeUpTo (d : Date) (histories histories' : Dict ContractSymbol (List VerifiedBar)) :
    Prop where
  keys : histories.keys = histories'.keys
  bars : ∀ key bars bars', histories.get? key = some bars → histories'.get? key = some bars' →
    AgreeUpTo barDate d bars bars'

def streamDate (p : StreamBar) : Date := barDate p.2

theorem pairwise_indexed (histories : Dict ContractSymbol (List VerifiedBar)) :
    (indexed histories).Pairwise fun p q => streamDate p ≤ streamDate q := by
  have hSorted := pairwise_sortBy (fun p : StreamBar => toLex (p.2.ts.date, p.1))
    (histories.items.flatMap fun p => p.2.map fun bar => (p.1, bar))
  apply hSorted.imp
  intro p q h
  rcases Prod.Lex.le_iff.mp h with hLt | ⟨hEq, -⟩
  · exact hLt.le
  · exact hEq.le

theorem filter_indexed (histories : Dict ContractSymbol (List VerifiedBar)) (d : Date) :
    (indexed histories).filter (fun p => streamDate p ≤ d) =
      sortBy (fun p : StreamBar => toLex (p.2.ts.date, p.1))
        (histories.items.flatMap fun p =>
          (p.2.filter fun bar => barDate bar ≤ d).map fun bar => (p.1, bar)) := by
  unfold indexed
  rw [sortBy_filter, List.filter_flatMap]
  congr 2
  funext p
  rw [List.filter_map]
  rfl

theorem StreamsAgreeUpTo.filter_indexed {d : Date}
    {histories histories' : Dict ContractSymbol (List VerifiedBar)}
    (h : StreamsAgreeUpTo d histories histories') :
    (indexed histories).filter (fun p => streamDate p ≤ d) =
      (indexed histories').filter fun p => streamDate p ≤ d := by
  have hItems : ∀ histories : Dict ContractSymbol (List VerifiedBar),
      (histories.items.flatMap fun p =>
        (p.2.filter fun bar => barDate bar ≤ d).map fun bar => (p.1, bar)) =
      histories.keys.flatMap fun key =>
        (((histories.get? key).getD []).filter fun bar => barDate bar ≤ d).map
          fun bar => (key, bar) := by
    intro histories
    unfold Dict.keys
    rw [List.flatMap_map]
    apply List.flatMap_congr
    intro p hp
    rw [(histories.mem_items_iff p.1 p.2).mp hp, Option.getD_some]
  rw [Engine.filter_indexed, Engine.filter_indexed, hItems, hItems, h.keys]
  congr 1
  apply List.flatMap_congr
  intro key hKey
  obtain ⟨bars', hBars'⟩ := (Dict.mem_keys_iff histories' key).mp hKey
  rw [← h.keys] at hKey
  obtain ⟨bars, hBars⟩ := (Dict.mem_keys_iff histories key).mp hKey
  have hAgree : (bars.filter fun bar => barDate bar ≤ d) =
      bars'.filter fun bar => barDate bar ≤ d := h.bars key bars bars' hBars hBars'
  rw [hBars, hBars', Option.getD_some, Option.getD_some, hAgree]

theorem byDate_append {xs ys : List StreamBar}
    (h : ∀ p ∈ xs, ∀ q ∈ ys, streamDate p ≠ streamDate q) :
    byDate (xs ++ ys) = byDate xs ++ byDate ys := by
  unfold byDate
  rw [List.splitBy_append, List.filterMap_append]
  intro p hp q hq
  exact decide_eq_false (h p (List.mem_of_getLast? hp) q (List.mem_of_mem_head? hq))

theorem mem_byDate {bars : List StreamBar} {group : Date × List StreamBar}
    (h : group ∈ byDate bars) : ∃ p ∈ bars, streamDate p = group.1 := by
  obtain ⟨part, hPart, hGroup⟩ := List.mem_filterMap.mp h
  obtain ⟨p, hHead, rfl⟩ := Option.map_eq_some_iff.mp hGroup
  refine ⟨p, ?_, rfl⟩
  rw [← List.flatten_splitBy (fun p q : StreamBar => p.2.ts.date = q.2.ts.date) bars]
  exact List.mem_flatten.mpr ⟨part, hPart, List.mem_of_mem_head? hHead⟩

/-! ## The portfolio backtest -/

namespace PortfolioBacktestEngine

variable {σ ρ : Type}

def withRolls (e : PortfolioBacktestEngine σ ρ) (events : List RollEvent) :
    PortfolioBacktestEngine σ ρ :=
  { e with rollEvents := events }

def through (e : PortfolioBacktestEngine σ ρ) (d : Date)
    (histories : Dict ContractSymbol (List VerifiedBar)) (s : PortfolioState σ ρ) :
    Turns (Date × List StreamBar) PortfolioFailure (PortfolioState σ ρ) DateRecord :=
  (turns e.processDate (byDate (indexed histories)) s).upTo fun group => group.1 ≤ d

theorem processDate_withRolls {e : PortfolioBacktestEngine σ ρ} {events : List RollEvent}
    {group : Date × List StreamBar} (h : e.rollsOn group.1 = (e.withRolls events).rollsOn group.1) :
    e.processDate group = (e.withRolls events).processDate group := by
  unfold processDate
  rw [h]
  rfl

theorem processDate_common {e : PortfolioBacktestEngine σ ρ} {events : List RollEvent} {d : Date}
    (hRolls : AgreeUpTo RollEvent.rollDate d e.rollEvents events) (bars : List StreamBar) :
    ∀ group ∈ byDate (bars.filter fun p => streamDate p ≤ d),
      e.processDate group = (e.withRolls events).processDate group := by
  intro group hGroup
  apply processDate_withRolls
  obtain ⟨p, hp, hDate⟩ := mem_byDate hGroup
  have hDay := of_decide_eq_true (List.mem_filter.mp hp).2
  exact hRolls.onDay (hDate ▸ hDay)

/-- The dates by a day, and the later ones. -/
theorem byDate_indexed (histories : Dict ContractSymbol (List VerifiedBar)) (d : Date) :
    byDate (indexed histories) =
      byDate ((indexed histories).filter fun p => streamDate p ≤ d) ++
        byDate ((indexed histories).filter fun p => d < streamDate p) := by
  rw [← byDate_append, filter_append_filter (pairwise_indexed histories) d]
  intro p hp q hq
  have hp := of_decide_eq_true (List.mem_filter.mp hp).2
  have hq := of_decide_eq_true (List.mem_filter.mp hq).2
  exact (hp.trans_lt hq).ne

theorem through_eq (e : PortfolioBacktestEngine σ ρ) (d : Date)
    (histories : Dict ContractSymbol (List VerifiedBar)) (s : PortfolioState σ ρ) :
    e.through d histories s =
      turns e.processDate (byDate ((indexed histories).filter fun p => streamDate p ≤ d)) s := by
  unfold through
  rw [byDate_indexed histories d]
  apply upTo_append
  · intro group hGroup
    obtain ⟨p, hp, hDate⟩ := mem_byDate hGroup
    rw [← hDate]
    exact (List.mem_filter.mp hp).2
  · intro group hGroup
    obtain ⟨p, hp, hDate⟩ := mem_byDate hGroup
    have hLater := of_decide_eq_true (List.mem_filter.mp hp).2
    rw [← hDate]
    exact decide_eq_false (not_le.mpr hLater)

theorem through_congr {e : PortfolioBacktestEngine σ ρ} {events : List RollEvent} {d : Date}
    {histories histories' : Dict ContractSymbol (List VerifiedBar)}
    (hRolls : AgreeUpTo RollEvent.rollDate d e.rollEvents events)
    (hStreams : StreamsAgreeUpTo d histories histories') (s : PortfolioState σ ρ) :
    e.through d histories s = (e.withRolls events).through d histories' s := by
  rw [through_eq, through_eq, ← hStreams.filter_indexed]
  exact turns_congr (processDate_common hRolls _) s

/-! ### The equity curve -/

section Curve

variable {e : PortfolioBacktestEngine σ ρ}

theorem keeps_onBroker {α : Type} (x : BrokerM α) :
    Keeps PortfolioState.equityCurve (onBroker x : PortfolioM σ ρ α) := by
  intro s
  unfold onBroker
  cases x s.broker <;> rfl

theorem keeps_takeBar (p : StreamBar) : Keeps PortfolioState.equityCurve (e.takeBar p) := by
  apply keeps_bind (keeps_onBroker _)
  intro filled
  apply keeps_bind (keeps_modify (by intro _; rfl))
  intro _
  exact keeps_bind keeps_get fun s => keeps_pure _

theorem keeps_executeRoll (event : RollEvent) :
    Keeps PortfolioState.equityCurve (executeRoll event : PortfolioM σ ρ PUnit) := by
  apply keeps_bind (keeps_onBroker _)
  intro rolled
  apply keeps_ite (keeps_pure _)
  apply keeps_bind (keeps_liftExcept _)
  intro mult
  exact keeps_modify fun _ => rfl

theorem keeps_checked {α : Type} (contract : ContractSymbol) (side : Side) (quantity : ℤ)
    (tag : String) (refused : α) (placed : BrokerOrderId → α) :
    Keeps PortfolioState.equityCurve (do
      let block ← e.isTradeAllowed contract side quantity
      if block ≠ none then pure refused
      else
        let id ← placeMarket contract side quantity tag
        pure (placed id)) := by
  have hAllowed : Keeps PortfolioState.equityCurve (e.isTradeAllowed contract side quantity) :=
    fun _ => rfl
  apply keeps_bind hAllowed
  intro block
  apply keeps_ite (keeps_pure _)
  refine keeps_bind ?_ fun id => keeps_pure _
  apply keeps_bind (keeps_liftExcept _)
  intro order
  apply keeps_bind (keeps_onBroker _)
  intro id
  exact keeps_bind (keeps_modify fun _ => rfl) fun _ => keeps_pure _

theorem keeps_placeLeg (positions : List Position) (lastClose : Dict ContractSymbol ℚ) (mtm : ℚ)
    (weights : Option (Dict ContractSymbol ℚ)) (leg : ContractSymbol × Signal) :
    Keeps PortfolioState.equityCurve (e.placeLeg positions lastClose mtm weights leg) := by
  unfold placeLeg
  cases lastClose.get? leg.2.contract with
  | none => exact keeps_pure _
  | some price =>
    apply keeps_ite
    · refine keeps_ite ?_ (keeps_pure _)
      unfold flatten
      exact keeps_ite (keeps_pure _) (keeps_checked _ _ _ _ LegOutcome.flatBlocked LegOutcome.flattened)
    · apply keeps_bind (keeps_liftExcept _)
      intro decision
      apply keeps_ite (keeps_pure _)
      cases e.resolveOrder decision leg.2 positions leg.2.contract with
      | none => exact keeps_pure _
      | some resolved =>
        exact keeps_checked _ _ _ _ (LegOutcome.blocked decision) (LegOutcome.ordered decision)

theorem keeps_decide (mtm : ℚ) (positions : List Position) :
    Keeps PortfolioState.equityCurve (e.decide mtm positions) := by
  unfold decide
  apply keeps_ite (keeps_pure _)
  apply keeps_bind keeps_get
  intro s
  apply keeps_bind (keeps_liftExcept _)
  rintro ⟨signals, memory⟩
  apply keeps_bind (keeps_modify (by intro _; rfl))
  intro _
  apply keeps_ite (keeps_pure _)
  apply keeps_bind (keeps_modify (by intro _; rfl))
  intro _
  apply keeps_bind (keeps_liftExcept _)
  intro weights
  apply keeps_each
  intro leg
  apply keeps_bind keeps_get
  intro t
  apply keeps_bind (keeps_placeLeg positions s.lastClose mtm weights leg)
  intro outcome
  exact keeps_bind keeps_get fun _ => keeps_pure _

theorem processDate_curve {group : Date × List StreamBar} {s s' : PortfolioState σ ρ}
    {r : DateRecord} (h : e.processDate group s = .ok r s') :
    ∃ mtm, s'.equityCurve = s.equityCurve ++ [mtm] := by
  simp only [processDate, bind_ok_iff, get_ok_iff, pure_ok_iff] at h
  obtain ⟨bars, s₁, hBars, _, s₂, hRolls, ⟨mtm, positions⟩, s₃, hMark, _, _, ⟨rfl, rfl⟩, ls, s₄,
    hDecide, rfl, rfl⟩ := h
  obtain ⟨-, -, hCurve⟩ := mark_ok hMark
  refine ⟨mtm, ?_⟩
  rw [(keeps_decide mtm positions).ok hDecide, hCurve,
    (keeps_each keeps_executeRoll (e.rollsOn group.1)).ok hRolls,
    (keeps_each keeps_takeBar group.2).ok hBars]

end Curve

theorem run_curve {e : PortfolioBacktestEngine σ ρ}
    {histories : Dict ContractSymbol (List VerifiedBar)} {s s' : PortfolioState σ ρ}
    {result : RunResult} {records : List DateRecord}
    (h : e.run histories s = .ok (result, records) s') :
    ∃ t, each e.processDate (byDate (indexed histories)) s = .ok records t ∧
      result.equityCurve = t.equityCurve := by
  simp only [run, accountEquity, bind_ok_iff, get_ok_iff, liftExcept_ok_iff, modify_ok_iff,
    pure_ok_iff, Prod.mk.injEq] at h
  obtain ⟨_, t, hLoop, _, _, ⟨_, _, ⟨rfl, rfl⟩, metrics, _, ⟨-, rfl⟩, _, _, rfl, rfl, rfl⟩, _, _,
    ⟨rfl, rfl⟩, ⟨rfl, rfl⟩, rfl⟩ := h
  exact ⟨t, hLoop, rfl⟩

theorem run_beginAlike {e : PortfolioBacktestEngine σ ρ} {events : List RollEvent} {d : Date}
    {histories histories' : Dict ContractSymbol (List VerifiedBar)}
    (hRolls : AgreeUpTo RollEvent.rollDate d e.rollEvents events)
    (hStreams : StreamsAgreeUpTo d histories histories') {s : PortfolioState σ ρ}
    (hStart : s.equityCurve = []) :
    BeginAlike (byDate ((indexed histories).filter fun p => streamDate p ≤ d)).length
      (e.run histories s) ((e.withRolls events).run histories' s) := by
  intro result records t result' records' t' hRun hRun'
  obtain ⟨u, hLoop, hCurve⟩ := run_curve hRun
  obtain ⟨u', hLoop', hCurve'⟩ := run_curve hRun'
  rw [byDate_indexed histories d] at hLoop
  rw [byDate_indexed histories' d, ← hStreams.filter_indexed] at hLoop'
  rw [hCurve, hCurve']
  exact each_take_eq hStart (fun _ _ _ _ h => processDate_curve h)
    (fun _ _ _ _ h => processDate_curve h) (processDate_common hRolls _) hLoop hLoop'

end PortfolioBacktestEngine

theorem StreamsAgreeUpTo.start {σ ρ : Type} {d : Date}
    {histories histories' : Dict ContractSymbol (List VerifiedBar)}
    (h : StreamsAgreeUpTo d histories histories') (broker : MockBroker) (guard : ρ) (memory : σ) :
    PortfolioState.start broker guard memory histories' = .start broker guard memory histories := by
  unfold PortfolioState.start
  rw [h.keys]

/-- Inputs that agree up to a date are run alike up to it, whatever comes later: the same records
and states pass by pass, a failure by then in both, and results that begin with the same points. -/
theorem look_ahead_free {σ ρ : Type} (d : Date) (broker : MockBroker) (guard : ρ) (memory : σ) :
    (∀ (e : BacktestEngine σ ρ) (events : List RollEvent) (bars bars' : List VerifiedBar),
      AgreeUpTo RollEvent.rollDate d e.rollEvents events →
      (bars.Pairwise fun a b => barDate a ≤ barDate b) →
      (bars'.Pairwise fun a b => barDate a ≤ barDate b) → AgreeUpTo barDate d bars bars' →
      e.through d bars (.start broker guard memory) =
          (e.withRolls events).through d bars' (.start broker guard memory) ∧
        BeginAlike (bars.filter fun bar => barDate bar ≤ d).length
          (e.run bars (.start broker guard memory))
          ((e.withRolls events).run bars' (.start broker guard memory))) ∧
    ∀ (e : PortfolioBacktestEngine σ ρ) (events : List RollEvent)
      (histories histories' : Dict ContractSymbol (List VerifiedBar)),
      AgreeUpTo RollEvent.rollDate d e.rollEvents events →
      StreamsAgreeUpTo d histories histories' →
      e.through d histories (.start broker guard memory histories) =
          (e.withRolls events).through d histories' (.start broker guard memory histories') ∧
        BeginAlike (byDate ((indexed histories).filter fun p => streamDate p ≤ d)).length
          (e.run histories (.start broker guard memory histories))
          ((e.withRolls events).run histories' (.start broker guard memory histories')) := by
  constructor
  · intro e events bars bars' hRolls hOrdered hOrdered' hBars
    constructor
    · exact BacktestEngine.through_congr hRolls hOrdered hOrdered' hBars _
    · exact BacktestEngine.run_beginAlike hRolls hOrdered hOrdered' hBars rfl
  · intro e events histories histories' hRolls hStreams
    rw [hStreams.start]
    constructor
    · exact PortfolioBacktestEngine.through_congr hRolls hStreams _
    · exact PortfolioBacktestEngine.run_beginAlike hRolls hStreams rfl

/-! ## Two futures of one market -/

def thirdDayAt (price : ℚ) : List VerifiedBar :=
  [dailyBar "MESZ25" .dec10 5000, dailyBar "MESZ25" .dec11 5000,
    dailyBar "MESZ25" .dec12 price]

def thirdDayStreams (price : ℚ) : Dict ContractSymbol (List VerifiedBar) :=
  .ofList [("MES", thirdDayAt price),
    ("MNQ", [dailyBar "MNQZ25" .dec10 20000, dailyBar "MNQZ25" .dec12 price])]

theorem look_ahead_free_sample :
    (scriptedEngine true []).through (.of 2025 12 11) (thirdDayAt 5100)
        (.start freshBroker () [(1, 20)]) =
      ((scriptedEngine true []).withRolls []).through (.of 2025 12 11) (thirdDayAt 4000)
        (.start freshBroker () [(1, 20)]) ∧
    steadyEngine.through (.of 2025 12 11) (thirdDayStreams 5100)
        (.start freshBroker () () (thirdDayStreams 5100)) =
      (steadyEngine.withRolls []).through (.of 2025 12 11) (thirdDayStreams 4000)
        (.start freshBroker () () (thirdDayStreams 4000)) := by
  have hOrdered : ∀ price, (thirdDayAt price).Pairwise fun a b => barDate a ≤ barDate b := by
    intro price
    have hDates : (thirdDayAt price).map barDate =
        [.of 2025 12 10, .of 2025 12 11, .of 2025 12 12] := rfl
    rw [← @List.pairwise_map _ _ barDate (· ≤ ·), hDates]
    decide +kernel
  have hThird : ∀ contract price, ∀ bar ∈ [dailyBar contract (.of 2025 12 12) price],
      Date.of 2025 12 11 < barDate bar := by
    intro contract price bar hBar
    obtain rfl := List.mem_singleton.mp hBar
    have hDay : Date.of 2025 12 11 < Date.of 2025 12 12 := by decide +kernel
    exact hDay
  have hBars : AgreeUpTo barDate (.of 2025 12 11) (thirdDayAt 5100) (thirdDayAt 4000) :=
    @AgreeUpTo.append _ _ _ [_, _] [_, _] _ _ rfl (hThird _ _) (hThird _ _)
  have hStreams : StreamsAgreeUpTo (.of 2025 12 11) (thirdDayStreams 5100) (thirdDayStreams 4000) := by
    refine ⟨rfl, ?_⟩
    intro key bars bars' h h'
    have hItems : ∀ price, (thirdDayStreams price).items = [("MES", thirdDayAt price),
        ("MNQ", [dailyBar "MNQZ25" (.of 2025 12 10) 20000, dailyBar "MNQZ25" (.of 2025 12 12) price])] :=
      fun _ => rfl
    rw [← Dict.mem_items_iff, hItems] at h h'
    simp only [List.mem_cons, Prod.mk.injEq, List.not_mem_nil, or_false] at h h'
    rcases h with ⟨rfl, rfl⟩ | ⟨rfl, rfl⟩
    · rcases h' with ⟨-, rfl⟩ | ⟨hKey, -⟩
      · exact hBars
      · exact absurd hKey (by decide)
    · rcases h' with ⟨hKey, -⟩ | ⟨-, rfl⟩
      · exact absurd hKey (by decide)
      · exact @AgreeUpTo.append _ _ _ [_] [_] _ _ rfl (hThird _ _) (hThird _ _)
  constructor
  · exact ((look_ahead_free (.of 2025 12 11) freshBroker () [(1, 20)]).1 (scriptedEngine true []) []
      (thirdDayAt 5100) (thirdDayAt 4000) rfl (hOrdered 5100) (hOrdered 4000) hBars).1
  · exact ((look_ahead_free (.of 2025 12 11) freshBroker () ()).2 steadyEngine []
      (thirdDayStreams 5100) (thirdDayStreams 4000) rfl hStreams).1

end Futur3.Engine
