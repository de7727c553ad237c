import Futur3.Engine.Completion
import Futur3.Stats.BacktestFamilies

/-! # From runs to a promotion decision

A run with a new broker starts its curve at the capital of the account, since nothing is
held at the first bar. Runs over the same bars have curves of one length, so a family of
them is always decided.
-/

namespace Futur3.Engine

open Data Execution Prelude Method Stats

section Start

variable {σ ρ : Type} (e : BacktestEngine σ ρ) (bar : VerifiedBar)

theorem executeRoll_flat (s : LoopState σ ρ) (hFlat : s.broker.getPositions = []) : e.executeRoll bar s = .ok ⟨⟩ s := by
  unfold BacktestEngine.executeRoll
  cases hEvent : e.rollByDate.get? bar.ts.date with
  | none => rfl
  | some event =>
    have hNet : netPosition s.broker.getPositions event.oldContract = 0 := by
      rw [hFlat]
      rfl
    dsimp only
    refine bind_ok_iff.mpr ⟨s, s, rfl, ?_⟩
    rw [if_pos hNet]
    rfl

variable {e bar} {config : BrokerConfig} {guard : ρ} {memory : σ}

/-- Nothing is filled, rolled or booked at the first bar. -/
theorem fillAndRoll_first {filled : List OrderEvent} {advanced : MockBroker} {s : LoopState σ ρ}
    (h : e.fillAndRoll bar (.start (.fresh config) guard memory) = .ok (filled, advanced) s) :
    s.broker = .fresh config := by
  simp only [BacktestEngine.fillAndRoll, bind_ok_iff, get_ok_iff, onBroker_ok_iff, modify_ok_iff] at h
  obtain ⟨es, _, ⟨b, hAdvance, rfl⟩, _, s₁, hs₁, _, _, ⟨rfl, rfl⟩, _, s₂, hRoll, hTrack⟩ := h
  have hIdle : MockBroker.advance bar e.slippage (.fresh config) = .ok [] (.fresh config) := rfl
  cases hIdle.symm.trans hAdvance
  have hSame : s₁.broker = .fresh config := (congrArg LoopState.broker hs₁).symm
  have hNoRoll := executeRoll_flat e bar s₁ (congrArg MockBroker.getPositions hSame)
  cases hNoRoll.symm.trans hRoll
  simp only [ite_ok_iff, bind_ok_iff, modify_ok_iff, pure_ok_iff, Prod.mk.injEq] at hTrack
  rcases hTrack with ⟨-, _, _, rfl, -, rfl⟩ | ⟨-, -, rfl⟩
  · exact hSame
  · exact hSame

/-- The first point is the capital. -/
theorem mark_first {s s' : LoopState σ ρ} {mtm : ℚ} {positions : List Position} (hBroker : s.broker = .fresh config)
    (h : e.mark bar s = .ok (mtm, positions) s') : mtm = config.startingEquity := by
  simp only [BacktestEngine.mark, BacktestEngine.accountEquity, bind_ok_iff, get_ok_iff,
    liftExcept_ok_iff, mapError_ok_iff, modify_ok_iff, pure_ok_iff, Prod.mk.injEq] at h
  obtain ⟨equity, _, ⟨_, _, ⟨rfl, rfl⟩, metrics, _, ⟨hMetrics, rfl⟩, _, _, rfl, rfl, rfl⟩, _, _, ⟨rfl, rfl⟩, _, _,
    ⟨hMtm, rfl⟩, _, _, rfl, ⟨rfl, rfl⟩, rfl⟩ := h
  obtain ⟨metrics', hMetrics', hEquity⟩ := MockBroker.getAccountMetrics_ok (.fresh config)
  rw [hBroker] at hMetrics hMtm
  cases hMetrics.symm.trans hMetrics'
  have hFlat : ∀ lastClose, markToMarket metrics.equity (MockBroker.getPositions (.fresh config)) lastClose =
      .ok (metrics.equity + 0) := fun _ => rfl
  obtain rfl := Except.ok.inj ((hFlat _).symm.trans hMtm)
  rw [add_zero, hEquity]
  simp [MockBroker.currentEquity, MockBroker.fresh, Dict.values, Dict.empty]

theorem processBar_first {i : ℕ} {r : BarRecord} {s' : LoopState σ ρ}
    (h : e.processBar (bar, i) (.start (.fresh config) guard memory) = .ok r s') :
    s'.equityCurve = [config.startingEquity] := by
  simp only [BacktestEngine.processBar, bind_ok_iff, get_ok_iff, pure_ok_iff] at h
  obtain ⟨⟨filled, advanced⟩, s₁, hFill, ⟨mtm, positions⟩, s₂, hMark, outcome, s₃, hAct, _, _, ⟨rfl, rfl⟩, rfl, rfl⟩ :=
    h
  obtain rfl := mark_first (fillAndRoll_first hFill) hMark
  obtain ⟨-, -, -, -, -, hCurve⟩ := mark_ok hMark
  rw [(keeps_act i bar config.startingEquity positions).ok hAct, hCurve, (keeps_fillAndRoll bar).ok hFill]
  rfl

end Start

/-! ## Families -/

def RunOver (bars : List VerifiedBar) (config : BrokerConfig) (result : RunResult) : Prop :=
  ∃ (σ ρ : Type) (e : BacktestEngine σ ρ) (guard : ρ) (memory : σ) (records : List BarRecord) (s' : LoopState σ ρ),
    e.run bars (.start (.fresh config) guard memory) = .ok (result, records) s'

theorem RunOver.curve {bars : List VerifiedBar} {config : BrokerConfig} {result : RunResult}
    (h : RunOver bars config result) (hBars : bars ≠ []) :
    result.equityCurve.length = bars.length ∧ result.equityCurve.head? = some config.startingEquity := by
  obtain ⟨σ, ρ, e, guard, memory, records, s', hRun⟩ := h
  refine ⟨run_curve rfl hRun, ?_⟩
  obtain ⟨bar, rest, rfl⟩ := List.exists_cons_of_ne_nil hBars
  obtain ⟨s₁, hLoop, -, -, -, hCurve⟩ := run_loop hRun
  rw [List.zipIdx_cons, each_cons_ok_iff] at hLoop
  obtain ⟨r, s₂, log, hFirst, hRest, rfl⟩ := hLoop
  obtain ⟨points, hPoints, -⟩ := each_appends (fun _ _ _ _ => processBar_curve) hRest
  rw [hCurve, hPoints, processBar_first hFirst]
  rfl

noncomputable def floatCurves (runs : List RunResult) : List (List ℝ) :=
  runs.map fun run => run.equityCurve.map fun equity : ℚ => (equity : ℝ)

/-- Runs over the same three bars or more are always decided, however they ended. -/
theorem runs_decided {γ : Type} (gen : Generator γ) {bars : List VerifiedBar} (hBars : 3 ≤ bars.length)
    {runs : List RunResult} (hRuns : ∀ run ∈ runs, ∃ config, RunOver bars config run) {selectedIndex : ℤ}
    (hSelected : 0 ≤ selectedIndex ∧ selectedIndex < runs.length) {periodsPerYear : ℝ} (hPositive : 0 < periodsPerYear)
    (superiorityMethod : SuperiorityMethod) {nResamples : ℕ} (hResamples : 1000 ≤ nResamples) (seed : Option ℤ) :
    ∃ decision, evaluateBacktests realStats gen (floatCurves runs) selectedIndex periodsPerYear none superiorityMethod
      nResamples seed = .ok decision := by
  have hNil : bars ≠ [] := List.ne_nil_of_length_pos (three_pos.trans_le hBars)
  have hLength : (floatCurves runs).length = runs.length := List.length_map _
  refine decided_of_comparable realStats_laws hPositive hResamples (hLength.symm ▸ hSelected) hBars ⟨?_, by simp⟩
  intro curve hCurve
  obtain ⟨run, hRun, rfl⟩ := List.mem_map.mp hCurve
  obtain ⟨config, hOver⟩ := hRuns run hRun
  obtain ⟨hCount, hFirst⟩ := hOver.curve hNil
  refine ⟨by rw [List.length_map, hCount], ?_⟩
  have hHead : (run.equityCurve.map fun equity : ℚ => (equity : ℝ)).headD 0 = config.startingEquity := by
    rw [List.headD_eq_head?_getD, List.head?_map, hFirst]
    rfl
  rw [hHead]
  exact_mod_cast config.starting_pos

/-- Long crude over three days, with and without a haircut. -/
theorem runs_decided_crude : ∃ runs, runs.length = 2 ∧ (∀ run ∈ runs, ∃ config, RunOver crudeBars config run) ∧
    ∃ decision, evaluateBacktests realStats counting (floatCurves runs) 1 252 none .spa 1000 (some 7) =
      .ok decision := by
  have hFirst : returns ((crudeEngine none).run crudeBars) (.start freshBroker () ()) (fun _ _ => true) = true := by
    decide +kernel
  have hSecond : returns ((crudeEngine (some .realistic)).run crudeBars) (.start freshBroker () ())
      (fun _ _ => true) = true := by
    decide +kernel
  obtain ⟨⟨run, records⟩, s, hRun, -⟩ := exists_ok_of_returns hFirst
  obtain ⟨⟨run', records'⟩, s', hRun', -⟩ := exists_ok_of_returns hSecond
  have hRuns : ∀ r ∈ [run, run'], ∃ config, RunOver crudeBars config r := by
    simp only [List.forall_mem_cons, List.not_mem_nil, IsEmpty.forall_iff, implies_true, and_true]
    exact ⟨⟨freshBroker.config, _, _, _, (), (), records, s, hRun⟩,
      ⟨freshBroker.config, _, _, _, (), (), records', s', hRun'⟩⟩
  exact ⟨[run, run'], rfl, hRuns, runs_decided counting (le_refl 3) hRuns (by simp)
    (show (0 : ℝ) < 252 by norm_num) .spa (le_refl 1000) (some 7)⟩

end Futur3.Engine
