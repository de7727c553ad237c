import Futur3.Data.ContinuousSpec
import Futur3.Engine.BacktestSpec

/-! # Rolling with the stream

The engine rolls on the exact date of an event. When every change of contract in the
stream falls on its event's date, nothing is held outside the contract of the bar just
processed. The builder's series are such streams exactly when each next contract trades
on the roll target of the one before.
-/

namespace Futur3.Engine

open Data Execution Prelude Method ContinuousSeriesBuilder
open MockBroker (Consistent Idle)

variable {σ ρ : Type}

/-- The events of a stream name its changes of contract by date, and no others. -/
structure FollowsRolls (bars : List VerifiedBar) (events : List RollEvent) : Prop where
  own : ∀ bar ∈ bars, ∀ event ∈ events, event.rollDate = bar.ts.date →
    event.oldContract ≠ bar.contract
  change : bars.IsChain fun prev bar => bar.contract ≠ prev.contract →
    (∃ event ∈ events, event.rollDate = bar.ts.date) ∧
      ∀ event ∈ events, event.rollDate = bar.ts.date →
        event.oldContract = prev.contract ∧ event.newContract = bar.contract

/-- Nothing is held outside the contract of the bar just processed. -/
def HeldInStream (bars : List VerifiedBar) (records : List BarRecord) : Prop :=
  ∀ (k : ℕ) bar r, bars[k]? = some bar → records[k]? = some r →
    ∀ c, c ≠ bar.contract → r.processed.net c = 0

/-! ## The engine on such a stream -/

def OnlyLast (bars : List VerifiedBar) (b : MockBroker) : Prop :=
  ∀ c, (∀ last ∈ bars.getLast?, c ≠ last.contract) → b.net c = 0

theorem BarStep.net_processed {e : BacktestEngine σ ρ} {bar : VerifiedBar} {s s' : LoopState σ ρ}
    {r : BarRecord} (h : BarStep e bar s s' r) :
    ∃ b, RollStep e bar r.advanced b ∧ ∀ c, r.processed.net c = b.net c := by
  obtain ⟨b, hRoll, hActed⟩ := h.acted
  refine ⟨b, hRoll, fun c => ?_⟩
  rcases hActed.placed_cases with ⟨-, hSame⟩ | ⟨_, _, _, _, -, ⟨order, -, -, -, -, hPlaced⟩, -⟩
  · rw [hSame]
  · rw [MockBroker.net, MockBroker.net, hPlaced.positions]

/-- Where the stream changes contract there are events of the date, and each rolls the one contract
into the other. -/
theorem FollowsRolls.event_of_change {e : BacktestEngine σ ρ} {bar last : VerifiedBar}
    {done rest : List VerifiedBar} (h : FollowsRolls (done ++ bar :: rest) e.rollEvents)
    (hLast : last ∈ done.getLast?) (hChange : bar.contract ≠ last.contract) :
    (∃ event, e.rollByDate.get? bar.ts.date = some event) ∧
      ∀ event, e.rollByDate.get? bar.ts.date = some event →
        event.oldContract = last.contract ∧ event.newContract = bar.contract := by
  obtain ⟨front, rfl⟩ := List.getLast?_eq_some_iff.mp hLast
  have hStep := h.change
  rw [List.append_assoc, List.singleton_append, List.isChain_append_cons_cons] at hStep
  obtain ⟨⟨event₀, hMem₀, hDate₀⟩, hAll⟩ := hStep.2.1 hChange
  constructor
  · rw [← hDate₀]
    exact Dict.exists_get?_ofList (List.mem_map.mpr ⟨event₀, hMem₀, rfl⟩)
  · intro event hEvent
    obtain ⟨hMem, hDate⟩ := BacktestEngine.mem_rollEvents hEvent
    exact hAll event hMem hDate

/-- One pass moves whatever is held into the contract of its bar. -/
theorem BarStep.onlyLast {e : BacktestEngine σ ρ} {bar : VerifiedBar} {s s' : LoopState σ ρ}
    {r : BarRecord} {done rest : List VerifiedBar} (h : BarStep e bar s s' r)
    (hFollows : FollowsRolls (done ++ bar :: rest) e.rollEvents) (hConsistent : Consistent s.broker)
    (hOnly : OnlyLast done s.broker) {c : ContractSymbol} (hc : c ≠ bar.contract) :
    r.processed.net c = 0 := by
  obtain ⟨b, hRoll, hNet⟩ := h.net_processed
  rw [hNet, hRoll.net (h.advanced.consistent hConsistent)]
  have hBefore : ∀ c', c' ≠ bar.contract → r.advanced.net c' = s.broker.net c' :=
    h.advanced.net_other
  have hOwn := hFollows.own bar (by simp)
  -- what an event of this date leaves is not the bar's contract
  have hOld : ∀ event, e.rollByDate.get? bar.ts.date = some event →
      event.oldContract ≠ bar.contract := fun event hEvent =>
    hOwn event (BacktestEngine.mem_rollEvents hEvent).1 (BacktestEngine.mem_rollEvents hEvent).2
  by_cases hLast : ∀ last ∈ done.getLast?, c ≠ last.contract
  · -- nothing was held in `c`; the event could only move into it what was held in the last contract
    have hZero : r.advanced.net c = 0 := (hBefore c hc).trans (hOnly c hLast)
    cases hEvent : e.rollByDate.get? bar.ts.date with
    | none => simpa [hEvent] using hZero
    | some event =>
      rw [Option.elim_some, hZero]
      by_cases hNew : c = event.newContract
      · have hFlat : r.advanced.net event.oldContract = 0 := by
          rw [hBefore _ (hOld event hEvent)]
          refine hOnly _ fun last hMem hSame => ?_
          have hChange : bar.contract ≠ last.contract := fun he => hOld event hEvent (hSame.trans he.symm)
          exact hc (hNew.trans ((hFollows.event_of_change hMem hChange).2 event hEvent).2)
        simp [hFlat]
      · by_cases hSame : c = event.oldContract
        · simp [hSame ▸ hZero]
        · simp [hSame, hNew]
  · -- `c` is the contract the stream has just left: its event rolls it away
    simp only [not_forall, not_not] at hLast
    obtain ⟨last, hMem, rfl⟩ := hLast
    obtain ⟨⟨event, hEvent⟩, hAll⟩ := hFollows.event_of_change hMem (Ne.symm hc)
    obtain ⟨hFrom, hTo⟩ := hAll event hEvent
    rw [hEvent, Option.elim_some, hFrom, hTo, if_pos rfl, if_neg hc]
    ring

theorem run_heldInStream {e : BacktestEngine σ ρ} {broker : MockBroker} {guard : ρ} {strategy : σ}
    {bars : List VerifiedBar} {result : RunResult} {records : List BarRecord} {s' : LoopState σ ρ}
    (hFollows : FollowsRolls bars e.rollEvents) (hConsistent : Consistent broker)
    (hFlat : ∀ c, broker.net c = 0)
    (hRun : e.run bars (.start broker guard strategy) = .ok (result, records) s') :
    HeldInStream bars records := by
  have hStep : ∀ done bar rest log r (s s' : LoopState σ ρ), bars = done ++ bar :: rest →
      (done.length = log.length ∧ Consistent s.broker ∧ OnlyLast done s.broker ∧
        HeldInStream done log) → BarStep e bar s s' r →
      ((done ++ [bar]).length = (log ++ [r]).length ∧ Consistent s'.broker ∧
        OnlyLast (done ++ [bar]) s'.broker ∧ HeldInStream (done ++ [bar]) (log ++ [r])) := by
    rintro done bar rest log r s s' rfl ⟨hLength, hConsistent, hOnly, hHeld⟩ hStep
    have hNow := fun c => hStep.onlyLast hFollows hConsistent hOnly (c := c)
    refine ⟨by simp [hLength], hStep.book.consistent hConsistent, ?_, ?_⟩
    · intro c hc
      rw [hStep.processed]
      exact hNow c (hc bar (by simp))
    · intro k bar' r' hBar hRecord c hc
      rcases getElem?_concat_cases hBar with hBar | ⟨rfl, rfl⟩
      · rcases getElem?_concat_cases hRecord with hRecord | ⟨rfl, -⟩
        · exact hHeld k bar' r' hBar hRecord c hc
        · exact absurd (index_lt hBar) (by omega)
      · rw [hLength] at hRecord
        obtain rfl : r = r' := by simpa using hRecord
        exact hNow c hc
  obtain ⟨s₁, hInv, -⟩ := run_rule
    (fun done log s => done.length = log.length ∧ Consistent s.broker ∧ OnlyLast done s.broker ∧
      HeldInStream done log) hStep
    ⟨rfl, hConsistent, fun c _ => hFlat c, fun k bar r h => by simp at h⟩ hRun
  exact hInv.2.2.2

/-! ## The builder's series -/

/-- The series' bars as verified bars: same contracts, same times. -/
def SeriesBars (series : ContinuousSeries) (bars : List VerifiedBar) : Prop :=
  bars.map (fun v => (v.contract, v.ts)) = series.bars.map fun raw => (raw.contract, raw.ts)

/-- Flags and events agree, and on every run over the series nothing is left in a contract that
the stream has rolled out of. -/
structure RollAgreement (series : ContinuousSeries) : Prop where
  flags : FlagsAgree series
  rolled : ∀ {σ ρ : Type} (e : BacktestEngine σ ρ) broker guard strategy bars result records s',
    e.rollEvents = series.rollEvents → SeriesBars series bars → Consistent broker →
    (∀ c, broker.net c = 0) →
    e.run bars (.start broker guard strategy) = .ok (result, records) s' →
    (∀ (k : ℕ) before after r, series.bars[k]? = some before → series.bars[k + 1]? = some after →
      series.rollFlags[k + 1]? = some true → records[k + 1]? = some r →
      r.processed.net before.contract = 0) ∧ HeldInStream bars records

section Built

variable {perContractBars : Dict ContractSymbol (List RawBar)} {rollCalendar : RollCalendar}
  {series : ContinuousSeries} {rollTarget : List (ContractSymbol × Date)} {first : RawBar}
  {rest : List RawBar} {flags : List Bool}

theorem built_followsRolls
    (h : Built perContractBars rollCalendar series rollTarget first rest flags)
    (hFiled : Filed perContractBars) (hChain : series.bars.IsChain (ChangesOnTarget rollTarget))
    {bars : List VerifiedBar} (hBars : SeriesBars series bars) :
    FollowsRolls bars series.rollEvents where
  own bar hBar event hEvent hDate := by
    have hMem : (bar.contract, bar.ts) ∈ series.bars.map fun raw => (raw.contract, raw.ts) :=
      hBars ▸ List.mem_map.mpr ⟨bar, hBar, rfl⟩
    obtain ⟨raw, hRaw, hEq⟩ := List.mem_map.mp hMem
    obtain ⟨hContract, hTs⟩ := Prod.mk.injEq .. ▸ hEq
    rw [← hContract]
    exact h.own hFiled raw hRaw event hEvent (hTs ▸ hDate)
  change := by
    -- the chain speaks of contracts and times only, which both lists share
    have hKeys : (series.bars.map fun raw => (raw.contract, raw.ts)).IsChain
        fun p q : ContractSymbol × DateTime => q.1 ≠ p.1 →
          (∃ event ∈ series.rollEvents, event.rollDate = q.2.date) ∧
            ∀ event ∈ series.rollEvents, event.rollDate = q.2.date →
              event.oldContract = p.1 ∧ event.newContract = q.1 := by
      rw [List.isChain_map]
      exact h.change hFiled hChain
    rw [← hBars, List.isChain_map] at hKeys
    exact hKeys

end Built

/-- A built series agrees with the engine exactly when every contract that follows in the stream
has its first active bar on the roll target of the contract before. -/
theorem roll_agreement_iff {perContractBars : Dict ContractSymbol (List RawBar)}
    {rollCalendar : RollCalendar} {root : String} {series : ContinuousSeries}
    (hFiled : Filed perContractBars)
    (hBuild : build perContractBars rollCalendar root = .ok series) :
    RollAgreement series ↔ RollsOnSession perContractBars rollCalendar := by
  obtain ⟨rollTarget, first, rest, flags, h⟩ := build_ok hBuild
  rw [h.rollsOnSession_iff hFiled]
  constructor
  · intro hAgree
    exact h.flagsAgree_iff.mp hAgree.flags
  · intro hChain
    refine ⟨h.flagsAgree_iff.mpr hChain, ?_⟩
    intro σ ρ e broker guard strategy bars result records s' hEvents hBars hConsistent hFlat hRun
    have hHeld := run_heldInStream (hEvents ▸ built_followsRolls h hFiled hChain hBars) hConsistent hFlat hRun
    refine ⟨fun k before after r hBefore hAfter hFlag hRecord => ?_, hHeld⟩
    have hChange : after.contract ≠ before.contract := by
      rw [h.bars] at hBefore hAfter
      rw [h.flags_eq] at hFlag
      exact transitions_flags h.walked hBefore (by simpa using hAfter) (by simpa using hFlag)
    have hKey : (bars.map fun v => (v.contract, v.ts))[k + 1]? = some (after.contract, after.ts) := by
      rw [hBars, List.getElem?_map, hAfter]
      rfl
    rw [List.getElem?_map, Option.map_eq_some_iff] at hKey
    obtain ⟨bar, hBar, hEq⟩ := hKey
    obtain ⟨hContract, -⟩ := Prod.mk.injEq .. ▸ hEq
    exact hHeld (k + 1) bar r hBar hRecord before.contract (hContract ▸ hChange.symm)

/-! ## Two months of crude -/

theorem roll_agreement_iff_twoMonths : ∃ series,
    build (twoMonths (.of 2025 12 12)) crudeCalendar "CL" = .ok series ∧
      (RollAgreement series ↔ RollsOnSession (twoMonths (.of 2025 12 12)) crudeCalendar) := by
  have hTest : (build (twoMonths (.of 2025 12 12)) crudeCalendar "CL").toOption.any
      (fun _ => true) = true := by decide +kernel
  obtain ⟨series, hBuild, -⟩ := except_exists_ok hTest
  have hFiled : Filed (twoMonths (.of 2025 12 12)) := filed_iff.mpr (by decide +kernel)
  exact ⟨series, hBuild, roll_agreement_iff hFiled hBuild⟩

/-- No February bar on the roll date: the flag falls on December 15, the event on December 12, and
the position bought in January's contract is still there after the flagged bar. -/
theorem missing_session_keeps_position : ∃ series,
    build (twoMonths (.of 2025 12 15)) crudeCalendar "CL" = .ok series ∧ ¬RollAgreement series ∧
      ∃ result records s' r,
        (scriptedEngine false series.rollEvents).run
          [dailyBar "CLF26" (.of 2025 12 10) 75, dailyBar "CLF26" (.of 2025 12 11) 75,
            dailyBar "CLG26" (.of 2025 12 15) 76] (.start freshBroker () [(1, 20)]) =
          .ok (result, records) s' ∧
        records[2]? = some r ∧ r.processed.net "CLF26" ≠ 0 := by
  have hTest : (build (twoMonths (.of 2025 12 15)) crudeCalendar "CL").toOption.any (fun series =>
      (flaggedBars series.bars series.rollFlags).map (fun pair => pair.2.ts.date) ≠
          series.rollEvents.map RollEvent.rollDate ∧
        returns ((scriptedEngine false series.rollEvents).run
          [dailyBar "CLF26" (.of 2025 12 10) 75, dailyBar "CLF26" (.of 2025 12 11) 75,
            dailyBar "CLG26" (.of 2025 12 15) 76]) (.start freshBroker () [(1, 20)])
          (fun out _ => out.2[2]?.any fun r => r.processed.net "CLF26" ≠ 0) = true) = true := by
    decide +kernel
  obtain ⟨series, hBuild, hBoth⟩ := except_exists_ok hTest
  obtain ⟨hDates, hReturns⟩ := of_decide_eq_true hBoth
  obtain ⟨⟨result, records⟩, s', hRun, hNet⟩ := exists_ok_of_returns hReturns
  refine ⟨series, hBuild, fun hAgree => hDates hAgree.flags.dates, result, records, s', ?_⟩
  cases hGet : records[2]? with
  | none => simp [hGet] at hNet
  | some r => exact ⟨r, hRun, rfl, by simpa [hGet] using hNet⟩

end Futur3.Engine
