import Futur3.Data.Splice
import Futur3.Data.TermStructure
import Futur3.Data.Utc

/-! # The term structure beside the splice

The index of observations is computed apart from the splice. An observation is
made at a bar that the splice has, on the contract that is current on that date.
-/

namespace Futur3.Data

open Prelude ContinuousSeriesBuilder

namespace StaticTermStructure

/-! ## The plan and the chain of the builder -/

def targetOf (planned : Planned) : ContractSymbol × Date := (planned.1, planned.2.rollTarget)

theorem resolve_ok {rollCalendar : RollCalendar} {root : String} {contracts : List ContractSymbol}
    {plan : List Planned} (h : resolve rollCalendar root contracts = .ok plan) :
    plan.map Prod.fst = contracts ∧ ∀ planned ∈ plan, rollCalendar planned.1 = some planned.2 := by
  induction contracts generalizing plan with
  | nil =>
    rw [resolve, except_pure_ok_iff] at h
    subst h
    exact ⟨rfl, by simp⟩
  | cons c rest ih =>
    rw [resolve, except_guard_ok_iff] at h
    obtain ⟨-, h⟩ := h
    cases hEntry : rollCalendar c with
    | none => simp [hEntry, except_throw_ok_iff] at h
    | some entry =>
      simp only [hEntry, except_bind_ok_iff, except_pure_ok_iff] at h
      obtain ⟨others, hRest, rfl⟩ := h
      obtain ⟨hKeys, hEntries⟩ := ih hRest
      refine ⟨by rw [List.map_cons, hKeys], ?_⟩
      intro planned hPlanned
      rcases List.mem_cons.mp hPlanned with rfl | hPlanned
      · exact hEntry
      · exact hEntries planned hPlanned

theorem rollTargets_of_plan {rollCalendar : RollCalendar} {plan : List Planned}
    (h : ∀ planned ∈ plan, rollCalendar planned.1 = some planned.2) :
    rollTargets rollCalendar (plan.map Prod.fst) = .ok (plan.map targetOf) := by
  induction plan with
  | nil => rfl
  | cons planned rest ih =>
    rw [List.map_cons, rollTargets, h planned List.mem_cons_self,
      ih fun p hp => h p (List.mem_cons_of_mem _ hp)]
    rfl

theorem chain_of_plan (plan : List Planned) :
    chain (plan.map targetOf) = (planChain plan).map targetOf := by
  unfold chain planChain
  exact (List.map_insertionSort (fun a b : Planned => a.2.rollTarget ≤ b.2.rollTarget)
    (fun a b : ContractSymbol × Date => a.2 ≤ b.2) targetOf plan fun _ _ _ _ => Iff.rfl).symm

theorem mem_planChain {plan : List Planned} {planned : Planned} :
    planned ∈ planChain plan ↔ planned ∈ plan :=
  (List.perm_insertionSort _ _).mem_iff

theorem backLtd_eq {rollCalendar : RollCalendar} {plan : List Planned}
    (h : ∀ planned ∈ plan, rollCalendar planned.1 = some planned.2) (back : ContractSymbol) :
    backLtd rollCalendar plan back = (rollCalendar back).map RollCalendarEntry.ltdDate := by
  unfold backLtd
  cases hLookup : Dict.lookup back plan with
  | none => rfl
  | some entry =>
    have hEntry : rollCalendar back = some entry := h (back, entry) (Dict.mem_of_lookup hLookup)
    rw [hEntry]
    rfl

/-! ## One observation -/

/-- An observation at a bar of the front contract, read off the bars of the successor. -/
structure ObservedAt (backBars : Option (List RawBar)) (backLtd : Option Date) (planned : Planned)
    (bar : RawBar) (obs : CarryInputs) : Prop where
  asOf : obs.asOf = bar.ts.date
  front : obs.front = planned.1
  back : obs.back = planned.2.backSymbol
  frontClose : obs.frontClose = bar.close
  backClose : ∃ bars, backBars = some bars ∧ closeOnOrBefore bars bar.ts.date = some obs.backClose
  daysFront : obs.daysFront = daysTo planned.2.ltdDate bar.ts.date
  daysBack : ∃ ltd, backLtd = some ltd ∧ obs.daysBack = daysTo ltd bar.ts.date

theorem observe_eq_some_iff {backBars : Option (List RawBar)} {backLtd prevRoll : Option Date}
    {front : Planned} {bar : RawBar} {obs : CarryInputs} :
    observe backBars backLtd prevRoll front bar = some obs ↔
      inWindow bar.ts.date prevRoll front.2.rollTarget ∧ ObservedAt backBars backLtd front bar obs := by
  unfold observe
  constructor
  · intro h
    split at h
    · rename_i hWindow
      split at h
      · rename_i bars ltd
        split at h
        · cases h
        · rename_i close hClose
          split_ifs at h with hCloses hDays
          cases h
          exact ⟨hWindow, rfl, rfl, rfl, rfl, ⟨bars, rfl, hClose⟩, rfl, ltd, rfl, rfl⟩
      · cases h
    · cases h
  · rintro ⟨hWindow, hAt⟩
    obtain ⟨bars, rfl, hClose⟩ := hAt.backClose
    obtain ⟨ltd, rfl, hDaysBack⟩ := hAt.daysBack
    have hCloses : 0 < bar.close ∧ 0 < obs.backClose := hAt.frontClose ▸ obs.closes_pos
    have hDays : 0 < daysTo front.2.ltdDate bar.ts.date ∧
        daysTo front.2.ltdDate bar.ts.date < daysTo ltd bar.ts.date := by
      rw [← hAt.daysFront, ← hDaysBack]
      exact obs.days_increasing
    simp only [hWindow, if_true, hClose, hCloses, hDays, and_self, dif_pos, Option.some.injEq]
    exact CarryInputs.ext hAt.asOf.symm hAt.front.symm hAt.back.symm hAt.frontClose.symm rfl
      hAt.daysFront.symm hDaysBack.symm

theorem activeSpan_mem {c : ContractSymbol} {start : Option Date}
    {entries : List (ContractSymbol × Date)} {span : Option Date × Date}
    (h : activeSpan c start entries = some span) : (c, span.2) ∈ entries := by
  induction entries generalizing start with
  | nil => cases h
  | cons entry rest ih =>
    rw [activeSpan] at h
    split at h
    · rename_i hFront
      cases h
      rw [← hFront]
      exact List.mem_cons_self
    · exact List.mem_cons_of_mem _ (ih h)

/-- The observations are those at the bars of each contract in its active span. -/
theorem mem_observations {perContractBars : Dict ContractSymbol (List RawBar)}
    {rollCalendar : RollCalendar} {plan planned : List Planned} {start : Option Date}
    {obs : CarryInputs} (hNodup : (planned.map Prod.fst).Nodup) :
    obs ∈ observations perContractBars rollCalendar plan start planned ↔
      ∃ front ∈ planned, ∃ span, activeSpan front.1 start (planned.map targetOf) = some span ∧
        ∃ bar ∈ (perContractBars.get? front.1).getD [],
          observe (perContractBars.get? front.2.backSymbol)
            (backLtd rollCalendar plan front.2.backSymbol) span.1 front bar = some obs := by
  induction planned generalizing start with
  | nil => simp [observations]
  | cons first rest ih =>
    obtain ⟨hFresh, hNodupRest⟩ := List.nodup_cons.mp hNodup
    have hHead : activeSpan first.1 start ((first :: rest).map targetOf) =
        some (start, first.2.rollTarget) := by
      rw [List.map_cons, targetOf, activeSpan, if_pos rfl]
    have hTail : ∀ front ∈ rest, activeSpan front.1 start ((first :: rest).map targetOf) =
        activeSpan front.1 (some first.2.rollTarget) (rest.map targetOf) := by
      intro front hFront
      rw [List.map_cons, targetOf, activeSpan, if_neg]
      intro hSame
      exact hFresh (hSame ▸ List.mem_map_of_mem hFront)
    rw [observations, List.mem_append, List.mem_filterMap, ih hNodupRest]
    constructor
    · rintro (⟨bar, hBar, hObs⟩ | ⟨front, hFront, span, hSpan, hObs⟩)
      · exact ⟨first, List.mem_cons_self, _, hHead, bar, hBar, hObs⟩
      · exact ⟨front, List.mem_cons_of_mem _ hFront, span, (hTail front hFront).trans hSpan, hObs⟩
    · rintro ⟨front, hFront, span, hSpan, bar, hBar, hObs⟩
      rcases List.mem_cons.mp hFront with rfl | hFront
      · rw [hHead, Option.some.injEq] at hSpan
        subst hSpan
        exact .inl ⟨bar, hBar, hObs⟩
      · exact .inr ⟨front, hFront, span, (hTail front hFront).symm.trans hSpan, bar, hBar, hObs⟩

end StaticTermStructure

/-! ## The contract that is current -/

/-- No bar of a contract is dated after a later one of it. -/
def DatedInOrder (perContractBars : Dict ContractSymbol (List RawBar)) : Prop :=
  ∀ c bars, perContractBars.get? c = some bars → ∀ b ∈ bars, ∀ b' ∈ bars,
    b.ts.instant < b'.ts.instant → b.ts.date ≤ b'.ts.date

theorem date_le_of_instant_lt {t t' : DateTime} (ht : t.IsUtc) (ht' : t'.IsUtc)
    (h : t.instant < t'.instant) : t.date ≤ t'.date := by
  rw [DateTime.instant_of_isUtc ht, DateTime.instant_of_isUtc ht'] at h
  by_contra hLater
  have hOrdinal := Date.toOrdinal_lt_of_lt (not_le.mp hLater)
  have hMicros := t'.micros_lt
  simp only [dayMicros] at *
  omega

/-- Bars in UTC are dated in order. -/
theorem datedInOrder_of_isUtc {perContractBars : Dict ContractSymbol (List RawBar)}
    (h : ∀ c bars, perContractBars.get? c = some bars → ∀ bar ∈ bars, bar.ts.IsUtc) :
    DatedInOrder perContractBars :=
  fun c bars hGet b hb b' hb' hLess =>
    date_le_of_instant_lt (h c bars hGet b hb) (h c bars hGet b' hb') hLess

namespace ContinuousSeriesBuilder

/-- Of two contracts of the splice, the bars of the first are all dated before. -/
theorem splice_contracts_pairwise {perContractBars : Dict ContractSymbol (List RawBar)}
    (hFiled : Filed perContractBars) {start : Option Date} {chain : List (ContractSymbol × Date)}
    (hSorted : (chain.map Prod.snd).Pairwise (· ≤ ·)) :
    (splice perContractBars start chain).Pairwise
      fun b b' => b.contract = b'.contract ∨ b.ts.date < b'.ts.date := by
  induction chain generalizing start with
  | nil => exact .nil
  | cons entry rest ih =>
    obtain ⟨c, target⟩ := entry
    rw [splice, List.pairwise_append]
    refine ⟨?_, ih (List.pairwise_cons.mp hSorted).2, ?_⟩
    · refine List.pairwise_of_forall_mem_list fun b hb b' hb' => ?_
      exact .inl ((hFiled.mem_window hb).1.trans (hFiled.mem_window hb').1.symm)
    · intro b hb b' hb'
      exact .inr ((mem_window_iff.mp hb).2.2.trans_le (splice_after hSorted hb'))

section Built

variable {perContractBars : Dict ContractSymbol (List RawBar)} {rollCalendar : RollCalendar}
  {series : ContinuousSeries} {rollTarget : List (ContractSymbol × Date)} {first : RawBar}
  {rest : List RawBar} {flags : List Bool}

/-- A spliced bar comes from the bars of its contract. -/
theorem Built.mem_barsIn
    (h : Built perContractBars rollCalendar series rollTarget first rest flags)
    (hFiled : Filed perContractBars) {bar : RawBar} :
    bar ∈ series.bars ↔
      bar ∈ barsIn perContractBars bar.contract (activeSpan bar.contract none (chain rollTarget)) := by
  rw [← ((h.splicedFrom hFiled).bars bar.contract).mem_iff, List.mem_filter]
  simp

theorem Built.dates_pairwise
    (h : Built perContractBars rollCalendar series rollTarget first rest flags)
    (hFiled : Filed perContractBars) (hOrder : DatedInOrder perContractBars) :
    series.bars.Pairwise fun b b' => b.ts.date ≤ b'.ts.date := by
  have hTargets : ((chain rollTarget).map Prod.snd).Pairwise (· ≤ ·) :=
    List.pairwise_map.mpr
      (List.pairwise_insertionSort (fun a b : ContractSymbol × Date => a.2 ≤ b.2) _)
  have hContracts : series.bars.Pairwise
      fun b b' => b.contract = b'.contract ∨ b.ts.date < b'.ts.date := by
    rw [h.bars, ← h.spliced]
    exact splice_contracts_pairwise hFiled hTargets
  have hInstants := List.isChain_iff_pairwise.mp series.increasing
  refine (hContracts.and hInstants).imp_of_mem ?_
  rintro b b' hb hb' ⟨hSame | hBefore, hLess⟩
  · rw [h.mem_barsIn hFiled] at hb hb'
    rw [← hSame] at hb'
    cases hSpan : activeSpan b.contract none (chain rollTarget) with
    | none =>
      rw [hSpan] at hb
      cases hb
    | some span =>
      rw [hSpan] at hb hb'
      have hMem := (List.mem_filter.mp hb).1
      have hMem' := (List.mem_filter.mp hb').1
      cases hGet : perContractBars.get? b.contract with
      | none =>
        rw [hGet] at hMem
        cases hMem
      | some bars =>
        rw [hGet] at hMem hMem'
        exact hOrder b.contract bars hGet b hMem b' hMem' hLess
  · exact hBefore.le

end Built

end ContinuousSeriesBuilder

/-- In a list dated in order, the scan ends on the contract of the bars of the day. -/
theorem activeAt_eq {day : Date} {c : ContractSymbol} {bars : List RawBar}
    (hDates : bars.Pairwise fun b b' => b.ts.date ≤ b'.ts.date)
    (hContract : ∀ bar ∈ bars, bar.ts.date = day → bar.contract = c)
    (hDay : ∃ bar ∈ bars, bar.ts.date = day) (active : Option ContractSymbol) :
    activeAt day active bars = some c := by
  induction bars generalizing active with
  | nil => simp at hDay
  | cons bar rest ih =>
    obtain ⟨hFirst, hRest⟩ := List.pairwise_cons.mp hDates
    have hLater : ∀ b ∈ rest, b.ts.date = day → b.contract = c :=
      fun b hb => hContract b (List.mem_cons_of_mem _ hb)
    have hNotAfter : ¬ day < bar.ts.date := by
      obtain ⟨b, hb, hDate⟩ := hDay
      rw [← hDate, not_lt]
      rcases List.mem_cons.mp hb with rfl | hb
      · exact le_rfl
      · exact hFirst b hb
    rw [activeAt, if_neg hNotAfter]
    by_cases hRestDay : ∃ b ∈ rest, b.ts.date = day
    · exact ih hRest hLater hRestDay (some bar.contract)
    · -- the day ends with this bar
      have hHere : bar.ts.date = day := by
        obtain ⟨b, hb, hDate⟩ := hDay
        rcases List.mem_cons.mp hb with rfl | hb
        · exact hDate
        · exact absurd ⟨b, hb, hDate⟩ hRestDay
      rw [hContract bar List.mem_cons_self hHere]
      cases rest with
      | nil => rfl
      | cons next others =>
        have hAfter : day < next.ts.date := by
          refine lt_of_le_of_ne (hHere ▸ hFirst next List.mem_cons_self) fun hSame => ?_
          exact hRestDay ⟨next, List.mem_cons_self, hSame.symm⟩
        rw [activeAt, if_pos hAfter]

/-! ## Agreement -/

def CanObserve (perContractBars : Dict ContractSymbol (List RawBar)) (rollCalendar : RollCalendar)
    (c : ContractSymbol) (day : Date) : Prop :=
  ∃ entry, rollCalendar c = some entry ∧
    (∃ bar ∈ (perContractBars.get? c).getD [], bar.ts.date = day ∧ 0 < bar.close) ∧
    ∃ backBars backEntry backClose, perContractBars.get? entry.backSymbol = some backBars ∧
      rollCalendar entry.backSymbol = some backEntry ∧
      closeOnOrBefore backBars day = some backClose ∧ 0 < backClose ∧
      0 < daysTo entry.ltdDate day ∧ daysTo entry.ltdDate day < daysTo backEntry.ltdDate day

/-- The observations are on the current contract, at spliced bars, wherever one can be made. -/
structure AgreesWith (perContractBars : Dict ContractSymbol (List RawBar))
    (rollCalendar : RollCalendar) (series : ContinuousSeries) (term : StaticTermStructure) :
    Prop where
  front : ∀ day obs, term.byDate.get? day = some obs →
    series.currentContract day = .ok obs.front ∧
      ∃ bar ∈ series.bars, bar.contract = obs.front ∧ bar.ts.date = day
  spliced : ∀ bar ∈ series.bars, series.currentContract bar.ts.date = .ok bar.contract ∧
    ((∃ obs, term.byDate.get? bar.ts.date = some obs) ↔
      CanObserve perContractBars rollCalendar bar.contract bar.ts.date)

namespace StaticTermStructure

theorem create_ok {perContractBars : Dict ContractSymbol (List RawBar)} {rollCalendar : RollCalendar}
    {root : String} {term : StaticTermStructure}
    (h : create perContractBars rollCalendar root = .ok term) :
    ∃ plan, resolve rollCalendar root (present perContractBars) = .ok plan ∧
      term.byDate = precompute perContractBars rollCalendar plan := by
  simp only [create, except_raise_guard_ok_iff, except_bind_ok_iff, except_pure_ok_iff] at h
  obtain ⟨-, plan, hPlan, rfl⟩ := h
  exact ⟨plan, hPlan, rfl⟩

/-- The index has a date when there is an observation on it, and one of them is its value. -/
theorem mem_of_precompute {perContractBars : Dict ContractSymbol (List RawBar)}
    {rollCalendar : RollCalendar} {plan : List Planned} {day : Date} {obs : CarryInputs}
    (h : (precompute perContractBars rollCalendar plan).get? day = some obs) :
    obs ∈ observations perContractBars rollCalendar plan none (planChain plan) ∧ obs.asOf = day := by
  obtain ⟨obs', hObs, hPair⟩ := List.mem_map.mp (Dict.mem_of_get?_ofList h)
  obtain ⟨hDay, rfl⟩ := Prod.mk.inj hPair
  exact ⟨hObs, hDay⟩

theorem exists_precompute {perContractBars : Dict ContractSymbol (List RawBar)}
    {rollCalendar : RollCalendar} {plan : List Planned} {obs : CarryInputs}
    (h : obs ∈ observations perContractBars rollCalendar plan none (planChain plan)) :
    ∃ obs', (precompute perContractBars rollCalendar plan).get? obs.asOf = some obs' :=
  Dict.exists_get?_ofList (List.mem_map_of_mem h)

section Agreement

variable {perContractBars : Dict ContractSymbol (List RawBar)} {rollCalendar : RollCalendar}
  {root : String} {series : ContinuousSeries} {term : StaticTermStructure} {plan : List Planned}
  {first : RawBar} {rest : List RawBar} {flags : List Bool}

theorem planChain_nodup
    (hBuilt : Built perContractBars rollCalendar series (plan.map targetOf) first rest flags) :
    ((planChain plan).map Prod.fst).Nodup := by
  have hKeys := hBuilt.nodup
  rw [List.map_map] at hKeys
  exact ((List.perm_insertionSort _ plan).map Prod.fst).nodup_iff.mpr hKeys

theorem currentContract_eq
    (hBuilt : Built perContractBars rollCalendar series (plan.map targetOf) first rest flags)
    (hFiled : Filed perContractBars) (hOrder : DatedInOrder perContractBars) {bar : RawBar}
    (hBar : bar ∈ series.bars) : series.currentContract bar.ts.date = .ok bar.contract := by
  have hScan : activeAt bar.ts.date none series.bars = some bar.contract :=
    activeAt_eq (hBuilt.dates_pairwise hFiled hOrder)
      (fun b hb hDate => hBuilt.one_contract hFiled hb hBar hDate) ⟨bar, hBar, rfl⟩ none
  rw [ContinuousSeries.currentContract, hScan]
  rfl

/-- An observation is made at a bar of the splice. -/
theorem spliced_of_observation
    (hBuilt : Built perContractBars rollCalendar series (plan.map targetOf) first rest flags)
    (hFiled : Filed perContractBars)
    (hPlan : ∀ planned ∈ plan, rollCalendar planned.1 = some planned.2) {obs : CarryInputs}
    (hObs : obs ∈ observations perContractBars rollCalendar plan none (planChain plan)) :
    CanObserve perContractBars rollCalendar obs.front obs.asOf ∧
      ∃ bar ∈ series.bars, bar.contract = obs.front ∧ bar.ts.date = obs.asOf := by
  have hNodup := planChain_nodup hBuilt
  obtain ⟨planned, hPlanned, span, hSpan, bar, hBar, hObserve⟩ := (mem_observations hNodup).mp hObs
  obtain ⟨hWindow, hAt⟩ := observe_eq_some_iff.mp hObserve
  have hTarget : span.2 = planned.2.rollTarget := by
    obtain ⟨other, hOther, hEq⟩ := List.mem_map.mp (activeSpan_mem hSpan)
    obtain ⟨hKey, hDate⟩ := Prod.mk.inj hEq
    rw [← hDate, List.inj_on_of_nodup_map hNodup hOther hPlanned hKey]
  have hOwn : bar.contract = planned.1 := by
    cases hGet : perContractBars.get? planned.1 with
    | none =>
      rw [hGet] at hBar
      cases hBar
    | some bars =>
      rw [hGet] at hBar
      exact hFiled planned.1 bars hGet bar hBar
  constructor
  · obtain ⟨backBars, hBackBars, hClose⟩ := hAt.backClose
    obtain ⟨ltd, hLtd, hDaysBack⟩ := hAt.daysBack
    rw [backLtd_eq hPlan] at hLtd
    obtain ⟨backEntry, hBackEntry, rfl⟩ := Option.map_eq_some_iff.mp hLtd
    rw [hAt.front, hAt.asOf]
    refine ⟨planned.2, hPlan planned (mem_planChain.mp hPlanned), ⟨bar, hBar, rfl, ?_⟩, backBars,
      backEntry, obs.backClose, hBackBars, hBackEntry, hClose, obs.closes_pos.2, ?_, ?_⟩
    · rw [← hAt.frontClose]
      exact obs.closes_pos.1
    · rw [← hAt.daysFront]
      exact obs.days_increasing.1
    · rw [← hAt.daysFront, ← hDaysBack]
      exact obs.days_increasing.2
  · refine ⟨bar, ?_, hOwn.trans hAt.front.symm, hAt.asOf.symm⟩
    rw [hBuilt.mem_barsIn hFiled, hOwn, chain_of_plan, hSpan]
    exact List.mem_filter.mpr ⟨hBar, hTarget ▸ hWindow⟩

/-- Where an observation can be made on a spliced bar's contract and date, one is. -/
theorem observation_of_spliced
    (hBuilt : Built perContractBars rollCalendar series (plan.map targetOf) first rest flags)
    (hFiled : Filed perContractBars)
    (hPlan : ∀ planned ∈ plan, rollCalendar planned.1 = some planned.2) {bar : RawBar}
    (hBar : bar ∈ series.bars)
    (hCan : CanObserve perContractBars rollCalendar bar.contract bar.ts.date) :
    ∃ obs ∈ observations perContractBars rollCalendar plan none (planChain plan),
      obs.asOf = bar.ts.date := by
  have hNodup := planChain_nodup hBuilt
  obtain ⟨entry, hEntry, ⟨priced, hPriced, hDate, hPos⟩, backBars, backEntry, backClose, hBackBars,
    hBackEntry, hClose, hBackPos, hDays, hDaysBack⟩ := hCan
  rw [hBuilt.mem_barsIn hFiled, chain_of_plan] at hBar
  cases hSpan : activeSpan bar.contract none ((planChain plan).map targetOf) with
  | none =>
    rw [hSpan] at hBar
    cases hBar
  | some span =>
    rw [hSpan] at hBar
    obtain ⟨planned, hPlanned, hEq⟩ := List.mem_map.mp (activeSpan_mem hSpan)
    obtain ⟨hKey, hTarget⟩ := Prod.mk.inj hEq
    have hPlannedEntry : planned.2 = entry := by
      have hRow := hPlan planned (mem_planChain.mp hPlanned)
      rw [hKey, hEntry, Option.some.injEq] at hRow
      exact hRow.symm
    have hWindow : inWindow priced.ts.date span.1 planned.2.rollTarget := by
      rw [hDate, hTarget]
      exact (List.mem_filter.mp hBar).2
    let obs : CarryInputs :=
      { asOf := priced.ts.date, front := planned.1, back := planned.2.backSymbol
        frontClose := priced.close, backClose
        daysFront := daysTo planned.2.ltdDate priced.ts.date
        daysBack := daysTo backEntry.ltdDate priced.ts.date
        closes_pos := ⟨hPos, hBackPos⟩
        days_increasing := by rw [hPlannedEntry, hDate]; exact ⟨hDays, hDaysBack⟩ }
    have hObserve : observe (perContractBars.get? planned.2.backSymbol)
        (backLtd rollCalendar plan planned.2.backSymbol) span.1 planned priced = some obs := by
      refine observe_eq_some_iff.mpr ⟨hWindow, rfl, rfl, rfl, rfl, ⟨backBars, ?_, ?_⟩, rfl,
        backEntry.ltdDate, ?_, rfl⟩
      · rw [hPlannedEntry, hBackBars]
      · rw [hDate, hClose]
      · rw [backLtd_eq hPlan, hPlannedEntry, hBackEntry]
        rfl
    refine ⟨obs, (mem_observations hNodup).mpr ⟨planned, hPlanned, span, ?_, priced, ?_, hObserve⟩,
      hDate⟩
    · rw [hKey, hSpan]
    · rw [hKey]
      exact hPriced

end Agreement

end StaticTermStructure

theorem termStructure_agrees {perContractBars : Dict ContractSymbol (List RawBar)}
    (hFiled : Filed perContractBars) (hOrder : DatedInOrder perContractBars)
    {rollCalendar : RollCalendar} {root : String} {series : ContinuousSeries}
    {term : StaticTermStructure} (hBuild : build perContractBars rollCalendar root = .ok series)
    (hTerm : StaticTermStructure.create perContractBars rollCalendar root = .ok term) :
    AgreesWith perContractBars rollCalendar series term := by
  obtain ⟨rollTarget, first, rest, flags, hBuilt⟩ := build_ok hBuild
  obtain ⟨plan, hPlan, hIndex⟩ := StaticTermStructure.create_ok hTerm
  obtain ⟨hKeys, hEntries⟩ := StaticTermStructure.resolve_ok hPlan
  obtain rfl : rollTarget = plan.map StaticTermStructure.targetOf := by
    have hTargets := StaticTermStructure.rollTargets_of_plan hEntries
    rw [hKeys, hBuilt.targets] at hTargets
    exact Except.ok.inj hTargets
  constructor
  · intro day obs hObs
    rw [hIndex] at hObs
    obtain ⟨hMem, rfl⟩ := StaticTermStructure.mem_of_precompute hObs
    obtain ⟨-, bar, hBar, hContract, hDate⟩ :=
      StaticTermStructure.spliced_of_observation hBuilt hFiled hEntries hMem
    refine ⟨?_, bar, hBar, hContract, hDate⟩
    rw [← hDate, ← hContract]
    exact StaticTermStructure.currentContract_eq hBuilt hFiled hOrder hBar
  · intro bar hBar
    refine ⟨StaticTermStructure.currentContract_eq hBuilt hFiled hOrder hBar, ?_⟩
    rw [hIndex]
    constructor
    · rintro ⟨obs, hObs⟩
      obtain ⟨hMem, hDay⟩ := StaticTermStructure.mem_of_precompute hObs
      obtain ⟨hCan, spliced, hSpliced, hContract, hDate⟩ :=
        StaticTermStructure.spliced_of_observation hBuilt hFiled hEntries hMem
      have hSame : spliced.contract = bar.contract :=
        hBuilt.one_contract hFiled hSpliced hBar (hDate.trans hDay)
      rwa [← hContract, hSame, hDay] at hCan
    · intro hCan
      obtain ⟨obs, hObs, hDay⟩ :=
        StaticTermStructure.observation_of_spliced hBuilt hFiled hEntries hBar hCan
      rw [← hDay]
      exact StaticTermStructure.exists_precompute hObs

/-! ### Noon on other clocks -/

theorem noon_lt : 43200000000 < dayMicros := by decide

theorem offset_lt_of {offset : ℤ} (h : offset.natAbs < dayMicros) :
    ∀ o ∈ some offset, o.natAbs < dayMicros := by simpa using h

def Date.noon (date : Date) (offset : ℤ) (h : offset.natAbs < dayMicros) : DateTime :=
  ⟨date, 43200000000, noon_lt, some offset, offset_lt_of h⟩

theorem Date.noon_aware (date : Date) (offset : ℤ) (h : offset.natAbs < dayMicros) :
    (date.noon offset h).isAware := rfl

def noonRaw (contract : ContractSymbol) (date : Date) (price : ℚ) (offset : ℤ)
    (h : offset.natAbs < dayMicros) : RawBar :=
  { dailyRaw contract date price with ts := date.noon offset h, ts_aware := date.noon_aware offset h }

/-- January with these bars, and February with a bar on December 10 and one in its own window. -/
def nearbyMonths (january : List RawBar) : Dict ContractSymbol (List RawBar) :=
  .ofList [("CLF26", january), ("CLG26", [dailyRaw "CLG26" .dec10 76, dailyRaw "CLG26" .dec12 76])]

def januaryDays : List RawBar := [dailyRaw "CLF26" .dec10 75, dailyRaw "CLF26" .dec11 75]

theorem termStructure_agrees_nearbyMonths : ∃ series term,
    build (nearbyMonths januaryDays) crudeCalendar "CL" = .ok series ∧
      StaticTermStructure.create (nearbyMonths januaryDays) crudeCalendar "CL" = .ok term ∧
      AgreesWith (nearbyMonths januaryDays) crudeCalendar series term := by
  have hFiled : Filed (nearbyMonths januaryDays) := filed_iff.mpr (by decide +kernel)
  have hUtc : ∀ item ∈ (nearbyMonths januaryDays).items, ∀ bar ∈ item.2, bar.ts.IsUtc := by
    decide +kernel
  have hOrder : DatedInOrder (nearbyMonths januaryDays) :=
    datedInOrder_of_isUtc fun c bars hGet => hUtc (c, bars) ((Dict.mem_items_iff _ c bars).mpr hGet)
  obtain ⟨series, hBuild, -⟩ := except_exists_ok
    (show (build (nearbyMonths januaryDays) crudeCalendar "CL").toOption.any (fun _ => true) = true by
      decide +kernel)
  obtain ⟨term, hTerm, -⟩ := except_exists_ok
    (show (StaticTermStructure.create (nearbyMonths januaryDays) crudeCalendar "CL").toOption.any
      (fun _ => true) = true by decide +kernel)
  exact ⟨series, term, hBuild, hTerm, termStructure_agrees hFiled hOrder hBuild hTerm⟩

theorem fourteen_hours : (50400000000 : ℤ).natAbs < dayMicros := by decide

theorem twelve_hours_west : (-43200000000 : ℤ).natAbs < dayMicros := by decide

def twoClocks : List RawBar :=
  [noonRaw "CLF26" .dec11 75 50400000000 fourteen_hours,
    noonRaw "CLF26" .dec10 75 (-43200000000) twelve_hours_west]

/-- With two clocks the scan for the current contract ends too early. -/
theorem observed_before_current : ∃ series term obs,
    Filed (nearbyMonths twoClocks) ∧
      build (nearbyMonths twoClocks) crudeCalendar "CL" = .ok series ∧
      StaticTermStructure.create (nearbyMonths twoClocks) crudeCalendar "CL" = .ok term ∧
      term.byDate.get? .dec10 = some obs ∧
      series.currentContract .dec10 = .error (.precedesFirst .dec10 .dec11) := by
  have hFiled : Filed (nearbyMonths twoClocks) := filed_iff.mpr (by decide +kernel)
  obtain ⟨series, hBuild, hCurrent⟩ := except_exists_ok
    (show (build (nearbyMonths twoClocks) crudeCalendar "CL").toOption.any
      (fun series => decide (series.currentContract .dec10 =
        .error (.precedesFirst .dec10 .dec11))) = true by decide +kernel)
  obtain ⟨term, hTerm, hObs⟩ := except_exists_ok
    (show (StaticTermStructure.create (nearbyMonths twoClocks) crudeCalendar "CL").toOption.any
      (fun term => (term.byDate.get? .dec10).isSome) = true by decide +kernel)
  obtain ⟨obs, hObs⟩ := Option.isSome_iff_exists.mp hObs
  exact ⟨series, term, obs, hFiled, hBuild, hTerm, hObs, of_decide_eq_true hCurrent⟩

end Futur3.Data
