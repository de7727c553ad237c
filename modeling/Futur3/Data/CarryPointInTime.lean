import Futur3.Data.TermStructureSpec

/-! # Carry at a point in time

What the index says on a date depends on no bar of a later date, and its two
legs are closes of the same date wherever both contracts have a bar.
-/

namespace Futur3.Data

open Prelude ContinuousSeriesBuilder

/-! ## The bars of a day -/

/-- The best of the bars scanned so far: one of them dated by the target, and none is later. -/
structure LatestBy (target : Date) (scanned : List RawBar) (best : Option RawBar) : Prop where
  chosen : ∀ bar ∈ best, bar ∈ scanned ∧ bar.ts.date ≤ target
  latest : ∀ other ∈ scanned, other.ts.date ≤ target → ∃ bar ∈ best, other.ts.date ≤ bar.ts.date

namespace LatestBy

variable {target : Date} {scanned : List RawBar} {best : Option RawBar}

theorem nil (target : Date) : LatestBy target [] none where
  chosen := by
    intro bar hBar
    cases hBar
  latest := List.forall_mem_nil _

theorem next (h : LatestBy target scanned best) (bar : RawBar) :
    LatestBy target (scanned ++ [bar])
      (if bar.ts.date ≤ target ∧ best.all (fun b => b.ts.date < bar.ts.date) then some bar
        else best) := by
  split_ifs with hNext
  · refine ⟨?_, fun other hOther hBefore => ⟨bar, rfl, ?_⟩⟩
    · rintro _ ⟨⟩
      exact ⟨List.mem_append_right _ List.mem_cons_self, hNext.1⟩
    · rcases List.mem_append.mp hOther with hOther | hOther
      · obtain ⟨b, hb, hLe⟩ := h.latest other hOther hBefore
        have hLess : b.ts.date < bar.ts.date := of_decide_eq_true ((Option.all_eq_true _ _).mp hNext.2 b hb)
        exact hLe.trans hLess.le
      · rw [List.mem_singleton.mp hOther]
  · refine ⟨fun b hb => ?_, fun other hOther hBefore => ?_⟩
    · obtain ⟨hMem, hTarget⟩ := h.chosen b hb
      exact ⟨List.mem_append_left _ hMem, hTarget⟩
    · rcases List.mem_append.mp hOther with hOther | hOther
      · exact h.latest other hOther hBefore
      · obtain rfl := List.mem_singleton.mp hOther
        cases best with
        | none => exact absurd ⟨hBefore, rfl⟩ hNext
        | some b => exact ⟨b, rfl, not_lt.mp fun hLess => hNext ⟨hBefore, decide_eq_true hLess⟩⟩

/-- By induction on the bars that are left. -/
theorem foldl (h : LatestBy target scanned best) (bars : List RawBar) :
    LatestBy target (scanned ++ bars) (bars.foldl (fun (best : Option RawBar) bar =>
      if bar.ts.date ≤ target ∧ best.all (fun b => b.ts.date < bar.ts.date) then some bar else best)
      best) := by
  induction bars generalizing scanned best with
  | nil =>
    rw [List.append_nil]
    exact h
  | cons bar rest ih =>
    rw [List.foldl_cons, List.append_cons]
    exact ih (h.next bar)

end LatestBy

/-- The latest bar dated on or before the target. -/
theorem closeOnOrBefore_ok {bars : List RawBar} {target : Date} {close : ℚ}
    (h : closeOnOrBefore bars target = some close) :
    ∃ bar ∈ bars, bar.ts.date ≤ target ∧ bar.close = close ∧
      ∀ other ∈ bars, other.ts.date ≤ target → other.ts.date ≤ bar.ts.date := by
  obtain ⟨bar, hLast, hClose⟩ := Option.map_eq_some_iff.mp h
  have hScan := (LatestBy.nil target).foldl bars
  rw [hLast, List.nil_append] at hScan
  obtain ⟨hMem, hTarget⟩ := hScan.chosen bar rfl
  refine ⟨bar, hMem, hTarget, hClose, fun other hOther hBefore => ?_⟩
  obtain ⟨_, ⟨⟩, hLe⟩ := hScan.latest other hOther hBefore
  exact hLe

/-- Later bars do not matter to the close. -/
theorem closeOnOrBefore_filter (bars : List RawBar) (target : Date) :
    closeOnOrBefore (bars.filter fun bar => bar.ts.date ≤ target) target =
      closeOnOrBefore bars target := by
  unfold closeOnOrBefore
  rw [List.foldl_filter]
  congr 2
  funext best bar
  by_cases hBefore : bar.ts.date ≤ target <;> simp [hBefore]

def loadedBars (perContractBars : Dict ContractSymbol (List RawBar)) (c : ContractSymbol) :
    List RawBar := (perContractBars.get? c).getD []

/-- The same contracts have bars, and up to a day the same ones. -/
structure SameThrough (day : Date) (perContractBars perContractBars' : Dict ContractSymbol (List RawBar)) :
    Prop where
  present_eq : present perContractBars = present perContractBars'
  bars_eq : ∀ c, (loadedBars perContractBars c).filter (fun bar => bar.ts.date ≤ day) =
    (loadedBars perContractBars' c).filter fun bar => bar.ts.date ≤ day

theorem SameThrough.onDay {day : Date}
    {perContractBars perContractBars' : Dict ContractSymbol (List RawBar)}
    (h : SameThrough day perContractBars perContractBars') (c : ContractSymbol) :
    (loadedBars perContractBars c).filter (fun bar => bar.ts.date = day) =
      (loadedBars perContractBars' c).filter fun bar => bar.ts.date = day := by
  have hDay : ∀ bars : List RawBar, bars.filter (fun bar => bar.ts.date = day) =
      (bars.filter fun bar => bar.ts.date ≤ day).filter fun bar => bar.ts.date = day := by
    intro bars
    rw [List.filter_filter]
    refine List.filter_congr fun bar _ => ?_
    by_cases hDate : bar.ts.date = day <;> simp [hDate]
  rw [hDay, h.bars_eq, ← hDay]

namespace StaticTermStructure

theorem readsClose_iff {backBars : Option (List RawBar)} {day : Date} {close : ℚ} :
    (∃ bars, backBars = some bars ∧ closeOnOrBefore bars day = some close) ↔
      closeOnOrBefore (backBars.getD []) day = some close := by
  cases backBars with
  | none => simp [closeOnOrBefore]
  | some bars => simp

theorem observe_congr {backBars backBars' : Option (List RawBar)} {backLtd prevRoll : Option Date}
    {front : Planned} {bar : RawBar}
    (h : closeOnOrBefore (backBars.getD []) bar.ts.date =
      closeOnOrBefore (backBars'.getD []) bar.ts.date) :
    observe backBars backLtd prevRoll front bar = observe backBars' backLtd prevRoll front bar := by
  ext obs
  rw [observe_eq_some_iff, observe_eq_some_iff]
  refine and_congr_right fun _ => ⟨fun hAt => ?_, fun hAt => ?_⟩
  · refine { hAt with backClose := ?_ }
    rw [readsClose_iff, ← h, ← readsClose_iff]
    exact hAt.backClose
  · refine { hAt with backClose := ?_ }
    rw [readsClose_iff, h, ← readsClose_iff]
    exact hAt.backClose

/-- The observations of one day. -/
theorem filter_observe {backBars : Option (List RawBar)} {backLtd prevRoll : Option Date}
    {front : Planned} (bars : List RawBar) (day : Date) :
    (bars.filterMap (observe backBars backLtd prevRoll front)).filter (fun obs => obs.asOf = day) =
      (bars.filter fun bar => bar.ts.date = day).filterMap (observe backBars backLtd prevRoll front) := by
  induction bars with
  | nil => rfl
  | cons bar rest ih =>
    rw [List.filterMap_cons, List.filter_cons]
    cases hObs : observe backBars backLtd prevRoll front bar with
    | none =>
      dsimp only
      split
      · rw [List.filterMap_cons, hObs, ih]
      · exact ih
    | some obs =>
      have hDate : obs.asOf = bar.ts.date := (observe_eq_some_iff.mp hObs).2.asOf
      simp only [List.filter_cons, hDate, ih]
      split
      · rw [List.filterMap_cons, hObs]
      · rfl

theorem observations_onDay {day : Date}
    {perContractBars perContractBars' : Dict ContractSymbol (List RawBar)}
    (h : SameThrough day perContractBars perContractBars') {rollCalendar : RollCalendar}
    {plan planned : List Planned} (start : Option Date) :
    (observations perContractBars rollCalendar plan start planned).filter (fun obs => obs.asOf = day) =
      (observations perContractBars' rollCalendar plan start planned).filter
        fun obs => obs.asOf = day := by
  induction planned generalizing start with
  | nil => rfl
  | cons front rest ih =>
    have hBars := h.onDay front.1
    unfold loadedBars at hBars
    rw [observations, observations, List.filter_append, List.filter_append, ih, filter_observe,
      filter_observe, ← hBars]
    congr 1
    refine List.filterMap_congr fun bar hBar => observe_congr ?_
    have hDate : bar.ts.date = day := by simpa using (List.mem_filter.mp hBar).2
    have hBack := h.bars_eq front.2.backSymbol
    unfold loadedBars at hBack
    rw [hDate, ← closeOnOrBefore_filter, hBack, closeOnOrBefore_filter]

theorem precompute_onDay {day : Date}
    {perContractBars perContractBars' : Dict ContractSymbol (List RawBar)}
    (h : SameThrough day perContractBars perContractBars') (rollCalendar : RollCalendar)
    (plan : List Planned) :
    (precompute perContractBars rollCalendar plan).get? day =
      (precompute perContractBars' rollCalendar plan).get? day := by
  have hLookup : ∀ observed : List CarryInputs,
      (Dict.ofList (observed.map fun obs => (obs.asOf, obs))).get? day =
        Dict.lookup day
          ((observed.filter fun obs => obs.asOf = day).map fun obs => (obs.asOf, obs)).reverse := by
    intro observed
    rw [Dict.get?_ofList, ← Dict.lookup_filter (p := fun key => decide (key = day)) (by simp),
      List.filter_reverse, List.filter_map]
    rfl
  unfold precompute
  rw [hLookup, hLookup, observations_onDay h]

end StaticTermStructure

/-- Wherever the first contract has a bar, the second has one of the same timestamp. -/
def BarsBeside (perContractBars : Dict ContractSymbol (List RawBar)) (c c' : ContractSymbol) : Prop :=
  ∀ bar ∈ loadedBars perContractBars c, ∃ bar' ∈ loadedBars perContractBars c', bar'.ts = bar.ts

def OneBarADate (perContractBars : Dict ContractSymbol (List RawBar)) (c : ContractSymbol) : Prop :=
  ∀ bar ∈ loadedBars perContractBars c, ∀ bar' ∈ loadedBars perContractBars c,
    bar.ts.date = bar'.ts.date → bar = bar'

def carryInputsAt (perContractBars : Dict ContractSymbol (List RawBar)) (rollCalendar : RollCalendar)
    (root : String) (asOf : DateTime) : Except TermStructureError (Option CarryInputs) := do
  let term ← StaticTermStructure.create perContractBars rollCalendar root
  term.carryInputs asOf

/-- An observation is the close of a front bar of the day, beside the latest close of the successor. -/
theorem carryInputs_legs {perContractBars : Dict ContractSymbol (List RawBar)}
    {rollCalendar : RollCalendar} {root : String} {asOf : DateTime} {term : StaticTermStructure}
    {obs : CarryInputs}
    (hTerm : StaticTermStructure.create perContractBars rollCalendar root = .ok term)
    (hObs : term.carryInputs asOf = .ok (some obs)) :
    ∃ bar ∈ loadedBars perContractBars obs.front, bar.ts.date = asOf.date ∧ bar.close = obs.frontClose ∧
      ∃ back ∈ loadedBars perContractBars obs.back, back.ts.date ≤ asOf.date ∧
        back.close = obs.backClose ∧
        ∀ other ∈ loadedBars perContractBars obs.back, other.ts.date ≤ asOf.date →
          other.ts.date ≤ back.ts.date := by
  obtain ⟨plan, hPlan, hIndex⟩ := StaticTermStructure.create_ok hTerm
  have hNodup : ((StaticTermStructure.planChain plan).map Prod.fst).Nodup := by
    have hKeys : (plan.map Prod.fst).Nodup := by
      rw [(StaticTermStructure.resolve_ok hPlan).1]
      exact perContractBars.nodup_keys.sublist (List.filter_sublist.map Prod.fst)
    exact ((List.perm_insertionSort _ plan).map Prod.fst).nodup_iff.mpr hKeys
  unfold StaticTermStructure.carryInputs at hObs
  split at hObs
  swap
  · simp [except_throw_ok_iff] at hObs
  rw [except_pure_ok_iff, hIndex] at hObs
  obtain ⟨hMem, hDay⟩ := StaticTermStructure.mem_of_precompute hObs
  obtain ⟨planned, -, span, -, bar, hBar, hObserve⟩ :=
    (StaticTermStructure.mem_observations hNodup).mp hMem
  obtain ⟨-, hAt⟩ := StaticTermStructure.observe_eq_some_iff.mp hObserve
  have hDate : bar.ts.date = asOf.date := hAt.asOf.symm.trans hDay
  obtain ⟨backBars, hBackBars, hClose⟩ := hAt.backClose
  obtain ⟨back, hBack, hBefore, hBackClose, hLatest⟩ := closeOnOrBefore_ok hClose
  have hBackOf : loadedBars perContractBars obs.back = backBars := by
    rw [loadedBars, hAt.back, hBackBars, Option.getD_some]
  rw [hBackOf, hAt.front]
  rw [hDate] at hBefore hLatest
  exact ⟨bar, hBar, hDate, hAt.frontClose.symm, back, hBack, hBefore, hBackClose, hLatest⟩

theorem carryInputs_pointInTime (perContractBars : Dict ContractSymbol (List RawBar))
    (rollCalendar : RollCalendar) (root : String) (asOf : DateTime) :
    (∀ perContractBars', SameThrough asOf.date perContractBars perContractBars' →
      carryInputsAt perContractBars rollCalendar root asOf =
        carryInputsAt perContractBars' rollCalendar root asOf) ∧
    ∀ term obs, StaticTermStructure.create perContractBars rollCalendar root = .ok term →
      term.carryInputs asOf = .ok (some obs) → BarsBeside perContractBars obs.front obs.back →
      ∃ bar ∈ loadedBars perContractBars obs.front, ∃ back ∈ loadedBars perContractBars obs.back,
        bar.close = obs.frontClose ∧ back.close = obs.backClose ∧
        bar.ts.date = asOf.date ∧ back.ts.date = asOf.date ∧
        (OneBarADate perContractBars obs.back → back.ts = bar.ts) := by
  constructor
  · intro perContractBars' h
    unfold carryInputsAt StaticTermStructure.create
    rw [h.present_eq]
    split_ifs
    · rfl
    cases StaticTermStructure.resolve rollCalendar root (present perContractBars') with
    | error e => rfl
    | ok plan =>
      change StaticTermStructure.carryInputs ⟨root, _⟩ asOf =
        StaticTermStructure.carryInputs ⟨root, _⟩ asOf
      unfold StaticTermStructure.carryInputs
      rw [StaticTermStructure.precompute_onDay h]
  · intro term obs hTerm hObs hBeside
    obtain ⟨bar, hBar, hDate, hClose, back, hBack, hBefore, hBackClose, hLatest⟩ :=
      carryInputs_legs hTerm hObs
    obtain ⟨beside, hBesideMem, hBesideTs⟩ := hBeside bar hBar
    have hBesideDate : beside.ts.date = asOf.date := by rw [hBesideTs, hDate]
    have hBackDate : back.ts.date = asOf.date :=
      le_antisymm hBefore (hBesideDate ▸ hLatest beside hBesideMem hBesideDate.le)
    refine ⟨bar, hBar, back, hBack, hClose, hBackClose, hDate, hBackDate, fun hOne => ?_⟩
    rw [hOne back hBack beside hBesideMem (hBackDate.trans hBesideDate.symm), hBesideTs]

theorem loadedBars_nearbyMonths (january : List RawBar) (c : ContractSymbol) :
    loadedBars (nearbyMonths january) c =
      if c = "CLF26" then january
      else if c = "CLG26" then [dailyRaw "CLG26" .dec10 76, dailyRaw "CLG26" .dec12 76]
      else [] := by
  unfold loadedBars nearbyMonths
  rw [Dict.get?_ofList, List.reverse_cons, List.reverse_singleton, List.singleton_append,
    Dict.lookup, Dict.lookup, Dict.lookup]
  by_cases hFront : c = "CLF26"
  · subst hFront
    rfl
  · rw [if_neg hFront, if_neg (Ne.symm hFront)]
    by_cases hBack : c = "CLG26"
    · subst hBack
      rfl
    · rw [if_neg hBack, if_neg (Ne.symm hBack)]
      rfl

/-- A January bar, and with it one of another date or of another hour. -/
def oneDay : Dict ContractSymbol (List RawBar) := nearbyMonths [dailyRaw "CLF26" .dec10 75]

def nextDay : Dict ContractSymbol (List RawBar) :=
  nearbyMonths [dailyRaw "CLF26" .dec10 75, dailyRaw "CLF26" .dec11 80]

theorem no_hours : (0 : ℤ).natAbs < dayMicros := by decide

def sameDay : Dict ContractSymbol (List RawBar) :=
  nearbyMonths [dailyRaw "CLF26" .dec10 75, noonRaw "CLF26" .dec10 80 0 no_hours]

theorem carryInputs_pointInTime_oneDay :
    carryInputsAt oneDay crudeCalendar "CL" (.utcMidnight .dec10) =
      carryInputsAt nextDay crudeCalendar "CL" (.utcMidnight .dec10) ∧
    ∃ term obs, StaticTermStructure.create oneDay crudeCalendar "CL" = .ok term ∧
      term.carryInputs (.utcMidnight .dec10) = .ok (some obs) ∧
      ∃ bar ∈ loadedBars oneDay obs.front, ∃ back ∈ loadedBars oneDay obs.back,
        bar.close = obs.frontClose ∧ back.close = obs.backClose ∧ back.ts = bar.ts := by
  obtain ⟨hSame, hLegs⟩ :=
    carryInputs_pointInTime oneDay crudeCalendar "CL" (.utcMidnight .dec10)
  refine ⟨hSame nextDay ⟨by decide +kernel, fun c => ?_⟩, ?_⟩
  · unfold oneDay nextDay
    rw [loadedBars_nearbyMonths, loadedBars_nearbyMonths]
    split_ifs
    · decide +kernel
    · rfl
    · rfl
  · obtain ⟨term, hTerm, hObs⟩ := except_exists_ok
      (show (StaticTermStructure.create oneDay crudeCalendar "CL").toOption.any
        (fun term => (term.byDate.get? .dec10).any fun obs =>
          decide (obs.front = "CLF26" ∧ obs.back = "CLG26")) = true by decide +kernel)
    obtain ⟨obs, hGet, hNames⟩ := (Option.any_eq_true _ _).mp hObs
    obtain ⟨hFront, hBack⟩ := of_decide_eq_true hNames
    have hInputs : term.carryInputs (.utcMidnight .dec10) = .ok (some obs) := by
      rw [StaticTermStructure.carryInputs, if_pos (DateTime.utcMidnight_aware .dec10)]
      exact congrArg Except.ok hGet
    have hBeside : BarsBeside oneDay obs.front obs.back := by
      unfold BarsBeside
      rw [hFront, hBack]
      decide +kernel
    have hOne : OneBarADate oneDay obs.back := by
      unfold OneBarADate
      rw [hBack]
      decide +kernel
    obtain ⟨bar, hBar, back, hBackMem, hClose, hBackClose, -, -, hTs⟩ :=
      hLegs term obs hTerm hInputs hBeside
    exact ⟨term, obs, hTerm, hInputs, bar, hBar, back, hBackMem, hClose, hBackClose, hTs hOne⟩

/-- A bar at noon changes what is read as of the midnight before it. -/
theorem noon_changes_midnight :
    present oneDay = present sameDay ∧
      (∀ c, (loadedBars oneDay c).filter
          (fun bar => bar.ts.instant ≤ (DateTime.utcMidnight .dec10).instant) =
        (loadedBars sameDay c).filter
          fun bar => bar.ts.instant ≤ (DateTime.utcMidnight .dec10).instant) ∧
      carryInputsAt oneDay crudeCalendar "CL" (.utcMidnight .dec10) ≠
        carryInputsAt sameDay crudeCalendar "CL" (.utcMidnight .dec10) := by
  refine ⟨by decide +kernel, fun c => ?_, by decide +kernel⟩
  unfold oneDay sameDay
  rw [loadedBars_nearbyMonths, loadedBars_nearbyMonths]
  split_ifs
  · decide +kernel
  · rfl
  · rfl

end Futur3.Data
