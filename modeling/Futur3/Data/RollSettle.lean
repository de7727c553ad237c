import Futur3.Data.CarryPointInTime
import Futur3.Data.Splice
import Futur3.Prelude.SideBySide

/-! # The settles of a roll

A roll event carries one close of the contract it leaves and one of the contract
it enters. They are the settles of the roll date, taken at one instant, where both
contracts have a bar of that date, list it first among the bars of the day at the
price of the day's latest one, and have these latest bars at the same time.
-/

namespace Futur3.Data

open Prelude

namespace ContinuousSeriesBuilder

/-! ## Scanning for a day -/

section Scan

variable {α : Type} {ok : α → Prop} {better : α → α → Prop} [DecidablePred ok]
  [DecidableRel better] (top : α → Prop)

/-- An item that nothing beats stays the best so far. -/
theorem foldl_kept (hKept : ∀ b x, top b → ok x → ¬better b x) {best : α} (hBest : top best)
    (xs : List α) :
    xs.foldl (fun (best : Option α) x => if ok x ∧ best.all (fun b => better b x) then some x else best)
      (some best) = some best := by
  induction xs with
  | nil => rfl
  | cons x xs ih =>
    rw [List.foldl_cons, if_neg]
    · exact ih
    · rintro ⟨hOk, hBeats⟩
      exact hKept best x hBest hOk (by simpa using hBeats)

/-- The first item that beats every other kind is the best of the scan. -/
theorem foldl_first_top [DecidablePred top] (hOk : ∀ x, top x → ok x)
    (hBeats : ∀ b x, ok b → ¬top b → top x → better b x)
    (hKept : ∀ b x, top b → ok x → ¬better b x) {xs : List α} {t : α}
    (h : xs.find? (fun x => top x) = some t) {best : Option α} (hBest : ∀ b ∈ best, ok b ∧ ¬top b) :
    xs.foldl (fun (best : Option α) x => if ok x ∧ best.all (fun b => better b x) then some x else best)
      best = some t := by
  induction xs generalizing best with
  | nil => cases h
  | cons x xs ih =>
    rw [List.foldl_cons]
    by_cases hTop : top x
    · rw [List.find?_cons_of_pos (by simpa using hTop)] at h
      have hFound : x = t := Option.some.inj h
      have hAll : best.all (fun b => better b x) = true := by
        rw [Option.all_eq_true]
        intro b hb
        obtain ⟨hAdmitted, hOther⟩ := hBest b hb
        exact decide_eq_true (hBeats b x hAdmitted hOther hTop)
      rw [if_pos ⟨hOk x hTop, hAll⟩, ← hFound]
      exact foldl_kept top hKept hTop xs
    · rw [List.find?_cons_of_neg (by simpa using hTop)] at h
      split
      · rename_i hNext
        refine ih h ?_
        rintro b ⟨rfl⟩
        exact ⟨hNext.1, hTop⟩
      · exact ih h hBest

end Scan

/-- Where a day has bars, both scans find the first one listed. -/
theorem closeOnOrBefore_of_day {bars : List RawBar} {day : Date} {bar : RawBar}
    (h : bars.find? (fun bar => bar.ts.date = day) = some bar) :
    closeOnOrBefore bars day = some bar.close := by
  unfold closeOnOrBefore
  rw [foldl_first_top (fun bar : RawBar => bar.ts.date = day) (fun _ hDay => hDay.le)
    (fun b x hBefore hOther hDay => ?_) (fun b x hDay hBefore => ?_) h (by simp)]
  · rfl
  · exact hDay ▸ lt_of_le_of_ne hBefore hOther
  · exact not_lt.mpr (hDay ▸ hBefore)

theorem closeOnOrAfter_of_day {bars : List RawBar} {day : Date} {bar : RawBar}
    (h : bars.find? (fun bar => bar.ts.date = day) = some bar) :
    closeOnOrAfter bars day = some bar.close := by
  unfold closeOnOrAfter
  rw [foldl_first_top (fun bar : RawBar => bar.ts.date = day) (fun _ hDay => hDay.ge)
    (fun b x hAfter hOther hDay => ?_) (fun b x hDay hAfter => ?_) h (by simp)]
  · rfl
  · exact hDay ▸ lt_of_le_of_ne hAfter (Ne.symm hOther)
  · exact not_lt.mpr (hDay ▸ hAfter)

/-- The close of a latest bar of the day, whose time is the instant. -/
def ClosesDay (bars : List RawBar) (day : Date) (instant : ℤ) (settle : ℚ) : Prop :=
  ∃ bar ∈ bars, bar.ts.date = day ∧ bar.ts.instant = instant ∧ bar.close = settle ∧
    ∀ other ∈ bars, other.ts.date = day → other.ts.instant ≤ instant

/-- The day has bars, the latest of them at the instant, and the first one listed closes at the price of
a latest one. -/
def ListedAtClose (bars : List RawBar) (day : Date) (instant : ℤ) : Prop :=
  ∃ bar, bars.find? (fun bar => bar.ts.date = day) = some bar ∧ ClosesDay bars day instant bar.close

theorem closesDay_iff {bars : List RawBar} {day : Date} {instant : ℤ} {settle : ℚ}
    (h : ∀ bar, bars.find? (fun bar => bar.ts.date = day) = some bar → settle = bar.close) :
    ClosesDay bars day instant settle ↔ ListedAtClose bars day instant := by
  constructor
  · intro hCloses
    obtain ⟨latest, hMem, hDay, -⟩ := id hCloses
    obtain ⟨bar, hFind⟩ := Option.isSome_iff_exists.mp
      (List.find?_isSome.mpr ⟨latest, hMem, decide_eq_true hDay⟩ :
        (bars.find? fun bar => bar.ts.date = day).isSome)
    exact ⟨bar, hFind, h bar hFind ▸ hCloses⟩
  · rintro ⟨bar, hFind, hCloses⟩
    exact (h bar hFind).symm ▸ hCloses

/-! ## Events -/

/-- Both prices of an event are settles of its date at one instant. -/
def SettlesOnRollDate (perContractBars : Dict ContractSymbol (List RawBar)) (event : RollEvent) : Prop :=
  ∃ instant, ClosesDay (loadedBars perContractBars event.oldContract) event.rollDate instant event.frontSettle ∧
    ClosesDay (loadedBars perContractBars event.newContract) event.rollDate instant event.backSettle

theorem makeRollEvent_settles {front back : ContractSymbol}
    {rollTarget : List (ContractSymbol × Date)} {perContractBars : Dict ContractSymbol (List RawBar)}
    {event : RollEvent} (h : makeRollEvent front back rollTarget perContractBars = .ok event) :
    SettlesOnRollDate perContractBars event ↔ ∃ instant,
      ListedAtClose (loadedBars perContractBars front) event.rollDate instant ∧
        ListedAtClose (loadedBars perContractBars back) event.rollDate instant := by
  obtain ⟨-, hOld, hNew⟩ := makeRollEvent_ok h
  simp only [makeRollEvent, except_bind_ok_iff, index_ok_iff] at h
  obtain ⟨rollDate, hDate, frontBars, hFront, backBars, hBack, h⟩ := h
  split at h
  · simp [except_throw_ok_iff] at h
  · simp [except_throw_ok_iff] at h
  · rename_i frontSettle backSettle hFrontSettle hBackSettle
    rw [except_pure_ok_iff] at h
    subst h
    have hFrontBars : loadedBars perContractBars front = frontBars := by
      rw [loadedBars, Dict.get?, hFront, Option.getD_some]
    have hBackBars : loadedBars perContractBars back = backBars := by
      rw [loadedBars, Dict.get?, hBack, Option.getD_some]
    rw [SettlesOnRollDate, hFrontBars, hBackBars]
    refine exists_congr fun instant =>
      and_congr (closesDay_iff fun bar hBar => ?_) (closesDay_iff fun bar hBar => ?_)
    · rw [closeOnOrBefore_of_day hBar] at hFrontSettle
      exact (Option.some.inj hFrontSettle).symm
    · rw [closeOnOrAfter_of_day hBar] at hBackSettle
      exact (Option.some.inj hBackSettle).symm

theorem transitions_made {rollTarget : List (ContractSymbol × Date)}
    {perContractBars : Dict ContractSymbol (List RawBar)} {prev : RawBar} {rest : List RawBar}
    {flags : List Bool} {events : List RollEvent}
    (h : transitions rollTarget perContractBars prev rest = .ok (flags, events)) :
    List.Forall₂ (fun pair event => makeRollEvent pair.1.contract pair.2.contract rollTarget
      perContractBars = .ok event) (contractChanges (prev :: rest)) events := by
  induction rest generalizing prev flags events with
  | nil =>
    rw [transitions, except_pure_ok_iff, Prod.mk.injEq] at h
    obtain ⟨-, rfl⟩ := h
    exact .nil
  | cons bar rest ih =>
    rw [contractChanges_cons]
    rw [transitions] at h
    split at h
    · rename_i hChange
      simp only [except_bind_ok_iff, except_pure_ok_iff, Prod.mk.injEq] at h
      obtain ⟨event, hEvent, ⟨flags', events'⟩, hRest, -, rfl⟩ := h
      rw [if_pos hChange]
      exact .cons hEvent (ih hRest)
    · rename_i hSame
      simp only [except_bind_ok_iff, except_pure_ok_iff, Prod.mk.injEq] at h
      obtain ⟨⟨flags', events'⟩, hRest, -, rfl⟩ := h
      rw [if_neg hSame]
      exact ih hRest

/-- At every change of contract in the spliced windows both contracts list a settle of the roll
date first, and have their latest bars of that date at one instant. -/
def RollsAtClose (perContractBars : Dict ContractSymbol (List RawBar)) (rollCalendar : RollCalendar) :
    Prop :=
  ∀ rollTarget, rollTargets rollCalendar (present perContractBars) = .ok rollTarget →
    ∀ pair ∈ contractChanges (splice perContractBars none (chain rollTarget)), ∀ rollDate,
      Dict.lookup pair.1.contract rollTarget = some rollDate → ∃ instant,
        ListedAtClose (loadedBars perContractBars pair.1.contract) rollDate instant ∧
          ListedAtClose (loadedBars perContractBars pair.2.contract) rollDate instant

/-- The events of a built series carry settles of their dates exactly when the rolls are listed so. -/
theorem build_settles_iff {perContractBars : Dict ContractSymbol (List RawBar)}
    {rollCalendar : RollCalendar} {root : String} {series : ContinuousSeries}
    (h : build perContractBars rollCalendar root = .ok series) :
    (∀ event ∈ series.rollEvents, SettlesOnRollDate perContractBars event) ↔
      RollsAtClose perContractBars rollCalendar := by
  obtain ⟨rollTarget, first, rest, flags, hBuilt⟩ := build_ok h
  have hMade := transitions_made hBuilt.walked
  have hTargets : RollsAtClose perContractBars rollCalendar ↔
      ∀ pair ∈ contractChanges (first :: rest), ∀ rollDate,
        Dict.lookup pair.1.contract rollTarget = some rollDate → ∃ instant,
          ListedAtClose (loadedBars perContractBars pair.1.contract) rollDate instant ∧
            ListedAtClose (loadedBars perContractBars pair.2.contract) rollDate instant := by
    rw [← hBuilt.spliced]
    constructor
    · exact fun hRolls => hRolls rollTarget hBuilt.targets
    · intro hRolls rollTarget' hTargets'
      obtain rfl := Except.ok.inj (hBuilt.targets.symm.trans hTargets')
      exact hRolls
  rw [hTargets]
  refine (forall_mem_iff_of_forall₂ hMade fun pair event hEvent => ?_).symm
  rw [makeRollEvent_settles hEvent]
  have hDate := (makeRollEvent_ok hEvent).1
  constructor
  · exact fun hRolls => hRolls event.rollDate hDate
  · intro hListed rollDate hRollDate
    cases hDate.symm.trans hRollDate
    exact hListed

def bothTrade : Dict ContractSymbol (List RawBar) :=
  .ofList [("CLF26", [dailyRaw "CLF26" .dec10 75, dailyRaw "CLF26" .dec11 75, dailyRaw "CLF26" .dec12 74]),
    ("CLG26", [dailyRaw "CLG26" .dec12 76])]

theorem rollsAtClose_bothTrade : RollsAtClose bothTrade crudeCalendar := by
  intro rollTarget hTargets pair hPair rollDate hRollDate
  have hDates : rollTargets crudeCalendar (present bothTrade) =
      .ok [("CLF26", .dec12), ("CLG26", .of 2026 1 14)] := by
    rfl
  obtain rfl := Except.ok.inj (hTargets.symm.trans hDates)
  have hChanges : contractChanges (splice bothTrade none (chain [("CLF26", .dec12), ("CLG26", .of 2026 1 14)])) =
      [(dailyRaw "CLF26" .dec11 75, dailyRaw "CLG26" .dec12 76)] := by
    decide +kernel
  rw [hChanges, List.mem_singleton] at hPair
  subst hPair
  have hDay : Date.dec12 = rollDate := by
    simpa [dailyRaw, Dict.lookup] using hRollDate
  subst hDay
  refine ⟨(DateTime.utcMidnight .dec12).instant, ⟨dailyRaw "CLF26" .dec12 74, by decide +kernel, ?_⟩,
    dailyRaw "CLG26" .dec12 76, by decide +kernel, ?_⟩
  · exact ⟨dailyRaw "CLF26" .dec12 74, by decide +kernel, rfl, rfl, rfl, by decide +kernel⟩
  · exact ⟨dailyRaw "CLG26" .dec12 76, by decide +kernel, rfl, rfl, rfl, by decide +kernel⟩

theorem build_settles_iff_bothTrade : ∃ series, build bothTrade crudeCalendar "CL" = .ok series ∧
    series.rollEvents.length = 1 ∧ ∀ event ∈ series.rollEvents, SettlesOnRollDate bothTrade event := by
  obtain ⟨series, hBuild, hEvents⟩ := except_exists_ok
    (show (build bothTrade crudeCalendar "CL").toOption.any (fun series =>
      decide (series.rollEvents.length = 1)) = true by decide +kernel)
  exact ⟨series, hBuild, of_decide_eq_true hEvents, (build_settles_iff hBuild).mpr rollsAtClose_bothTrade⟩

/-- January's last bar is a day before its roll, and that bar's close is booked on the roll date. -/
theorem january_settle_missing : ∃ series,
    build (twoMonths .dec12) crudeCalendar "CL" = .ok series ∧
      ∃ event ∈ series.rollEvents, ¬SettlesOnRollDate (twoMonths .dec12) event := by
  obtain ⟨series, hBuild, hEvents⟩ := except_exists_ok
    (show (build (twoMonths .dec12) crudeCalendar "CL").toOption.any (fun series =>
      series.rollEvents.any fun event =>
        decide (event.oldContract = "CLF26" ∧ event.rollDate = .dec12)) = true by decide +kernel)
  obtain ⟨event, hEvent, hNames⟩ := List.any_eq_true.mp hEvents
  obtain ⟨hOld, hDate⟩ := of_decide_eq_true hNames
  have hNoBar : ∀ bar ∈ loadedBars (twoMonths .dec12) "CLF26", bar.ts.date ≠ .dec12 := by
    decide +kernel
  refine ⟨series, hBuild, event, hEvent, ?_⟩
  rintro ⟨-, ⟨bar, hBar, hDay, -⟩, -⟩
  rw [hOld] at hBar
  exact hNoBar bar hBar (hDay.trans hDate)

end ContinuousSeriesBuilder

end Futur3.Data
