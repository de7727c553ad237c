import Futur3.Data.Continuous
import Mathlib.Data.List.Chain

/-! # What the builder's output says

The flags and roll events of a built series, and how they sit on the active windows
of the contracts. A flagged bar is dated its event's roll date exactly when the new
contract has its first active bar on the roll target of the old one.
-/

namespace Futur3.Data

open Prelude

namespace ContinuousSeriesBuilder

/-- The bars flagged as first of a new contract, each with the bar before it. -/
def flaggedBars : List RawBar → List Bool → List (RawBar × RawBar)
  | prev :: bar :: rest, _ :: flag :: flags =>
    if flag then (prev, bar) :: flaggedBars (bar :: rest) (flag :: flags)
    else flaggedBars (bar :: rest) (flag :: flags)
  | _, _ => []

/-- A flagged bar sits on its event: the date, and the contracts before and after. -/
def OnEvent (pair : RawBar × RawBar) (event : RollEvent) : Prop :=
  pair.2.ts.date = event.rollDate ∧ pair.1.contract = event.oldContract ∧
    pair.2.contract = event.newContract

/-- The `k`-th flagged bar sits on the `k`-th roll event. -/
def FlagsAgree (series : ContinuousSeries) : Prop :=
  List.Forall₂ OnEvent (flaggedBars series.bars series.rollFlags) series.rollEvents

theorem FlagsAgree.dates {series : ContinuousSeries} (h : FlagsAgree series) :
    (flaggedBars series.bars series.rollFlags).map (fun pair => pair.2.ts.date) =
      series.rollEvents.map RollEvent.rollDate := by
  unfold FlagsAgree at h
  generalize flaggedBars series.bars series.rollFlags = pairs at h
  generalize series.rollEvents = events at h
  induction h with
  | nil => rfl
  | cons hOn _ ih => rw [List.map_cons, List.map_cons, ih, hOn.1]

/-- A change of contract happens on the roll target of the contract before. -/
def ChangesOnTarget (rollTarget : List (ContractSymbol × Date)) (prev bar : RawBar) : Prop :=
  bar.contract ≠ prev.contract → Dict.lookup prev.contract rollTarget = some bar.ts.date

theorem index_ok_iff {ν : Type} {items : List (ContractSymbol × ν)} {key : ContractSymbol} {v : ν} :
    index items key = .ok v ↔ Dict.lookup key items = some v := by
  unfold index
  cases Dict.lookup key items with
  | none => simp [except_throw_ok_iff]
  | some w => simp [except_pure_ok_iff]

theorem makeRollEvent_ok {front back : ContractSymbol} {rollTarget : List (ContractSymbol × Date)}
    {perContractBars : Dict ContractSymbol (List RawBar)} {event : RollEvent}
    (h : makeRollEvent front back rollTarget perContractBars = .ok event) :
    Dict.lookup front rollTarget = some event.rollDate ∧ event.oldContract = front ∧
      event.newContract = back := by
  simp only [makeRollEvent, except_bind_ok_iff, index_ok_iff] at h
  obtain ⟨rollDate, hDate, frontBars, -, backBars, -, h⟩ := h
  split at h
  · simp [except_throw_ok_iff] at h
  · simp [except_throw_ok_iff] at h
  · rw [except_pure_ok_iff] at h
    subst h
    exact ⟨hDate, rfl, rfl⟩

/-- The two forms of one turn of the loop over the spliced bars. -/
theorem transitions_cons_ok {rollTarget : List (ContractSymbol × Date)}
    {perContractBars : Dict ContractSymbol (List RawBar)} {prev bar : RawBar} {rest : List RawBar}
    {flags : List Bool} {events : List RollEvent}
    (h : transitions rollTarget perContractBars prev (bar :: rest) = .ok (flags, events)) :
    ∃ flags' events', transitions rollTarget perContractBars bar rest = .ok (flags', events') ∧
      ((bar.contract = prev.contract ∧ flags = false :: flags' ∧ events = events') ∨
        ∃ event, bar.contract ≠ prev.contract ∧ flags = true :: flags' ∧ events = event :: events' ∧
          Dict.lookup prev.contract rollTarget = some event.rollDate ∧
          event.oldContract = prev.contract ∧ event.newContract = bar.contract) := by
  rw [transitions] at h
  split at h
  · rename_i hChange
    simp only [except_bind_ok_iff, except_pure_ok_iff, Prod.mk.injEq] at h
    obtain ⟨event, hEvent, ⟨flags', events'⟩, hRest, rfl, rfl⟩ := h
    exact ⟨flags', events', hRest, .inr ⟨event, hChange, rfl, rfl, makeRollEvent_ok hEvent⟩⟩
  · rename_i hSame
    simp only [except_bind_ok_iff, except_pure_ok_iff, Prod.mk.injEq] at h
    obtain ⟨⟨flags', events'⟩, hRest, rfl, rfl⟩ := h
    exact ⟨flags', events', hRest, .inl ⟨not_not.mp hSame, rfl, rfl⟩⟩

theorem transitions_agree {rollTarget : List (ContractSymbol × Date)}
    {perContractBars : Dict ContractSymbol (List RawBar)} {prev : RawBar} {rest : List RawBar}
    {flags : List Bool} {events : List RollEvent} (flag : Bool)
    (h : transitions rollTarget perContractBars prev rest = .ok (flags, events)) :
    List.Forall₂ OnEvent (flaggedBars (prev :: rest) (flag :: flags)) events ↔
      (prev :: rest).IsChain (ChangesOnTarget rollTarget) := by
  induction rest generalizing prev flag flags events with
  | nil =>
    rw [transitions, except_pure_ok_iff, Prod.mk.injEq] at h
    obtain ⟨rfl, rfl⟩ := h
    simp [flaggedBars]
  | cons bar rest ih =>
    obtain ⟨flags', events', hRest, ⟨hSame, rfl, rfl⟩ | ⟨event, hChange, rfl, rfl, hDate, hOld, hNew⟩⟩ :=
      transitions_cons_ok h
    · have hStep : ChangesOnTarget rollTarget prev bar := fun hNe => absurd hSame hNe
      rw [List.isChain_cons_cons, ← ih false hRest]
      simp [flaggedBars, hStep]
    · have hStep : ChangesOnTarget rollTarget prev bar ↔ bar.ts.date = event.rollDate := by
        simp [ChangesOnTarget, hChange, hDate, eq_comm]
      rw [List.isChain_cons_cons, ← ih true hRest, hStep]
      simp [flaggedBars, OnEvent, hOld, hNew]

/-- Every event is one of the changes, dated the roll target of the contract it leaves. -/
theorem transitions_events {rollTarget : List (ContractSymbol × Date)}
    {perContractBars : Dict ContractSymbol (List RawBar)} {prev : RawBar} {rest : List RawBar}
    {flags : List Bool} {events : List RollEvent}
    (h : transitions rollTarget perContractBars prev rest = .ok (flags, events)) :
    ∀ event ∈ events, ∃ p ∈ prev :: rest, ∃ q ∈ prev :: rest,
      Dict.lookup p.contract rollTarget = some event.rollDate ∧ event.oldContract = p.contract ∧
        event.newContract = q.contract ∧
        ((prev :: rest).IsChain (ChangesOnTarget rollTarget) → q.ts.date = event.rollDate) := by
  induction rest generalizing prev flags events with
  | nil =>
    rw [transitions, except_pure_ok_iff, Prod.mk.injEq] at h
    obtain ⟨rfl, rfl⟩ := h
    intro event hMem
    cases hMem
  | cons bar rest ih =>
    obtain ⟨flags', events', hRest, hCases⟩ := transitions_cons_ok h
    have hLater : ∀ event ∈ events', ∃ p ∈ prev :: bar :: rest, ∃ q ∈ prev :: bar :: rest,
        Dict.lookup p.contract rollTarget = some event.rollDate ∧ event.oldContract = p.contract ∧
          event.newContract = q.contract ∧
          ((prev :: bar :: rest).IsChain (ChangesOnTarget rollTarget) →
            q.ts.date = event.rollDate) := by
      intro event hMem
      obtain ⟨p, hp, q, hq, hDate, hOld, hNew, hChain⟩ := ih hRest event hMem
      exact ⟨p, List.mem_cons_of_mem _ hp, q, List.mem_cons_of_mem _ hq, hDate, hOld, hNew,
        fun h => hChain (List.isChain_cons_cons.mp h).2⟩
    rcases hCases with ⟨-, -, rfl⟩ | ⟨event, hChange, -, rfl, hDate, hOld, hNew⟩
    · exact hLater
    · intro event' hMem
      rcases List.mem_cons.mp hMem with rfl | hMem
      · refine ⟨prev, List.mem_cons_self, bar, by simp, hDate, hOld, hNew, fun h => ?_⟩
        have := (List.isChain_cons_cons.mp h).1 hChange
        exact Option.some.inj (this.symm.trans hDate)
      · exact hLater event' hMem

/-- When changes fall on targets, each of them has an event of its date. -/
theorem transitions_changes {rollTarget : List (ContractSymbol × Date)}
    {perContractBars : Dict ContractSymbol (List RawBar)} {prev : RawBar} {rest : List RawBar}
    {flags : List Bool} {events : List RollEvent}
    (h : transitions rollTarget perContractBars prev rest = .ok (flags, events))
    (hChain : (prev :: rest).IsChain (ChangesOnTarget rollTarget)) :
    (prev :: rest).IsChain fun p q => q.contract ≠ p.contract →
      Dict.lookup p.contract rollTarget = some q.ts.date ∧
        ∃ event ∈ events, event.rollDate = q.ts.date := by
  induction rest generalizing prev flags events with
  | nil => exact .singleton prev
  | cons bar rest ih =>
    obtain ⟨flags', events', hRest, hCases⟩ := transitions_cons_ok h
    obtain ⟨hStep, hTail⟩ := List.isChain_cons_cons.mp hChain
    have hSub : ∀ event ∈ events', event ∈ events := by
      rcases hCases with ⟨-, -, rfl⟩ | ⟨event, -, -, rfl, -⟩
      · exact fun _ h => h
      · exact fun _ h => List.mem_cons_of_mem _ h
    refine List.isChain_cons_cons.mpr ⟨fun hNe => ?_, (ih hRest hTail).imp fun p q hpq hNe => ?_⟩
    · rcases hCases with ⟨hSame, -⟩ | ⟨event, -, -, rfl, hDate, -⟩
      · exact absurd hSame hNe
      · exact ⟨hStep hNe, event, List.mem_cons_self,
          Option.some.inj (hDate.symm.trans (hStep hNe))⟩
    · obtain ⟨hTarget, event, hMem, hDate⟩ := hpq hNe
      exact ⟨hTarget, event, hSub event hMem, hDate⟩

/-- A flag marks a bar whose contract is not that of the bar before. -/
theorem transitions_flags {rollTarget : List (ContractSymbol × Date)}
    {perContractBars : Dict ContractSymbol (List RawBar)} {prev : RawBar} {rest : List RawBar}
    {flags : List Bool} {events : List RollEvent}
    (h : transitions rollTarget perContractBars prev rest = .ok (flags, events)) {k : ℕ}
    {before after : RawBar} (hBefore : (prev :: rest)[k]? = some before)
    (hAfter : rest[k]? = some after) (hFlag : flags[k]? = some true) :
    after.contract ≠ before.contract := by
  induction rest generalizing prev flags events k with
  | nil => simp at hAfter
  | cons bar rest ih =>
    obtain ⟨flags', events', hRest, hCases⟩ := transitions_cons_ok h
    cases k with
    | zero =>
      simp only [List.getElem?_cons_zero, Option.some.injEq] at hBefore hAfter
      subst hBefore hAfter
      rcases hCases with ⟨-, rfl, -⟩ | ⟨event, hChange, -⟩
      · simp at hFlag
      · exact hChange
    | succ k =>
      rw [List.getElem?_cons_succ] at hBefore hAfter
      have hFlag' : flags'[k]? = some true := by
        rcases hCases with ⟨-, rfl, -⟩ | ⟨event, -, rfl, -⟩ <;> simpa using hFlag
      exact ih hRest hBefore hAfter hFlag'

/-! ## Windows -/

def Filed (perContractBars : Dict ContractSymbol (List RawBar)) : Prop :=
  ∀ c bars, perContractBars.get? c = some bars → ∀ bar ∈ bars, bar.contract = c

theorem filed_iff {perContractBars : Dict ContractSymbol (List RawBar)} :
    Filed perContractBars ↔ ∀ item ∈ perContractBars.items, ∀ bar ∈ item.2, bar.contract = item.1 := by
  constructor
  · rintro h ⟨c, bars⟩ hItem
    exact h c bars ((Dict.mem_items_iff _ c bars).mp hItem)
  · intro h c bars hGet
    exact h (c, bars) ((Dict.mem_items_iff _ c bars).mpr hGet)

theorem mem_window_iff {bars : List RawBar} {start : Option Date} {stop : Date} {bar : RawBar} :
    bar ∈ window bars start stop ↔
      bar ∈ bars ∧ (∀ s ∈ start, s ≤ bar.ts.date) ∧ bar.ts.date < stop := by
  unfold window inWindow
  cases start <;> simp

theorem Filed.mem_window {perContractBars : Dict ContractSymbol (List RawBar)}
    (hFiled : Filed perContractBars) {c : ContractSymbol} {start : Option Date} {stop : Date}
    {bar : RawBar} (h : bar ∈ window ((perContractBars.get? c).getD []) start stop) :
    bar.contract = c ∧ (∀ s ∈ start, s ≤ bar.ts.date) ∧ bar.ts.date < stop := by
  obtain ⟨hMem, hStart, hStop⟩ := mem_window_iff.mp h
  cases hGet : perContractBars.get? c with
  | none =>
    rw [hGet] at hMem
    cases hMem
  | some bars =>
    rw [hGet] at hMem
    exact ⟨hFiled c bars hGet bar hMem, hStart, hStop⟩

/-- A spliced bar is dated before the target of its contract. -/
theorem mem_splice {perContractBars : Dict ContractSymbol (List RawBar)}
    (hFiled : Filed perContractBars) {start : Option Date} {chain : List (ContractSymbol × Date)}
    {bar : RawBar} (h : bar ∈ splice perContractBars start chain) :
    ∃ target, (bar.contract, target) ∈ chain ∧ bar.ts.date < target := by
  induction chain generalizing start with
  | nil => cases h
  | cons entry rest ih =>
    obtain ⟨c, target⟩ := entry
    rcases List.mem_append.mp h with hHere | hLater
    · obtain ⟨rfl, -, hStop⟩ := hFiled.mem_window hHere
      exact ⟨target, List.mem_cons_self, hStop⟩
    · obtain ⟨target', hMem, hStop⟩ := ih hLater
      exact ⟨target', List.mem_cons_of_mem _ hMem, hStop⟩

/-- Later windows start no earlier than the first of them. -/
theorem splice_after {perContractBars : Dict ContractSymbol (List RawBar)}
    {chain : List (ContractSymbol × Date)} {start : Date}
    (hSorted : ((start :: chain.map Prod.snd).Pairwise (· ≤ ·))) {bar : RawBar}
    (h : bar ∈ splice perContractBars (some start) chain) : start ≤ bar.ts.date := by
  induction chain generalizing start with
  | nil => cases h
  | cons entry rest ih =>
    obtain ⟨c, target⟩ := entry
    obtain ⟨hFirst, hRest⟩ := List.pairwise_cons.mp hSorted
    rcases List.mem_append.mp h with hHere | hLater
    · exact (mem_window_iff.mp hHere).2.1 start rfl
    · exact (hFirst target (by simp)).trans (ih hRest hLater)

/-- Of two contracts in the splice, one is over before the other's bars. -/
theorem splice_separated {perContractBars : Dict ContractSymbol (List RawBar)}
    (hFiled : Filed perContractBars) {start : Option Date} {chain : List (ContractSymbol × Date)}
    (hSorted : (chain.map Prod.snd).Pairwise (· ≤ ·)) (hNodup : (chain.map Prod.fst).Nodup)
    {b b' : RawBar} (hb : b ∈ splice perContractBars start chain)
    (hb' : b' ∈ splice perContractBars start chain) (hNe : b.contract ≠ b'.contract) {t t' : Date}
    (ht : (b.contract, t) ∈ chain) (ht' : (b'.contract, t') ∈ chain) :
    t ≤ b'.ts.date ∨ t' ≤ b.ts.date := by
  induction chain generalizing start with
  | nil => cases hb
  | cons entry rest ih =>
    obtain ⟨c, target⟩ := entry
    obtain ⟨hFresh, hNodupRest⟩ := List.nodup_cons.mp hNodup
    -- an entry of a later contract is in the rest of the chain
    have hRest : ∀ {x : RawBar} {u : Date}, x.contract ≠ c → (x.contract, u) ∈ (c, target) :: rest →
        (x.contract, u) ∈ rest := by
      intro x u hx hMem
      rcases List.mem_cons.mp hMem with hEq | hMem
      · exact absurd (congrArg Prod.fst hEq) hx
      · exact hMem
    have hHead : ∀ {x : RawBar} {u : Date}, x.contract = c → (x.contract, u) ∈ (c, target) :: rest →
        u = target := by
      intro x u hx hMem
      rcases List.mem_cons.mp hMem with hEq | hMem
      · exact congrArg Prod.snd hEq
      · exact absurd (List.mem_map.mpr ⟨_, hMem, hx⟩) hFresh
    have hLater : ∀ {x : RawBar}, x ∈ splice perContractBars (some target) rest →
        x.contract ≠ c ∧ target ≤ x.ts.date := by
      intro x hx
      obtain ⟨u, hMem, -⟩ := mem_splice hFiled hx
      exact ⟨fun hEq => hFresh (List.mem_map.mpr ⟨_, hMem, hEq⟩), splice_after hSorted hx⟩
    rcases List.mem_append.mp hb with hHere | hb <;> rcases List.mem_append.mp hb' with hHere' | hb'
    · exact absurd ((hFiled.mem_window hHere).1.trans (hFiled.mem_window hHere').1.symm) hNe
    · rw [hHead (hFiled.mem_window hHere).1 ht]
      exact .inl (hLater hb').2
    · rw [hHead (hFiled.mem_window hHere').1 ht']
      exact .inr (hLater hb).2
    · exact ih (List.pairwise_cons.mp hSorted).2 hNodupRest hb hb' (hRest (hLater hb).1 ht)
        (hRest (hLater hb').1 ht')

/-- The active windows in roll order, each with the target that ends it. -/
def activeWindows (perContractBars : Dict ContractSymbol (List RawBar)) :
    Option Date → List (ContractSymbol × Date) → List (Date × List RawBar)
  | _, [] => []
  | prevRoll, (contract, windowEnd) :: rest =>
    (windowEnd, window ((perContractBars.get? contract).getD []) prevRoll windowEnd) ::
      activeWindows perContractBars (some windowEnd) rest

/-- The contract after this window has its first active bar on the target that ends it. -/
def NextOpensOnTarget (w next : Date × List RawBar) : Prop :=
  ∀ first ∈ next.2.head?, first.ts.date = w.1

/-- Every contract that follows in the stream trades on the roll target of the one before. -/
def RollsOnSession (perContractBars : Dict ContractSymbol (List RawBar))
    (rollCalendar : RollCalendar) : Prop :=
  ∀ rollTarget, rollTargets rollCalendar (present perContractBars) = .ok rollTarget →
    ((activeWindows perContractBars none (chain rollTarget)).filter fun w => w.2 ≠ []).IsChain
      NextOpensOnTarget

theorem splice_eq_flatten (perContractBars : Dict ContractSymbol (List RawBar))
    (start : Option Date) (chain : List (ContractSymbol × Date)) :
    splice perContractBars start chain =
      (((activeWindows perContractBars start chain).filter fun w => w.2 ≠ []).map
        Prod.snd).flatten := by
  induction chain generalizing start with
  | nil => rfl
  | cons entry rest ih =>
    obtain ⟨c, target⟩ := entry
    rw [splice, activeWindows, ih]
    by_cases hEmpty : window ((perContractBars.get? c).getD []) start target = []
    · simp [hEmpty]
    · simp [hEmpty]

/-- A window of the chain: one contract throughout, and its target. -/
theorem mem_activeWindows {perContractBars : Dict ContractSymbol (List RawBar)}
    (hFiled : Filed perContractBars) {start : Option Date} {chain : List (ContractSymbol × Date)}
    {w : Date × List RawBar} (h : w ∈ activeWindows perContractBars start chain) :
    ∃ c, (c, w.1) ∈ chain ∧ ∀ bar ∈ w.2, bar.contract = c := by
  induction chain generalizing start with
  | nil => cases h
  | cons entry rest ih =>
    obtain ⟨c, target⟩ := entry
    rcases List.mem_cons.mp h with rfl | hLater
    · exact ⟨c, List.mem_cons_self, fun bar hBar => (hFiled.mem_window hBar).1⟩
    · obtain ⟨c', hMem, hBars⟩ := ih hLater
      exact ⟨c', List.mem_cons_of_mem _ hMem, hBars⟩

/-- Different windows hold different contracts. -/
theorem activeWindows_pairwise {perContractBars : Dict ContractSymbol (List RawBar)}
    (hFiled : Filed perContractBars) {start : Option Date} {chain : List (ContractSymbol × Date)}
    (hNodup : (chain.map Prod.fst).Nodup) :
    (activeWindows perContractBars start chain).Pairwise fun w w' =>
      ∀ b ∈ w.2, ∀ b' ∈ w'.2, b'.contract ≠ b.contract := by
  induction chain generalizing start with
  | nil => exact .nil
  | cons entry rest ih =>
    obtain ⟨c, target⟩ := entry
    obtain ⟨hFresh, hNodupRest⟩ := List.nodup_cons.mp hNodup
    refine List.pairwise_cons.mpr ⟨fun w hw b hb b' hb' hEq => hFresh ?_, ih hNodupRest⟩
    obtain ⟨c', hMem, hBars⟩ := mem_activeWindows hFiled hw
    have hSame : c' = c := (hBars b' hb').symm.trans (hEq.trans (hFiled.mem_window hb).1)
    exact List.mem_map.mpr ⟨_, hMem, hSame⟩

theorem isChain_iff_of_pairwise {α : Type} {D R S : α → α → Prop} {xs : List α} (hD : xs.Pairwise D)
    (hIff : ∀ x ∈ xs, ∀ y ∈ xs, D x y → (R x y ↔ S x y)) : xs.IsChain R ↔ xs.IsChain S := by
  induction xs with
  | nil => simp
  | cons x rest ih =>
    obtain ⟨hFirst, hRest⟩ := List.pairwise_cons.mp hD
    have hTail := ih hRest fun y hy z hz =>
      hIff y (List.mem_cons_of_mem _ hy) z (List.mem_cons_of_mem _ hz)
    rw [List.isChain_cons, List.isChain_cons, hTail]
    refine and_congr_left fun _ => forall_congr' fun y => forall_congr' fun hy => ?_
    have hMem := List.mem_of_mem_head? hy
    exact hIff x List.mem_cons_self y (List.mem_cons_of_mem _ hMem) (hFirst y hMem)

/-- In the splice, contracts change on target exactly when each next window opens on target. -/
theorem splice_changes_iff {perContractBars : Dict ContractSymbol (List RawBar)}
    (hFiled : Filed perContractBars) {chain rollTarget : List (ContractSymbol × Date)}
    (hPerm : chain.Perm rollTarget) (hNodup : (rollTarget.map Prod.fst).Nodup) :
    (splice perContractBars none chain).IsChain (ChangesOnTarget rollTarget) ↔
      ((activeWindows perContractBars none chain).filter fun w => w.2 ≠ []).IsChain
        NextOpensOnTarget := by
  have hNodupChain : (chain.map Prod.fst).Nodup := (hPerm.map Prod.fst).nodup_iff.mpr hNodup
  generalize hWindows : (activeWindows perContractBars none chain).filter (fun w => w.2 ≠ []) = windows
  have hMem : ∀ w ∈ windows, w.2 ≠ [] ∧
      ∃ c, Dict.lookup c rollTarget = some w.1 ∧ ∀ bar ∈ w.2, bar.contract = c := by
    intro w hw
    rw [← hWindows, List.mem_filter] at hw
    obtain ⟨c, hc, hBars⟩ := mem_activeWindows hFiled hw.1
    exact ⟨of_decide_eq_true hw.2, c,
      (Dict.mem_iff_lookup c w.1 rollTarget hNodup).mp (hPerm.mem_iff.mp hc), hBars⟩
  have hPairwise : windows.Pairwise fun w w' => ∀ b ∈ w.2, ∀ b' ∈ w'.2, b'.contract ≠ b.contract :=
    hWindows ▸ (activeWindows_pairwise hFiled hNodupChain).filter _
  have hNonempty : [] ∉ windows.map Prod.snd := by
    intro h
    obtain ⟨w, hw, hEmpty⟩ := List.mem_map.mp h
    exact (hMem w hw).1 hEmpty
  -- inside one window the contract stays
  have hInside : ∀ l ∈ windows.map Prod.snd, l.IsChain (ChangesOnTarget rollTarget) := by
    intro l hl
    obtain ⟨w, hw, rfl⟩ := List.mem_map.mp hl
    obtain ⟨-, c, -, hBars⟩ := hMem w hw
    refine List.Pairwise.isChain (List.pairwise_iff_forall_sublist.mpr fun {a b} hSub hNe => ?_)
    exact absurd ((hBars b (hSub.subset (by simp))).trans (hBars a (hSub.subset (by simp))).symm) hNe
  rw [splice_eq_flatten, hWindows, List.isChain_flatten hNonempty, and_iff_right hInside,
    List.isChain_map]
  refine isChain_iff_of_pairwise hPairwise fun w hw w' hw' hDistinct => ?_
  obtain ⟨hNe, c, hLookup, hBars⟩ := hMem w hw
  have hLast := List.getLast?_eq_some_getLast hNe
  rw [hLast]
  simp only [Option.mem_def, Option.some.injEq, forall_eq', NextOpensOnTarget]
  refine forall_congr' fun first => forall_congr' fun hFirst => ?_
  have hMemLast := List.getLast_mem hNe
  have hChange := hDistinct _ hMemLast first (List.mem_of_mem_head? hFirst)
  rw [ChangesOnTarget, hBars _ hMemLast, hLookup, Option.some.injEq, eq_comm]
  exact ⟨fun h => h (hBars _ hMemLast ▸ hChange), fun h _ => h⟩

/-! ## Built series -/

theorem ContinuousSeries.create_ok {root : String} {bars : List RawBar} {events : List RollEvent}
    {flags : List Bool} {series : ContinuousSeries}
    (h : ContinuousSeries.create root bars events flags = .ok series) :
    series.bars = bars ∧ series.rollEvents = events ∧ series.rollFlags = flags := by
  unfold ContinuousSeries.create at h
  split_ifs at h
  cases h
  exact ⟨rfl, rfl, rfl⟩

theorem rollTargets_ok {rollCalendar : RollCalendar} {contracts : List ContractSymbol}
    {rollTarget : List (ContractSymbol × Date)}
    (h : rollTargets rollCalendar contracts = .ok rollTarget) :
    rollTarget.map Prod.fst = contracts := by
  induction contracts generalizing rollTarget with
  | nil =>
    rw [rollTargets, except_pure_ok_iff] at h
    rw [← h]
    rfl
  | cons c rest ih =>
    rw [rollTargets] at h
    cases hEntry : rollCalendar c with
    | none => simp [hEntry, except_throw_ok_iff] at h
    | some entry =>
      simp only [hEntry, except_bind_ok_iff, except_pure_ok_iff] at h
      obtain ⟨targets, hRest, rfl⟩ := h
      rw [List.map_cons, ih hRest]

structure Built (perContractBars : Dict ContractSymbol (List RawBar)) (rollCalendar : RollCalendar)
    (series : ContinuousSeries) (rollTarget : List (ContractSymbol × Date)) (first : RawBar)
    (rest : List RawBar) (flags : List Bool) : Prop where
  targets : rollTargets rollCalendar (present perContractBars) = .ok rollTarget
  spliced : splice perContractBars none (chain rollTarget) = first :: rest
  bars : series.bars = first :: rest
  flags_eq : series.rollFlags = false :: flags
  walked : transitions rollTarget perContractBars first rest = .ok (flags, series.rollEvents)
  nodup : (rollTarget.map Prod.fst).Nodup

theorem build_ok {perContractBars : Dict ContractSymbol (List RawBar)} {rollCalendar : RollCalendar}
    {root : String} {series : ContinuousSeries}
    (h : build perContractBars rollCalendar root = .ok series) :
    ∃ rollTarget first rest flags,
      Built perContractBars rollCalendar series rollTarget first rest flags := by
  simp only [build, except_raise_guard_ok_iff] at h
  obtain ⟨-, h⟩ := h
  split at h
  · simp [except_throw_ok_iff] at h
  simp only [except_bind_ok_iff] at h
  obtain ⟨rollTarget, hTargets, h⟩ := h
  split at h
  · simp [except_throw_ok_iff] at h
  rename_i first rest hSpliced
  simp only [except_bind_ok_iff] at h
  obtain ⟨⟨flags, events⟩, hWalk, hCreate⟩ := h
  obtain ⟨hBars, hEvents, hFlags⟩ := ContinuousSeries.create_ok hCreate
  have hNodup : (present perContractBars).Nodup :=
    perContractBars.nodup_keys.sublist (List.filter_sublist.map Prod.fst)
  exact ⟨rollTarget, first, rest, flags, hTargets, hSpliced, hBars, hFlags, hEvents ▸ hWalk,
    rollTargets_ok hTargets ▸ hNodup⟩

section Built

variable {perContractBars : Dict ContractSymbol (List RawBar)} {rollCalendar : RollCalendar}
  {series : ContinuousSeries} {rollTarget : List (ContractSymbol × Date)} {first : RawBar}
  {rest : List RawBar} {flags : List Bool}

theorem Built.flagsAgree_iff (h : Built perContractBars rollCalendar series rollTarget first rest flags) :
    FlagsAgree series ↔ series.bars.IsChain (ChangesOnTarget rollTarget) := by
  rw [FlagsAgree, h.bars, h.flags_eq]
  exact transitions_agree false h.walked

theorem Built.rollsOnSession_iff
    (h : Built perContractBars rollCalendar series rollTarget first rest flags)
    (hFiled : Filed perContractBars) :
    RollsOnSession perContractBars rollCalendar ↔
      series.bars.IsChain (ChangesOnTarget rollTarget) := by
  have hTargets : RollsOnSession perContractBars rollCalendar ↔
      ((activeWindows perContractBars none (chain rollTarget)).filter fun w => w.2 ≠ []).IsChain
        NextOpensOnTarget := by
    constructor
    · exact fun hRolls => hRolls rollTarget h.targets
    · intro hChain rollTarget' hTargets'
      obtain rfl := Except.ok.inj (h.targets.symm.trans hTargets')
      exact hChain
  have hPerm : (chain rollTarget).Perm rollTarget := List.perm_insertionSort _ _
  rw [hTargets, ← splice_changes_iff hFiled hPerm h.nodup, h.spliced, h.bars]

/-- A bar of the series is dated before the target of its contract. -/
theorem Built.mem_bars (h : Built perContractBars rollCalendar series rollTarget first rest flags)
    (hFiled : Filed perContractBars) {bar : RawBar} (hBar : bar ∈ series.bars) :
    ∃ target, Dict.lookup bar.contract rollTarget = some target ∧ bar.ts.date < target := by
  rw [h.bars, ← h.spliced] at hBar
  obtain ⟨target, hMem, hLess⟩ := mem_splice hFiled hBar
  have hMem' := (List.perm_insertionSort _ _).mem_iff.mp hMem
  exact ⟨target, (Dict.mem_iff_lookup _ _ _ h.nodup).mp hMem', hLess⟩

/-- Bars of different contracts are separated by one of their targets. -/
theorem Built.separated (h : Built perContractBars rollCalendar series rollTarget first rest flags)
    (hFiled : Filed perContractBars) {b b' : RawBar} (hb : b ∈ series.bars) (hb' : b' ∈ series.bars)
    (hNe : b.contract ≠ b'.contract) {t t' : Date}
    (ht : Dict.lookup b.contract rollTarget = some t)
    (ht' : Dict.lookup b'.contract rollTarget = some t') :
    t ≤ b'.ts.date ∨ t' ≤ b.ts.date := by
  have hPerm : (chain rollTarget).Perm rollTarget := List.perm_insertionSort _ _
  rw [h.bars, ← h.spliced] at hb hb'
  have hMem : ∀ {c t}, Dict.lookup c rollTarget = some t → (c, t) ∈ chain rollTarget :=
    fun hLookup => hPerm.mem_iff.mpr (Dict.mem_of_lookup hLookup)
  refine splice_separated hFiled ?_ ?_ hb hb' hNe (hMem ht) (hMem ht')
  · exact List.pairwise_map.mpr (List.pairwise_insertionSort (fun a b : ContractSymbol × Date => a.2 ≤ b.2) _)
  · exact (hPerm.map Prod.fst).nodup_iff.mpr h.nodup

/-- No event is dated on a bar of the contract it leaves. -/
theorem Built.own (h : Built perContractBars rollCalendar series rollTarget first rest flags)
    (hFiled : Filed perContractBars) :
    ∀ bar ∈ series.bars, ∀ event ∈ series.rollEvents, event.rollDate = bar.ts.date →
      event.oldContract ≠ bar.contract := by
  intro bar hBar event hEvent hDate hSame
  obtain ⟨p, -, -, -, hLookup, hOld, -⟩ := transitions_events h.walked event hEvent
  obtain ⟨target, hTarget, hLess⟩ := h.mem_bars hFiled hBar
  rw [← hOld, hSame, hTarget, Option.some.injEq] at hLookup
  exact absurd (hLookup.trans hDate) hLess.ne'

/-- On the date of a change there is its event, and none of other contracts. -/
theorem Built.change (h : Built perContractBars rollCalendar series rollTarget first rest flags)
    (hFiled : Filed perContractBars) (hChain : series.bars.IsChain (ChangesOnTarget rollTarget)) :
    series.bars.IsChain fun prev bar => bar.contract ≠ prev.contract →
      (∃ event ∈ series.rollEvents, event.rollDate = bar.ts.date) ∧
        ∀ event ∈ series.rollEvents, event.rollDate = bar.ts.date →
          event.oldContract = prev.contract ∧ event.newContract = bar.contract := by
  have hChanges := transitions_changes h.walked (h.bars ▸ hChain)
  rw [← h.bars] at hChanges
  refine hChanges.imp_of_mem_imp fun prev bar hPrev hBar hStep hNe => ?_
  obtain ⟨hTarget, hSome⟩ := hStep hNe
  refine ⟨hSome, fun event hEvent hDate => ?_⟩
  obtain ⟨p, hp, q, hq, hLookup, hOld, hNew, hOn⟩ := transitions_events h.walked event hEvent
  rw [← h.bars] at hp hq
  have hqDate : q.ts.date = bar.ts.date := (hOn (h.bars ▸ hChain)).trans hDate
  obtain ⟨tq, hqTarget, hqLess⟩ := h.mem_bars hFiled hq
  obtain ⟨tb, hbTarget, hbLess⟩ := h.mem_bars hFiled hBar
  obtain ⟨tp, hpTarget, hpLess⟩ := h.mem_bars hFiled hp
  obtain ⟨tv, hvTarget, hvLess⟩ := h.mem_bars hFiled hPrev
  have htp : tp = bar.ts.date := Option.some.inj (hpTarget.symm.trans (hDate ▸ hLookup))
  have htv : tv = bar.ts.date := Option.some.inj (hvTarget.symm.trans hTarget)
  constructor
  · -- two contracts with bars do not share a target
    rw [hOld]
    by_contra hDiffer
    rcases h.separated hFiled hp hPrev hDiffer hpTarget hvTarget with hLe | hLe
    · exact absurd (htp ▸ hLe) (not_le.mpr (htv ▸ hvLess))
    · exact absurd (htv ▸ hLe) (not_le.mpr (htp ▸ hpLess))
  · -- one date lies in one window
    rw [hNew]
    by_contra hDiffer
    rcases h.separated hFiled hq hBar hDiffer hqTarget hbTarget with hLe | hLe
    · exact absurd (hqDate ▸ hLe) (not_le.mpr hqLess)
    · exact absurd (hqDate.symm ▸ hLe) (not_le.mpr hbLess)

end Built

end ContinuousSeriesBuilder

/-! ## Two months of crude -/

def dailyRaw (contract : ContractSymbol) (date : Date) (price : ℚ) : RawBar where
  contract := contract
  ts := .utcMidnight date
  resolution := .day1
  openPrice := price
  high := price
  low := price
  close := price
  volume := 100
  oi := none
  sourceId := "databento"
  asOfIso := .utcMidnight date
  contentBytesSha := String.ofList (List.replicate sha256HexLength '0')
  ts_aware := DateTime.utcMidnight_aware date
  as_of_aware := DateTime.utcMidnight_aware date
  low_le_high := le_rfl
  volume_nonneg := by decide
  oi_nonneg := no_open_interest
  sha_length := length_zeros

/-- January rolls on December 12; February's first bar in its window is on the given day. -/
def twoMonths (firstFebruary : Date) : Dict ContractSymbol (List RawBar) :=
  .ofList [("CLF26", [dailyRaw "CLF26" .dec10 75, dailyRaw "CLF26" .dec11 75]),
    ("CLG26", [dailyRaw "CLG26" firstFebruary 76])]

def rollEntry (front back : ContractSymbol) (target : Date) : RollCalendarEntry where
  frontSymbol := front
  backSymbol := back
  ltdDate := target
  rollTarget := target
  rollDeadline := target
  target_le := le_rfl
  deadline_le := le_rfl

def crudeCalendar : RollCalendar :=
  staticRollCalendar [rollEntry "CLF26" "CLG26" .dec12,
    rollEntry "CLG26" "CLH26" (.of 2026 1 14)]

end Futur3.Data
