import Futur3.Data.ContinuousSpec

/-! # The splice is the active windows

A built series holds, for each contract of the chain, the bars that fall between
the target of its predecessor and its own, and nothing else. Its flags and roll
events are the changes of contract.
-/

namespace Futur3.Data

open Prelude

namespace ContinuousSeriesBuilder

/-- The active window of a contract: from its predecessor's target, if it has one, to its own. -/
def activeSpan (c : ContractSymbol) :
    Option Date → List (ContractSymbol × Date) → Option (Option Date × Date)
  | _, [] => none
  | start, (front, target) :: rest =>
    if front = c then some (start, target) else activeSpan c (some target) rest

def barsIn (perContractBars : Dict ContractSymbol (List RawBar)) (c : ContractSymbol) :
    Option (Option Date × Date) → List RawBar
  | none => []
  | some (start, stop) =>
    ((perContractBars.get? c).getD []).filter fun bar => inWindow bar.ts.date start stop

/-- Each bar whose contract is not that of the bar before, after that bar. -/
def contractChanges (bars : List RawBar) : List (RawBar × RawBar) :=
  (bars.zip bars.tail).filter fun pair => pair.2.contract ≠ pair.1.contract

/-- An event of a change: dated the target of the contract it leaves. -/
structure IsRoll (rollTarget : List (ContractSymbol × Date)) (pair : RawBar × RawBar)
    (event : RollEvent) : Prop where
  date : Dict.lookup pair.1.contract rollTarget = some event.rollDate
  old : event.oldContract = pair.1.contract
  new : event.newContract = pair.2.contract

/-- The series is made of the active windows of the contracts in roll order. -/
structure SplicedFrom (perContractBars : Dict ContractSymbol (List RawBar))
    (rollTarget : List (ContractSymbol × Date)) (series : ContinuousSeries) : Prop where
  bars : ∀ c, (series.bars.filter fun bar => bar.contract = c).Perm
    (barsIn perContractBars c (activeSpan c none (chain rollTarget)))
  increasing : series.bars.Pairwise fun a b => a.ts.instant < b.ts.instant
  one_contract : ∀ b ∈ series.bars, ∀ b' ∈ series.bars, b.ts.date = b'.ts.date →
    b.contract = b'.contract
  flags : series.rollFlags = false ::
    List.zipWith (fun prev bar => decide (bar.contract ≠ prev.contract)) series.bars series.bars.tail
  events : List.Forall₂ (IsRoll rollTarget) (contractChanges series.bars) series.rollEvents

/-! ## The bars of one contract -/

theorem activeSpan_of_not_mem {c : ContractSymbol} {chain : List (ContractSymbol × Date)}
    (h : c ∉ chain.map Prod.fst) (start : Option Date) : activeSpan c start chain = none := by
  induction chain generalizing start with
  | nil => rfl
  | cons entry rest ih =>
    rw [List.map_cons, List.mem_cons, not_or] at h
    rw [activeSpan, if_neg (Ne.symm h.1), ih h.2]

theorem splice_filter {perContractBars : Dict ContractSymbol (List RawBar)}
    (hFiled : Filed perContractBars) {chain : List (ContractSymbol × Date)}
    (hNodup : (chain.map Prod.fst).Nodup) (start : Option Date) (c : ContractSymbol) :
    ((splice perContractBars start chain).filter fun bar => bar.contract = c).Perm
      (barsIn perContractBars c (activeSpan c start chain)) := by
  induction chain generalizing start with
  | nil => exact .nil
  | cons entry rest ih =>
    obtain ⟨front, target⟩ := entry
    obtain ⟨hFresh, hNodupRest⟩ := List.nodup_cons.mp hNodup
    rw [splice, activeSpan, List.filter_append]
    have hOwn : ∀ bar ∈ window ((perContractBars.get? front).getD []) start target,
        bar.contract = front := fun bar hBar => (hFiled.mem_window hBar).1
    by_cases hFront : front = c
    · subst hFront
      have hLater := ih hNodupRest (some target)
      rw [activeSpan_of_not_mem hFresh] at hLater
      rw [if_pos rfl, hLater.eq_nil, List.append_nil, List.filter_eq_self.mpr (by simpa using hOwn)]
      exact List.perm_insertionSort _ _
    · have hNone : (window ((perContractBars.get? front).getD []) start target).filter
          (fun bar => bar.contract = c) = [] := by
        apply List.filter_eq_nil_iff.mpr
        intro bar hBar
        simp [hOwn bar hBar, hFront]
      rw [if_neg hFront, hNone, List.nil_append]
      exact ih hNodupRest (some target)

/-! ## The changes of contract -/

theorem contractChanges_cons (prev bar : RawBar) (rest : List RawBar) :
    contractChanges (prev :: bar :: rest) =
      if bar.contract ≠ prev.contract then (prev, bar) :: contractChanges (bar :: rest)
      else contractChanges (bar :: rest) := by
  simp [contractChanges, List.filter_cons]

theorem transitions_spec {rollTarget : List (ContractSymbol × Date)}
    {perContractBars : Dict ContractSymbol (List RawBar)} {prev : RawBar} {rest : List RawBar}
    {flags : List Bool} {events : List RollEvent}
    (h : transitions rollTarget perContractBars prev rest = .ok (flags, events)) :
    flags = List.zipWith (fun p b => decide (b.contract ≠ p.contract)) (prev :: rest) rest ∧
      List.Forall₂ (IsRoll rollTarget) (contractChanges (prev :: rest)) events := by
  induction rest generalizing prev flags events with
  | nil =>
    rw [transitions, except_pure_ok_iff, Prod.mk.injEq] at h
    obtain ⟨rfl, rfl⟩ := h
    exact ⟨rfl, .nil⟩
  | cons bar rest ih =>
    have hChanges := contractChanges_cons prev bar rest
    obtain ⟨flags', events', hRest, ⟨hSame, rfl, rfl⟩ | ⟨event, hChange, rfl, rfl, hDate, hOld, hNew⟩⟩ :=
      transitions_cons_ok h
    · obtain ⟨hFlags, hEvents⟩ := ih hRest
      rw [hChanges, if_neg (not_not.mpr hSame)]
      exact ⟨by simp [hFlags, hSame], hEvents⟩
    · obtain ⟨hFlags, hEvents⟩ := ih hRest
      rw [hChanges, if_pos hChange]
      exact ⟨by simp [hFlags, hChange], .cons ⟨hDate, hOld, hNew⟩ hEvents⟩

section Built

variable {perContractBars : Dict ContractSymbol (List RawBar)} {rollCalendar : RollCalendar}
  {series : ContinuousSeries} {rollTarget : List (ContractSymbol × Date)} {first : RawBar}
  {rest : List RawBar} {flags : List Bool}

theorem Built.one_contract
    (h : Built perContractBars rollCalendar series rollTarget first rest flags)
    (hFiled : Filed perContractBars) {b b' : RawBar} (hb : b ∈ series.bars) (hb' : b' ∈ series.bars)
    (hDate : b.ts.date = b'.ts.date) : b.contract = b'.contract := by
  by_contra hNe
  obtain ⟨t, ht, hLess⟩ := h.mem_bars hFiled hb
  obtain ⟨t', ht', hLess'⟩ := h.mem_bars hFiled hb'
  rcases h.separated hFiled hb hb' hNe ht ht' with hOver | hOver
  · exact absurd (hDate ▸ hLess) (not_lt.mpr hOver)
  · exact absurd (hDate ▸ hLess') (not_lt.mpr hOver)

/-- The flags are the changes of contract, whatever the bars are filed under. -/
theorem Built.flags_changes
    (h : Built perContractBars rollCalendar series rollTarget first rest flags) :
    series.rollFlags = false ::
      List.zipWith (fun prev bar => decide (bar.contract ≠ prev.contract)) series.bars series.bars.tail := by
  rw [h.flags_eq, h.bars, (transitions_spec h.walked).1]
  rfl

theorem Built.splicedFrom
    (h : Built perContractBars rollCalendar series rollTarget first rest flags)
    (hFiled : Filed perContractBars) : SplicedFrom perContractBars rollTarget series := by
  have hPerm : (chain rollTarget).Perm rollTarget := List.perm_insertionSort _ _
  have hNodup : ((chain rollTarget).map Prod.fst).Nodup := (hPerm.map Prod.fst).nodup_iff.mpr h.nodup
  constructor
  · intro c
    rw [h.bars, ← h.spliced]
    exact splice_filter hFiled hNodup none c
  · exact List.isChain_iff_pairwise.mp series.increasing
  · exact fun b hb b' hb' hDate => h.one_contract hFiled hb hb' hDate
  · exact h.flags_changes
  · rw [h.bars]
    exact (transitions_spec h.walked).2

end Built

/-! ## What a build raises -/

def Declared : ContinuousSeriesError → Prop
  | .keyError _ => False
  | _ => True

theorem index_of_lookup {ν : Type} {items : List (ContractSymbol × ν)} {key : ContractSymbol} {v : ν}
    (h : Dict.lookup key items = some v) : index items key = .ok v := index_ok_iff.mpr h

def Tracked (rollTarget : List (ContractSymbol × Date))
    (perContractBars : Dict ContractSymbol (List RawBar)) (c : ContractSymbol) : Prop :=
  (∃ target, Dict.lookup c rollTarget = some target) ∧ ∃ bars, perContractBars.get? c = some bars

section Failures

variable {rollTarget : List (ContractSymbol × Date)}
  {perContractBars : Dict ContractSymbol (List RawBar)} {rollCalendar : RollCalendar}

theorem makeRollEvent_declared {front back : ContractSymbol}
    (hFront : Tracked rollTarget perContractBars front)
    (hBack : Tracked rollTarget perContractBars back) {failure : ContinuousSeriesError}
    (h : makeRollEvent front back rollTarget perContractBars = .error failure) : Declared failure := by
  obtain ⟨⟨target, hTarget⟩, frontBars, hFrontBars⟩ := hFront
  obtain ⟨-, backBars, hBackBars⟩ := hBack
  unfold makeRollEvent at h
  rw [index_of_lookup hTarget, index_of_lookup hFrontBars, index_of_lookup hBackBars] at h
  simp only [except_bind_error_iff, reduceCtorEq, Except.ok.injEq, false_or, exists_eq_left'] at h
  split at h
  · rw [except_throw_error_iff] at h
    subst h
    trivial
  · rw [except_throw_error_iff] at h
    subst h
    trivial
  · cases h

theorem transitions_declared {prev : RawBar} {rest : List RawBar}
    (hTracked : ∀ bar ∈ prev :: rest, Tracked rollTarget perContractBars bar.contract)
    {failure : ContinuousSeriesError}
    (h : transitions rollTarget perContractBars prev rest = .error failure) : Declared failure := by
  induction rest generalizing prev with
  | nil => cases h
  | cons bar rest ih =>
    have hRest : ∀ b ∈ bar :: rest, Tracked rollTarget perContractBars b.contract :=
      fun b hb => hTracked b (List.mem_cons_of_mem _ hb)
    rw [transitions] at h
    split at h
    · rw [except_bind_error_iff] at h
      rcases h with hEvent | ⟨event, -, h⟩
      · exact makeRollEvent_declared (hTracked prev List.mem_cons_self)
          (hRest bar List.mem_cons_self) hEvent
      · rw [except_bind_error_iff] at h
        rcases h with hLater | ⟨_, -, h⟩
        · exact ih hRest hLater
        · cases h
    · rw [except_bind_error_iff] at h
      rcases h with hLater | ⟨_, -, h⟩
      · exact ih hRest hLater
      · cases h

theorem rollTargets_declared {contracts : List ContractSymbol} {failure : ContinuousSeriesError}
    (h : rollTargets rollCalendar contracts = .error failure) : Declared failure := by
  induction contracts with
  | nil => cases h
  | cons c rest ih =>
    rw [rollTargets] at h
    cases hEntry : rollCalendar c with
    | none =>
      rw [hEntry, except_throw_error_iff] at h
      subst h
      trivial
    | some entry =>
      simp only [hEntry, except_bind_error_iff] at h
      rcases h with hLater | ⟨_, -, h⟩
      · exact ih hLater
      · cases h

theorem create_declared {root : String} {bars : List RawBar} {events : List RollEvent}
    {flags : List Bool} {failure : ContinuousSeriesError}
    (h : ContinuousSeries.create root bars events flags = .error failure) : Declared failure := by
  unfold ContinuousSeries.create at h
  split_ifs at h <;> cases h <;> trivial

/-- Every spliced contract has bars and a target. -/
theorem splice_tracked (hFiled : Filed perContractBars)
    (hTargets : rollTargets rollCalendar (present perContractBars) = .ok rollTarget) {bar : RawBar}
    (h : bar ∈ splice perContractBars none (chain rollTarget)) :
    Tracked rollTarget perContractBars bar.contract := by
  obtain ⟨target, hMem, -⟩ := mem_splice hFiled h
  have hEntry := (List.perm_insertionSort _ _).mem_iff.mp hMem
  have hPresent : bar.contract ∈ present perContractBars := by
    rw [← rollTargets_ok hTargets]
    exact List.mem_map_of_mem hEntry
  obtain ⟨⟨c, bars⟩, hItem, hKey⟩ := List.mem_map.mp hPresent
  have hGet := (Dict.mem_items_iff _ c bars).mp (List.mem_filter.mp hItem).1
  exact ⟨Option.isSome_iff_exists.mp (Dict.lookup_isSome_of_mem hEntry), bars, hKey ▸ hGet⟩

theorem build_declared (hFiled : Filed perContractBars) {root : String}
    {failure : ContinuousSeriesError}
    (h : build perContractBars rollCalendar root = .error failure) : Declared failure := by
  simp only [build, except_raise_guard_error_iff] at h
  rcases h with ⟨-, rfl⟩ | ⟨-, h⟩
  · trivial
  split at h
  · rw [except_throw_error_iff] at h
    subst h
    trivial
  rw [except_bind_error_iff] at h
  rcases h with hTargets | ⟨rollTarget, hTargets, h⟩
  · exact rollTargets_declared hTargets
  split at h
  · rw [except_throw_error_iff] at h
    subst h
    trivial
  · rename_i first rest hSpliced
    rw [except_bind_error_iff] at h
    rcases h with hWalk | ⟨_, -, h⟩
    · exact transitions_declared
        (fun bar hBar => splice_tracked hFiled hTargets (hSpliced ▸ hBar)) hWalk
    · exact create_declared h

end Failures

end ContinuousSeriesBuilder

open ContinuousSeriesBuilder

/-- A build raises a declared error, or splices the active windows of the calendar. -/
theorem build_splices {perContractBars : Dict ContractSymbol (List RawBar)}
    (hFiled : Filed perContractBars) (rollCalendar : RollCalendar) (root : String) :
    (∃ failure, build perContractBars rollCalendar root = .error failure ∧ Declared failure) ∨
      ∃ series rollTarget, build perContractBars rollCalendar root = .ok series ∧
        rollTargets rollCalendar (present perContractBars) = .ok rollTarget ∧
        SplicedFrom perContractBars rollTarget series := by
  cases hBuild : build perContractBars rollCalendar root with
  | error failure => exact .inl ⟨failure, rfl, build_declared hFiled hBuild⟩
  | ok series =>
    obtain ⟨rollTarget, first, rest, flags, h⟩ := build_ok hBuild
    exact .inr ⟨series, rollTarget, rfl, h.targets, h.splicedFrom hFiled⟩

theorem build_splices_twoMonths : ∃ series rollTarget,
    build (twoMonths .dec12) crudeCalendar "CL" = .ok series ∧
      rollTargets crudeCalendar (present (twoMonths .dec12)) = .ok rollTarget ∧
      SplicedFrom (twoMonths .dec12) rollTarget series := by
  have hFiled : Filed (twoMonths .dec12) := filed_iff.mpr (by decide +kernel)
  have hTest : (build (twoMonths .dec12) crudeCalendar "CL").toOption.any (fun _ => true) = true := by
    decide +kernel
  obtain ⟨series, hBuild, -⟩ := except_exists_ok hTest
  refine (build_splices hFiled crudeCalendar "CL").resolve_left ?_
  rintro ⟨failure, hError, -⟩
  rw [hBuild] at hError
  cases hError

end Futur3.Data
