import Futur3.Data.Splice
import Mathlib.Tactic.FieldSimp
import Mathlib.Tactic.NormNum

/-! # Ratio-adjusted closes

The research view of a continuous series: every close is scaled by the ratios of
the rolls that come after it. The factors are built from the last segment back and
used from the first one on, a flag opening the next segment.
-/

namespace Futur3.Data

open Prelude ContinuousSeriesBuilder

inductive AdjustError where
  -- `decimal.DivisionByZero` of `back_settle / front_settle`, `InvalidOperation` where both are zero
  | zeroFrontSettle
  -- IndexError of `factors[segment]`
  | indexError
deriving DecidableEq

namespace ContinuousSeries

def ratio (event : RollEvent) : Except AdjustError ℚ :=
  if event.frontSettle = 0 then throw .zeroFrontSettle
  else pure (event.backSettle / event.frontSettle)

/-- The loop over the segments, from the last one back: one factor more than ratios. -/
def factors (ratios : List ℚ) : List ℚ := ratios.scanr (fun ratio factor => factor * ratio) 1

def adjustFrom (factors : List ℚ) : ℕ → List RawBar → List Bool → Except AdjustError (List ℚ)
  | segment, bar :: bars, flag :: flags =>
    let segment := if flag then segment + 1 else segment
    match factors[segment]? with
    | none => throw .indexError
    | some factor => do
      let adjusted ← adjustFrom factors segment bars flags
      pure (bar.close * factor :: adjusted)
  | _, _, _ => pure []

def ratioAdjustedCloses (series : ContinuousSeries) : Except AdjustError (List ℚ) := do
  let ratios ← series.rollEvents.mapM ratio
  adjustFrom (factors ratios) 0 series.bars series.rollFlags

/-! ## Factors -/

@[simp] theorem length_factors (ratios : List ℚ) : (factors ratios).length = ratios.length + 1 := by
  simp [factors]

theorem factors_cons (ratio : ℚ) (ratios : List ℚ) :
    ∃ next rest, factors ratios = next :: rest ∧
      factors (ratio :: ratios) = next * ratio :: next :: rest := by
  cases ratios with
  | nil => exact ⟨1, [], by simp [factors], by simp [factors]⟩
  | cons later ratios => exact ⟨_, _, by rw [factors, List.scanr_cons], by simp [factors]⟩

theorem factors_last (ratios : List ℚ) : (factors ratios)[ratios.length]? = some 1 := by
  induction ratios with
  | nil => simp [factors]
  | cons ratio ratios ih =>
    obtain ⟨next, rest, hFactors, hCons⟩ := factors_cons ratio ratios
    rw [hCons, ← hFactors, List.length_cons, List.getElem?_cons_succ, ih]

theorem factors_step {ratios : List ℚ} {k : ℕ} {ratio : ℚ} (h : ratios[k]? = some ratio) :
    ∃ factor, (factors ratios)[k + 1]? = some factor ∧
      (factors ratios)[k]? = some (factor * ratio) := by
  induction ratios generalizing k with
  | nil => cases h
  | cons first ratios ih =>
    obtain ⟨next, rest, hFactors, hCons⟩ := factors_cons first ratios
    cases k with
    | zero =>
      obtain rfl := Option.some.inj h
      exact ⟨next, by rw [hCons]; rfl, by rw [hCons]; rfl⟩
    | succ k =>
      obtain ⟨factor, hAfter, hBefore⟩ := ih h
      rw [hCons, ← hFactors, List.getElem?_cons_succ, List.getElem?_cons_succ]
      exact ⟨factor, hAfter, hBefore⟩

theorem factors_ne_zero {ratios : List ℚ} (h : ∀ ratio ∈ ratios, ratio ≠ 0) :
    ∀ factor ∈ factors ratios, factor ≠ 0 := by
  induction ratios with
  | nil => simp [factors]
  | cons ratio ratios ih =>
    obtain ⟨next, rest, hFactors, hCons⟩ := factors_cons ratio ratios
    obtain ⟨hRatio, hRatios⟩ := List.forall_mem_cons.mp h
    have hLater := ih hRatios
    rw [hFactors] at hLater
    rw [hCons, List.forall_mem_cons]
    exact ⟨mul_ne_zero (hLater next List.mem_cons_self) hRatio, hLater⟩

/-! ## Segments -/

/-- The segment of the `j`-th bar: the flags up to it. -/
def segmentAt (flags : List Bool) (j : ℕ) : ℕ := (flags.take (j + 1)).count true

theorem segmentAt_succ {flags : List Bool} {j : ℕ} {flag : Bool} (h : flags[j + 1]? = some flag) :
    segmentAt flags (j + 1) = if flag then segmentAt flags j + 1 else segmentAt flags j := by
  rw [segmentAt, List.take_add_one, h, List.count_append, segmentAt]
  cases flag <;> simp

/-- The loop scales every bar by the factor of its segment. -/
theorem adjustFrom_ok (factors : List ℚ) (segment : ℕ) {bars : List RawBar} {flags : List Bool}
    (hLength : bars.length = flags.length) (hSegments : segment + flags.count true < factors.length) :
    ∃ adjusted, adjustFrom factors segment bars flags = .ok adjusted ∧
      adjusted.length = bars.length ∧
      ∀ j bar, bars[j]? = some bar → ∃ factor,
        factors[segment + segmentAt flags j]? = some factor ∧
          adjusted[j]? = some (bar.close * factor) := by
  induction bars generalizing segment flags with
  | nil => exact ⟨[], by cases flags <;> rfl, rfl, by simp⟩
  | cons first bars ih =>
    cases flags with
    | nil => cases hLength
    | cons flag flags =>
      have hNext : (if flag then segment + 1 else segment) + flags.count true < factors.length := by
        cases flag with
        | false => simpa using hSegments
        | true => simpa [add_assoc, add_comm 1] using hSegments
      obtain ⟨adjusted, hRest, hCount, hScaled⟩ := ih _ (by simpa using hLength) hNext
      have hFactor : (if flag then segment + 1 else segment) < factors.length := by omega
      refine ⟨first.close * factors[if flag then segment + 1 else segment] :: adjusted, ?_,
        by simp [hCount], ?_⟩
      · simp only [adjustFrom, List.getElem?_eq_getElem hFactor, hRest]
        rfl
      · intro j bar hBar
        cases j with
        | zero =>
          obtain rfl := Option.some.inj hBar
          refine ⟨factors[if flag then segment + 1 else segment], ?_, rfl⟩
          rw [← List.getElem?_eq_getElem hFactor]
          cases flag <;> rfl
        | succ j =>
          obtain ⟨factor, hAt, hAdjusted⟩ := hScaled j bar hBar
          refine ⟨factor, ?_, hAdjusted⟩
          rw [← hAt]
          cases flag
          · simp [segmentAt]
          · congr 1
            simp [segmentAt]
            omega

theorem segmentAt_last {flags : List Bool} {j : ℕ} (h : ∀ i, j < i → flags[i]? ≠ some true) :
    segmentAt flags j = flags.count true := by
  have hLater : (flags.drop (j + 1)).count true = 0 := by
    rw [List.count_eq_zero]
    intro hMem
    obtain ⟨i, hi⟩ := List.mem_iff_getElem?.mp hMem
    rw [List.getElem?_drop] at hi
    exact h (j + 1 + i) (by omega) hi
  rw [segmentAt, ← Nat.add_zero (List.count true _), ← hLater, ← List.count_append,
    List.take_append_drop]

/-! ## Returns -/

structure NonZero (series : ContinuousSeries) : Prop where
  closes : ∀ bar ∈ series.bars, bar.close ≠ 0
  settles : ∀ event ∈ series.rollEvents, event.frontSettle ≠ 0 ∧ event.backSettle ≠ 0

structure InARow (series : ContinuousSeries) (adjusted : List ℚ) (j : ℕ) (before after : RawBar)
    (a b : ℚ) : Prop where
  before : series.bars[j]? = some before
  after : series.bars[j + 1]? = some after
  adjusted_before : adjusted[j]? = some a
  adjusted_after : adjusted[j + 1]? = some b

/-- The adjusted return over a roll is the one over its two settles. -/
def AdjustsRolls (series : ContinuousSeries) (adjusted : List ℚ) : Prop :=
  ∀ j before after a b event, InARow series adjusted j before after a b →
    series.rollFlags[j + 1]? = some true →
    series.rollEvents[segmentAt series.rollFlags j]? = some event →
      b / a = after.close / event.backSettle * (event.frontSettle / before.close)

/-- Between two flags the returns are the raw ones, and from the last flag on the closes are. -/
structure AdjustsSegments (series : ContinuousSeries) (adjusted : List ℚ) : Prop where
  length : adjusted.length = series.bars.length
  within : ∀ j before after a b, InARow series adjusted j before after a b →
    series.rollFlags[j + 1]? = some false → b / a = after.close / before.close
  rolls : AdjustsRolls series adjusted
  last : ∀ (j : ℕ) (bar : RawBar), series.bars[j]? = some bar → (∀ i, j < i → series.rollFlags[i]? ≠ some true) →
    adjusted[j]? = some bar.close

/-- Within a contract the returns are the raw ones, and the last contract's closes are. -/
structure AdjustsContracts (series : ContinuousSeries) (adjusted : List ℚ) : Prop where
  length : adjusted.length = series.bars.length
  within : ∀ j before after a b, InARow series adjusted j before after a b →
    before.contract = after.contract → b / a = after.close / before.close
  rolls : AdjustsRolls series adjusted
  last : ∀ (j : ℕ) (bar : RawBar), series.bars[j]? = some bar →
    bar.contract = (series.bars.getLast series.bars_ne_nil).contract → adjusted[j]? = some bar.close

/-- The flags are the changes of contract, and no bar of another contract follows the last one's. -/
structure FlagsContracts (series : ContinuousSeries) : Prop where
  flags : series.rollFlags = false ::
    List.zipWith (fun prev bar => decide (bar.contract ≠ prev.contract)) series.bars series.bars.tail
  stays : ∀ (i j : ℕ) (bar later : RawBar), i ≤ j → series.bars[i]? = some bar → series.bars[j]? = some later →
    bar.contract = (series.bars.getLast series.bars_ne_nil).contract → later.contract = bar.contract

theorem mapM_ratio {events : List RollEvent} (h : ∀ event ∈ events, event.frontSettle ≠ 0) :
    events.mapM ratio = .ok (events.map fun event => event.backSettle / event.frontSettle) := by
  rw [except_mapM_ok_iff, List.map_map]
  exact List.map_congr_left fun event hEvent => if_neg (h event hEvent)

def ScaledBy (series : ContinuousSeries) (factors adjusted : List ℚ) : Prop :=
  ∀ (j : ℕ) (bar : RawBar), series.bars[j]? = some bar → ∃ factor,
    factors[segmentAt series.rollFlags j]? = some factor ∧ adjusted[j]? = some (bar.close * factor)

theorem ScaledBy.return {series : ContinuousSeries} {factors adjusted : List ℚ}
    (h : ScaledBy series factors adjusted) {j : ℕ} {before after : RawBar} {a b : ℚ}
    (hRow : InARow series adjusted j before after a b) : ∃ factor factor',
      factors[segmentAt series.rollFlags j]? = some factor ∧
        factors[segmentAt series.rollFlags (j + 1)]? = some factor' ∧
        b / a = after.close * factor' / (before.close * factor) := by
  obtain ⟨factor, hAt, hBefore⟩ := h j before hRow.before
  obtain ⟨factor', hAt', hAfter⟩ := h (j + 1) after hRow.after
  refine ⟨factor, factor', hAt, hAt', ?_⟩
  rw [Option.some.inj (hRow.adjusted_before.symm.trans hBefore),
    Option.some.inj (hRow.adjusted_after.symm.trans hAfter)]

/-- Without a flag the segment is the same, and so is the factor. -/
theorem ScaledBy.within {series : ContinuousSeries} {factors adjusted : List ℚ}
    (h : ScaledBy series factors adjusted) (hNeZero : ∀ factor ∈ factors, factor ≠ 0) {j : ℕ}
    {before after : RawBar} {a b : ℚ} (hRow : InARow series adjusted j before after a b)
    (hFlag : series.rollFlags[j + 1]? = some false) : b / a = after.close / before.close := by
  obtain ⟨factor, factor', hAt, hAt', hReturn⟩ := h.return hRow
  rw [segmentAt_succ hFlag] at hAt'
  obtain rfl := Option.some.inj (hAt.symm.trans hAt')
  rw [hReturn]
  exact mul_div_mul_right _ _ (hNeZero factor (List.mem_of_getElem? hAt))

/-- The factors on the two sides of a roll differ by its ratio. -/
theorem ScaledBy.rolls {series : ContinuousSeries} {ratios adjusted : List ℚ}
    (h : ScaledBy series (factors ratios) adjusted)
    (hNeZero : ∀ factor ∈ factors ratios, factor ≠ 0) {j : ℕ} {before after : RawBar} {a b ratio : ℚ}
    (hRow : InARow series adjusted j before after a b)
    (hFlag : series.rollFlags[j + 1]? = some true)
    (hRatio : ratios[segmentAt series.rollFlags j]? = some ratio) :
    b / a = after.close / (before.close * ratio) := by
  obtain ⟨factor, factor', hAt, hAt', hReturn⟩ := h.return hRow
  rw [segmentAt_succ hFlag] at hAt'
  obtain ⟨next, hNext, hScale⟩ := factors_step hRatio
  obtain rfl := Option.some.inj (hNext.symm.trans hAt')
  obtain rfl := Option.some.inj (hScale.symm.trans hAt)
  rw [hReturn, mul_comm next ratio, ← mul_assoc]
  exact mul_div_mul_right _ _ (hNeZero next (List.mem_of_getElem? hNext))

theorem adjustsSegments (series : ContinuousSeries) (h : NonZero series) :
    ∃ adjusted, series.ratioAdjustedCloses = .ok adjusted ∧ AdjustsSegments series adjusted := by
  set ratios := series.rollEvents.map fun event => event.backSettle / event.frontSettle with hRatios
  have hCount : ratios.length = series.rollFlags.count true := by
    rw [hRatios, List.length_map, series.events_length]
  have hNeZero : ∀ factor ∈ factors ratios, factor ≠ 0 := by
    apply factors_ne_zero
    intro ratio hRatio
    obtain ⟨event, hEvent, rfl⟩ := List.mem_map.mp hRatio
    exact div_ne_zero (h.settles event hEvent).2 (h.settles event hEvent).1
  obtain ⟨adjusted, hAdjust, hLength, hSegments⟩ := adjustFrom_ok (factors ratios) 0
    series.flags_length (by rw [length_factors, hCount]; omega)
  simp only [Nat.zero_add] at hSegments
  have hScaled : ScaledBy series (factors ratios) adjusted := hSegments
  refine ⟨adjusted, ?_, hLength, fun j before after a b => hScaled.within hNeZero, ?_, ?_⟩
  · unfold ratioAdjustedCloses
    rw [mapM_ratio fun event hEvent => (h.settles event hEvent).1]
    exact hAdjust
  · intro j before after a b event hRow hFlag hEvent
    have hRatio : ratios[segmentAt series.rollFlags j]? =
        some (event.backSettle / event.frontSettle) := by
      rw [hRatios, List.getElem?_map, hEvent]
      rfl
    obtain ⟨hFront, hBack⟩ := h.settles event (List.mem_of_getElem? hEvent)
    have hClose := h.closes before (List.mem_of_getElem? hRow.before)
    rw [hScaled.rolls hNeZero hRow hFlag hRatio]
    field_simp
  · intro j bar hBar hLast
    obtain ⟨factor, hAt, hAdjusted⟩ := hScaled j bar hBar
    rw [segmentAt_last hLast, ← hCount, factors_last] at hAt
    rw [hAdjusted, ← Option.some.inj hAt, mul_one]

theorem FlagsContracts.flag {series : ContinuousSeries} (h : FlagsContracts series) {j : ℕ}
    {before after : RawBar} (hBefore : series.bars[j]? = some before)
    (hAfter : series.bars[j + 1]? = some after) :
    series.rollFlags[j + 1]? = some (decide (after.contract ≠ before.contract)) := by
  rw [h.flags, List.getElem?_cons_succ, List.getElem?_zipWith, hBefore, List.getElem?_tail, hAfter]

theorem AdjustsSegments.contracts {series : ContinuousSeries} {adjusted : List ℚ}
    (h : AdjustsSegments series adjusted) (hFlags : FlagsContracts series) :
    AdjustsContracts series adjusted where
  length := h.length
  within := by
    intro j before after a b hRow hSame
    refine h.within j before after a b hRow ?_
    rw [hFlags.flag hRow.before hRow.after]
    simp [hSame]
  rolls := h.rolls
  last := by
    intro j bar hBar hLast
    refine h.last j bar hBar fun i hLater hFlag => ?_
    -- the flagged bar and the one before it are both of the last contract
    obtain ⟨i, rfl⟩ := Nat.exists_eq_succ_of_ne_zero (by omega : i ≠ 0)
    have hBound : i + 1 < series.bars.length := by
      rw [series.flags_length]
      exact (List.getElem?_eq_some_iff.mp hFlag).1
    have hBefore := List.getElem?_eq_getElem (by omega : i < series.bars.length)
    have hAfter := List.getElem?_eq_getElem hBound
    have hSame : series.bars[i + 1].contract = series.bars[i].contract :=
      (hFlags.stays j (i + 1) bar _ (by omega) hBar hAfter hLast).trans
        (hFlags.stays j i bar _ (by omega) hBar hBefore hLast).symm
    rw [Nat.succ_eq_add_one, hFlags.flag hBefore hAfter] at hFlag
    simp [hSame] at hFlag

/-! ## Built series -/

/-- The contracts of the splice come in the order of the chain. -/
theorem splice_ordered {perContractBars : Dict ContractSymbol (List RawBar)}
    (hFiled : Filed perContractBars) {chain : List (ContractSymbol × Date)}
    (hNodup : (chain.map Prod.fst).Nodup) (start : Option Date) :
    (splice perContractBars start chain).Pairwise fun a b =>
      (chain.map Prod.fst).idxOf a.contract ≤ (chain.map Prod.fst).idxOf b.contract := by
  induction chain generalizing start with
  | nil => exact .nil
  | cons entry rest ih =>
    obtain ⟨front, target⟩ := entry
    obtain ⟨hFresh, hNodupRest⟩ := List.nodup_cons.mp hNodup
    have hOwn : ∀ bar ∈ window ((perContractBars.get? front).getD []) start target,
        ((front :: rest.map Prod.fst).idxOf bar.contract) = 0 := by
      intro bar hBar
      rw [(hFiled.mem_window hBar).1, List.idxOf_cons_self]
    have hLater : ∀ bar ∈ splice perContractBars (some target) rest,
        (front :: rest.map Prod.fst).idxOf bar.contract =
          (rest.map Prod.fst).idxOf bar.contract + 1 := by
      intro bar hBar
      obtain ⟨stop, hMem, -⟩ := mem_splice hFiled hBar
      have hName : bar.contract ∈ rest.map Prod.fst := List.mem_map_of_mem (f := Prod.fst) hMem
      exact List.idxOf_cons_ne _ fun hEq => hFresh (hEq ▸ hName)
    rw [splice, List.map_cons]
    refine List.pairwise_append.mpr ⟨?_, ?_, ?_⟩
    · refine List.pairwise_of_forall_mem_list fun a ha b hb => ?_
      rw [hOwn a ha, hOwn b hb]
    · refine (ih hNodupRest (some target)).imp_of_mem fun {a b} ha hb hLe => ?_
      rw [hLater a ha, hLater b hb]
      exact Nat.succ_le_succ hLe
    · intro a ha b hb
      rw [hOwn a ha]
      exact Nat.zero_le _

/-- Every series built from bars filed under their own contracts. -/
theorem build_flagsContracts {perContractBars : Dict ContractSymbol (List RawBar)}
    (hFiled : Filed perContractBars) {rollCalendar : RollCalendar} {root : String}
    {series : ContinuousSeries} (h : build perContractBars rollCalendar root = .ok series) :
    FlagsContracts series := by
  obtain ⟨rollTarget, first, rest, flags, hBuilt⟩ := build_ok h
  refine ⟨hBuilt.flags_changes, ?_⟩
  have hPerm : (chain rollTarget).Perm rollTarget := List.perm_insertionSort _ _
  have hNodup : ((chain rollTarget).map Prod.fst).Nodup :=
    (hPerm.map Prod.fst).nodup_iff.mpr hBuilt.nodup
  have hOrdered := splice_ordered hFiled hNodup none
  rw [hBuilt.spliced, ← hBuilt.bars] at hOrdered
  have hLe : ∀ (i j : ℕ) (bar later : RawBar), i ≤ j → series.bars[i]? = some bar →
      series.bars[j]? = some later → ((chain rollTarget).map Prod.fst).idxOf bar.contract ≤
        ((chain rollTarget).map Prod.fst).idxOf later.contract := by
    intro i j bar later hij hBar hLater
    rcases hij.eq_or_lt with rfl | hLess
    · rw [Option.some.inj (hBar.symm.trans hLater)]
    · obtain ⟨hi, rfl⟩ := List.getElem?_eq_some_iff.mp hBar
      obtain ⟨hj, rfl⟩ := List.getElem?_eq_some_iff.mp hLater
      exact List.pairwise_iff_getElem.mp hOrdered i j hi hj hLess
  intro i j bar later hij hBar hLater hLast
  have hMem : later.contract ∈ (chain rollTarget).map Prod.fst := by
    have hSpliced : later ∈ splice perContractBars none (chain rollTarget) := by
      rw [hBuilt.spliced, ← hBuilt.bars]
      exact List.mem_of_getElem? hLater
    obtain ⟨target, hTarget, -⟩ := mem_splice hFiled hSpliced
    exact List.mem_map_of_mem hTarget
  have hEnd : series.bars[series.bars.length - 1]? =
      some (series.bars.getLast series.bars_ne_nil) := by
    rw [← List.getLast?_eq_getElem?, List.getLast?_eq_some_getLast series.bars_ne_nil]
  have hBound := (List.getElem?_eq_some_iff.mp hLater).1
  have hAfter := hLe j (series.bars.length - 1) later _ (by omega) hLater hEnd
  have hBefore := hLe i j bar later hij hBar hLater
  rw [← hLast] at hAfter
  exact (List.idxOf_inj hMem).mp (le_antisymm hAfter hBefore)

/-! ## The adjusted series -/

/-- Ratio adjustment keeps the returns between flags, and those within contracts where the flags
tell the contracts apart, as they do in every built series. -/
theorem ratioAdjusted_returns (series : ContinuousSeries) (h : NonZero series) :
    ∃ adjusted, series.ratioAdjustedCloses = .ok adjusted ∧ AdjustsSegments series adjusted ∧
      (FlagsContracts series → AdjustsContracts series adjusted) ∧
      ∀ perContractBars rollCalendar root, Filed perContractBars →
        build perContractBars rollCalendar root = .ok series → AdjustsContracts series adjusted := by
  obtain ⟨adjusted, hAdjust, hSegments⟩ := adjustsSegments series h
  refine ⟨adjusted, hAdjust, hSegments, hSegments.contracts, ?_⟩
  intro perContractBars rollCalendar root hFiled hBuild
  exact hSegments.contracts (build_flagsContracts hFiled hBuild)

def flaggedInside : Except ContinuousSeriesError ContinuousSeries :=
  create "CL" [dailyRaw "CLF26" .dec10 75, dailyRaw "CLF26" .dec11 75]
    [{ rollDate := .dec11, oldContract := "CLF26", newContract := "CLG26", frontSettle := 75
       backSettle := 76, rollGap := 76 - 75, gap_eq := rfl }] [false, true]

/-- A flag inside a contract bends the return over it. -/
theorem flaggedInside_bends : ∃ series adjusted, flaggedInside = .ok series ∧ NonZero series ∧
    series.ratioAdjustedCloses = .ok adjusted ∧ ¬AdjustsContracts series adjusted := by
  obtain ⟨series, hCreate, hTest⟩ := except_exists_ok
    (show flaggedInside.toOption.any (fun series => series.ratioAdjustedCloses.toOption.any
      fun adjusted => decide ((∀ bar ∈ series.bars, bar.close ≠ 0) ∧
        (∀ event ∈ series.rollEvents, event.frontSettle ≠ 0 ∧ event.backSettle ≠ 0) ∧
        adjusted = [76, 75])) = true by decide +kernel)
  obtain ⟨adjusted, hAdjust, hValues⟩ := except_exists_ok hTest
  obtain ⟨hCloses, hSettles, rfl⟩ := of_decide_eq_true hValues
  refine ⟨series, _, hCreate, ⟨hCloses, hSettles⟩, hAdjust, fun h => ?_⟩
  obtain ⟨hBars, -, -⟩ := ContinuousSeries.create_ok hCreate
  have hReturn := h.within 0 (dailyRaw "CLF26" .dec10 75) (dailyRaw "CLF26" .dec11 75) 76 75
    ⟨by rw [hBars]; rfl, by rw [hBars]; rfl, rfl, rfl⟩ rfl
  exact absurd hReturn (by norm_num [dailyRaw])

theorem ratioAdjusted_returns_twoMonths : ∃ series adjusted,
    build (twoMonths .dec12) crudeCalendar "CL" = .ok series ∧ NonZero series ∧
      series.ratioAdjustedCloses = .ok adjusted ∧ AdjustsContracts series adjusted := by
  obtain ⟨series, hBuild, hTest⟩ := except_exists_ok
    (show (build (twoMonths .dec12) crudeCalendar "CL").toOption.any (fun series =>
      decide ((∀ bar ∈ series.bars, bar.close ≠ 0) ∧
        ∀ event ∈ series.rollEvents, event.frontSettle ≠ 0 ∧ event.backSettle ≠ 0)) = true by
      decide +kernel)
  obtain ⟨hCloses, hSettles⟩ := of_decide_eq_true hTest
  have hFiled : Filed (twoMonths .dec12) := filed_iff.mpr (by decide +kernel)
  obtain ⟨adjusted, hAdjust, -, -, hBuilt⟩ := ratioAdjusted_returns series ⟨hCloses, hSettles⟩
  exact ⟨series, adjusted, hBuild, ⟨hCloses, hSettles⟩, hAdjust,
    hBuilt (twoMonths .dec12) crudeCalendar "CL" hFiled hBuild⟩

end ContinuousSeries

end Futur3.Data
