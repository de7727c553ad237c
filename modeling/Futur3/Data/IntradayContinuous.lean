import Futur3.Data.RatioAdjusted

/-! # Returns without the rolls

A stream that is already spliced has one contract at a time, so the return over a roll
mixes two of them and is left out. The returns that are kept are those of the
ratio-adjusted series, and no change of the level of a contract moves them.
-/

namespace Futur3.Data

open Prelude ContinuousSeriesBuilder

inductive IntradayContinuousError where
  -- "RollExcludedSeries has no bars"
  | noBars
  -- "bars/roll_flags length mismatch: {bars} != {flags}"
  | flagsLength (bars flags : ℕ)
  -- "roll_flags[0] must be False (first bar starts no roll)"
  | firstFlag
  -- "bars must be strictly increasing in ts; got {prev} >= {cur}"
  | notIncreasing
deriving DecidableEq

/-- `_roll_flags`. -/
def rollFlagsOf : List RawBar → List Bool
  | [] => []
  | first :: rest => false ::
      List.zipWith (fun prev bar => decide (bar.contract ≠ prev.contract)) (first :: rest) rest

structure RollExcludedSeries where
  root : String
  bars : List RawBar
  rollFlags : List Bool
  bars_ne_nil : bars ≠ []
  flags_length : bars.length = rollFlags.length
  first_flag : rollFlags.head? ≠ some true
  increasing : bars.IsChain fun prev cur => prev.ts.instant < cur.ts.instant

namespace RollExcludedSeries

def create (root : String) (bars : List RawBar) (rollFlags : List Bool) :
    Except IntradayContinuousError RollExcludedSeries :=
  if hBars : bars = [] then throw .noBars
  else if hFlags : bars.length = rollFlags.length then
    if hFirst : rollFlags.head? = some true then throw .firstFlag
    else if hIncreasing : bars.IsChain fun prev cur => prev.ts.instant < cur.ts.instant then
      pure { root, bars, rollFlags
             bars_ne_nil := hBars
             flags_length := hFlags
             first_flag := hFirst
             increasing := hIncreasing }
    else throw .notIncreasing
  else throw (.flagsLength bars.length rollFlags.length)

def nRolls (series : RollExcludedSeries) : ℕ := series.rollFlags.count true

/-- The loop of `roll_clean_returns`, after the previous bar. -/
def cleanFrom : RawBar → List RawBar → List Bool → List (Option ℚ)
  | prev, bar :: bars, flag :: flags =>
    (if flag ∨ prev.close = 0 then none else some (bar.close / prev.close - 1)) :: cleanFrom bar bars flags
  | _, _, _ => []

def rollCleanReturns (series : RollExcludedSeries) : List (Option ℚ) :=
  match series.bars, series.rollFlags with
  | first :: bars, _ :: flags => none :: cleanFrom first bars flags
  | _, _ => [none]

end RollExcludedSeries

def buildRollExcludedSeries (root : String) (bars : List RawBar) :
    Except IntradayContinuousError RollExcludedSeries :=
  RollExcludedSeries.create root bars (rollFlagsOf bars)

/-! ## Construction -/

@[simp] theorem length_rollFlagsOf (bars : List RawBar) : (rollFlagsOf bars).length = bars.length := by
  cases bars <;> simp [rollFlagsOf]

/-- The flags are those of the contracts, so only the order of the bars can be wrong. -/
theorem buildRollExcludedSeries_ok {bars : List RawBar} (root : String) (hBars : bars ≠ [])
    (hIncreasing : bars.IsChain fun prev cur => prev.ts.instant < cur.ts.instant) :
    ∃ series, buildRollExcludedSeries root bars = .ok series ∧ series.bars = bars ∧
      series.rollFlags = rollFlagsOf bars := by
  have hFirst : (rollFlagsOf bars).head? ≠ some true := by
    cases bars with
    | nil => exact absurd rfl hBars
    | cons first rest => simp [rollFlagsOf]
  unfold buildRollExcludedSeries RollExcludedSeries.create
  rw [dif_neg hBars, dif_pos (length_rollFlagsOf bars).symm, dif_neg hFirst, dif_pos hIncreasing]
  exact ⟨_, rfl, rfl, rfl⟩

theorem buildRollExcludedSeries_eq {bars : List RawBar} {root : String} {series : RollExcludedSeries}
    (h : buildRollExcludedSeries root bars = .ok series) :
    series.bars = bars ∧ series.rollFlags = rollFlagsOf bars := by
  unfold buildRollExcludedSeries RollExcludedSeries.create at h
  split_ifs at h
  cases h
  exact ⟨rfl, rfl⟩

/-! ## Returns -/

namespace RollExcludedSeries

def keptReturn (flag : Bool) (before after : RawBar) : Option ℚ :=
  if flag ∨ before.close = 0 then none else some (after.close / before.close - 1)

theorem length_cleanFrom (prev : RawBar) {bars : List RawBar} {flags : List Bool} (h : bars.length = flags.length) :
    (cleanFrom prev bars flags).length = bars.length := by
  induction bars generalizing prev flags with
  | nil => cases flags <;> rfl
  | cons bar bars ih =>
    cases flags with
    | nil => cases h
    | cons flag flags => exact congrArg Nat.succ (ih bar (Nat.succ.inj h))

theorem getElem?_cleanFrom {prev : RawBar} {bars : List RawBar} {flags : List Bool} {j : ℕ} {before after : RawBar}
    {flag : Bool} (hBefore : (prev :: bars)[j]? = some before) (hAfter : bars[j]? = some after)
    (hFlag : flags[j]? = some flag) : (cleanFrom prev bars flags)[j]? = some (keptReturn flag before after) := by
  induction j generalizing prev bars flags with
  | zero =>
    cases bars with
    | nil => cases hAfter
    | cons bar bars =>
      cases flags with
      | nil => cases hFlag
      | cons first flags =>
        obtain rfl := Option.some.inj hBefore
        obtain rfl := Option.some.inj hAfter
        obtain rfl := Option.some.inj hFlag
        rfl
  | succ j ih =>
    cases bars with
    | nil => cases hAfter
    | cons bar bars =>
      cases flags with
      | nil => cases hFlag
      | cons first flags => exact ih hBefore hAfter hFlag

theorem length_rollCleanReturns (series : RollExcludedSeries) :
    series.rollCleanReturns.length = series.bars.length := by
  have hBars := series.bars_ne_nil
  have hLength := series.flags_length
  unfold rollCleanReturns
  cases hHere : series.bars with
  | nil => exact absurd hHere hBars
  | cons first bars =>
    rw [hHere] at hLength
    cases hFlags : series.rollFlags with
    | nil =>
      rw [hFlags] at hLength
      cases hLength
    | cons flag flags =>
      rw [hFlags] at hLength
      exact congrArg Nat.succ (length_cleanFrom first (Nat.succ.inj hLength))

theorem getElem?_rollCleanReturns {series : RollExcludedSeries} {j : ℕ} {before after : RawBar} {flag : Bool}
    (hBefore : series.bars[j]? = some before) (hAfter : series.bars[j + 1]? = some after)
    (hFlag : series.rollFlags[j + 1]? = some flag) :
    series.rollCleanReturns[j + 1]? = some (keptReturn flag before after) := by
  unfold rollCleanReturns
  cases hHere : series.bars with
  | nil =>
    rw [hHere] at hAfter
    cases hAfter
  | cons first bars =>
    cases hFlags : series.rollFlags with
    | nil =>
      rw [hFlags] at hFlag
      cases hFlag
    | cons flag' flags =>
      rw [hHere] at hBefore hAfter
      rw [hFlags] at hFlag
      exact getElem?_cleanFrom hBefore hAfter hFlag

end RollExcludedSeries

/-! ## Agreement with the adjusted series -/

/-- The spliced bars of a built series are flagged at its roll events, and the returns that are kept are those of
its ratio-adjusted closes. -/
theorem rollClean_agrees {perContractBars : Dict ContractSymbol (List RawBar)} {rollCalendar : RollCalendar}
    {root : String} {series : ContinuousSeries} (hBuild : build perContractBars rollCalendar root = .ok series)
    (hNonZero : ContinuousSeries.NonZero series) :
    ∃ clean adjusted, buildRollExcludedSeries root series.bars = .ok clean ∧
      series.ratioAdjustedCloses = .ok adjusted ∧ clean.rollFlags = series.rollFlags ∧
      clean.nRolls = series.rollEvents.length ∧ clean.rollCleanReturns.length = adjusted.length ∧
      ∀ (j : ℕ) (a b : ℚ), adjusted[j]? = some a → adjusted[j + 1]? = some b →
        clean.rollCleanReturns[j + 1]? =
          some (if series.rollFlags[j + 1]? = some true then none else some (b / a - 1)) := by
  obtain ⟨adjusted, hAdjust, hSegments⟩ := ContinuousSeries.adjustsSegments series hNonZero
  obtain ⟨clean, hClean, hBars, hFlags⟩ := buildRollExcludedSeries_ok root series.bars_ne_nil series.increasing
  have hSame : clean.rollFlags = series.rollFlags := by
    obtain ⟨_, _, _, _, hBuilt⟩ := build_ok hBuild
    rw [hFlags, hBuilt.flags_changes]
    cases hHere : series.bars with
    | nil => exact absurd hHere series.bars_ne_nil
    | cons first rest => rfl
  refine ⟨clean, adjusted, hClean, hAdjust, hSame, ?_, ?_, fun j a b ha hb => ?_⟩
  · rw [RollExcludedSeries.nRolls, hSame, series.events_length]
  · rw [RollExcludedSeries.length_rollCleanReturns, hBars, hSegments.length]
  · have hBound : j + 1 < series.bars.length := hSegments.length ▸ (List.getElem?_eq_some_iff.mp hb).1
    have hFlagBound : j + 1 < series.rollFlags.length := series.flags_length ▸ hBound
    have hBefore := List.getElem?_eq_getElem (Nat.lt_of_succ_lt hBound)
    have hAfter := List.getElem?_eq_getElem hBound
    have hFlag := List.getElem?_eq_getElem hFlagBound
    have hKept : clean.rollCleanReturns[j + 1]? =
        some (RollExcludedSeries.keptReturn series.rollFlags[j + 1] series.bars[j] series.bars[j + 1]) := by
      apply RollExcludedSeries.getElem?_rollCleanReturns
      · rw [hBars, hBefore]
      · rw [hBars, hAfter]
      · rw [hSame, hFlag]
    rw [hKept, hFlag]
    have hClose : series.bars[j].close ≠ 0 := hNonZero.closes _ (List.getElem_mem _)
    cases hRoll : series.rollFlags[j + 1] with
    | true => simp [RollExcludedSeries.keptReturn]
    | false =>
      rw [hSegments.within j _ _ a b ⟨hBefore, hAfter, ha, hb⟩ (hRoll ▸ hFlag)]
      simp [RollExcludedSeries.keptReturn, hClose]

/-- The two months of crude oil. -/
theorem rollClean_agrees_twoMonths : ∃ series clean adjusted,
    build (twoMonths .dec12) crudeCalendar "CL" = .ok series ∧
      buildRollExcludedSeries "CL" series.bars = .ok clean ∧ series.ratioAdjustedCloses = .ok adjusted ∧
      clean.rollCleanReturns.length = adjusted.length := by
  obtain ⟨series, hBuild, hTest⟩ := except_exists_ok
    (show (build (twoMonths .dec12) crudeCalendar "CL").toOption.any (fun series =>
      decide ((∀ bar ∈ series.bars, bar.close ≠ 0) ∧
        ∀ event ∈ series.rollEvents, event.frontSettle ≠ 0 ∧ event.backSettle ≠ 0)) = true by
      decide +kernel)
  obtain ⟨hCloses, hSettles⟩ := of_decide_eq_true hTest
  obtain ⟨clean, adjusted, hClean, hAdjust, -, -, hLength, -⟩ :=
    rollClean_agrees hBuild ⟨hCloses, hSettles⟩
  exact ⟨series, clean, adjusted, hBuild, hClean, hAdjust, hLength⟩

/-! ## Levels -/

structure AtLevel (factor : ContractSymbol → ℚ) (bar scaled : RawBar) : Prop where
  contract : scaled.contract = bar.contract
  ts : scaled.ts = bar.ts
  close : scaled.close = factor bar.contract * bar.close

theorem rollFlagsOf_level {factor : ContractSymbol → ℚ} {bars scaled : List RawBar}
    (h : List.Forall₂ (AtLevel factor) bars scaled) : rollFlagsOf scaled = rollFlagsOf bars := by
  cases h with
  | nil => rfl
  | @cons first first' rest rest' hFirst hRest =>
    refine congrArg (false :: ·) ?_
    induction hRest generalizing first first' with
    | nil => rfl
    | cons hBar _ ih =>
      rw [List.zipWith_cons_cons, List.zipWith_cons_cons, ih hBar, hFirst.contract, hBar.contract]

/-- Only closes of one contract are divided by each other. -/
theorem cleanFrom_level {factor : ContractSymbol → ℚ} (hFactor : ∀ c, factor c ≠ 0) {prev prev' : RawBar}
    (hPrev : AtLevel factor prev prev') {bars scaled : List RawBar} (h : List.Forall₂ (AtLevel factor) bars scaled) :
    RollExcludedSeries.cleanFrom prev' scaled
        (List.zipWith (fun prev bar => decide (bar.contract ≠ prev.contract)) (prev :: bars) bars) =
      RollExcludedSeries.cleanFrom prev bars
        (List.zipWith (fun prev bar => decide (bar.contract ≠ prev.contract)) (prev :: bars) bars) := by
  induction h generalizing prev prev' with
  | nil => rfl
  | @cons bar bar' _ _ hBar _ ih =>
    rw [List.zipWith_cons_cons]
    refine congrArg₂ (· :: ·) ?_ (ih hBar)
    by_cases hSame : bar.contract = prev.contract
    · have hZero : prev'.close = 0 ↔ prev.close = 0 := by
        rw [hPrev.close, mul_eq_zero, or_iff_right (hFactor _)]
      have hReturn : bar'.close / prev'.close = bar.close / prev.close := by
        rw [hBar.close, hPrev.close, hSame, mul_div_mul_left _ _ (hFactor _)]
      rw [hReturn]
      simp only [hZero]
    · rw [if_pos (Or.inl (decide_eq_true hSame)), if_pos (Or.inl (decide_eq_true hSame))]

/-- No level of a contract, and so no jump from one contract to the next, shows in what is kept. -/
theorem rollClean_levels {factor : ContractSymbol → ℚ} (hFactor : ∀ c, factor c ≠ 0) {bars scaled : List RawBar}
    (hLevels : List.Forall₂ (AtLevel factor) bars scaled) {root : String} {series : RollExcludedSeries}
    (h : buildRollExcludedSeries root bars = .ok series) :
    ∃ relevelled, buildRollExcludedSeries root scaled = .ok relevelled ∧
      relevelled.rollFlags = series.rollFlags ∧ relevelled.rollCleanReturns = series.rollCleanReturns := by
  obtain ⟨rfl, hFlags⟩ := buildRollExcludedSeries_eq h
  have hTimes : scaled.map RawBar.ts = series.bars.map RawBar.ts := by
    generalize series.bars = bars at hLevels
    induction hLevels with
    | nil => rfl
    | cons hBar _ ih => rw [List.map_cons, List.map_cons, ih, hBar.ts]
  have hIncreasing : scaled.IsChain fun prev cur => prev.ts.instant < cur.ts.instant := by
    have hMoved : (series.bars.map RawBar.ts).IsChain fun t t' => t.instant < t'.instant :=
      (List.isChain_map RawBar.ts).mpr series.increasing
    rw [← hTimes] at hMoved
    exact (List.isChain_map RawBar.ts).mp hMoved
  have hNil : scaled ≠ [] := by
    rw [← List.length_pos_iff, ← hLevels.length_eq, List.length_pos_iff]
    exact series.bars_ne_nil
  obtain ⟨relevelled, hBuild, hBars, hFlags'⟩ := buildRollExcludedSeries_ok root hNil hIncreasing
  rw [rollFlagsOf_level hLevels] at hFlags'
  refine ⟨relevelled, hBuild, hFlags'.trans hFlags.symm, ?_⟩
  unfold RollExcludedSeries.rollCleanReturns
  rw [hBars, hFlags', hFlags]
  generalize series.bars = bars at hLevels
  cases hLevels with
  | nil => rfl
  | cons hFirst hRest => exact congrArg (none :: ·) (cleanFrom_level hFactor hFirst hRest)

/-- The old contract at twice its level. -/
theorem rollClean_levels_crude : ∃ series relevelled,
    buildRollExcludedSeries "CL" [dailyRaw "CLF26" .dec10 75, dailyRaw "CLF26" .dec11 78, dailyRaw "CLG26" .dec12 80] =
        .ok series ∧
      buildRollExcludedSeries "CL" [dailyRaw "CLF26" .dec10 150, dailyRaw "CLF26" .dec11 156,
        dailyRaw "CLG26" .dec12 80] = .ok relevelled ∧
      relevelled.rollCleanReturns = series.rollCleanReturns ∧
        series.rollCleanReturns = [none, some (1 / 25), none] := by
  obtain ⟨series, hBuild, hTest⟩ := except_exists_ok
    (show (buildRollExcludedSeries "CL" [dailyRaw "CLF26" .dec10 75, dailyRaw "CLF26" .dec11 78,
      dailyRaw "CLG26" .dec12 80]).toOption.any (fun series =>
        decide (series.rollCleanReturns = [none, some (1 / 25), none])) = true by decide +kernel)
  have hFactor : ∀ c : ContractSymbol, (if c = "CLF26" then (2 : ℚ) else 1) ≠ 0 := by
    intro c
    split_ifs <;> norm_num
  have hLevels : List.Forall₂ (AtLevel fun c => if c = "CLF26" then 2 else 1)
      [dailyRaw "CLF26" .dec10 75, dailyRaw "CLF26" .dec11 78, dailyRaw "CLG26" .dec12 80]
      [dailyRaw "CLF26" .dec10 150, dailyRaw "CLF26" .dec11 156, dailyRaw "CLG26" .dec12 80] :=
    .cons ⟨rfl, rfl, by decide +kernel⟩ (.cons ⟨rfl, rfl, by decide +kernel⟩ (.cons ⟨rfl, rfl, by decide +kernel⟩ .nil))
  obtain ⟨relevelled, hMoved, -, hSame⟩ := rollClean_levels hFactor hLevels hBuild
  exact ⟨series, relevelled, hBuild, hMoved, hSame, of_decide_eq_true hTest⟩

end Futur3.Data
