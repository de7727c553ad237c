import Futur3.Execution.RiskManager
import Futur3.Execution.Survival
import Futur3.Prelude.Method
import Mathlib.Order.Bounds.Basic

/-! # The size is the optimum of its caps

The three ratio caps are floors. The survival cap is a binary search, which finds the
boundary because fewer contracts survive at least as often. The minimum of the four is
the greatest count that keeps all of them.
-/

namespace Futur3.Execution

open Data Prelude Cv

/-! ## The caps -/

theorem floorToInt_of_nonneg {value : ℚ} (h : 0 ≤ value) : floorToInt value = ⌊value⌋ := if_pos h

/-- A count is within a ratio cap exactly when its cost is within the budget. -/
theorem le_floorToInt_iff {budget cost : ℚ} (hBudget : 0 ≤ budget) (hCost : 0 < cost) (n : ℤ) :
    n ≤ floorToInt (budget / cost) ↔ n * cost ≤ budget := by
  rw [floorToInt_of_nonneg (div_nonneg hBudget hCost.le), Int.le_floor, le_div_iff₀ hCost]

/-- The search stops right below the first count that does not survive. -/
theorem survivalSearch_boundary {survives : ℤ → Bool}
    (hAntitone : ∀ m n, m ≤ n → survives n = true → survives m = true) {lo hi : ℤ} (hLess : lo < hi)
    (hLo : survives lo = true) (hHi : survives hi = false) :
    lo ≤ survivalSearch survives lo hi ∧ survivalSearch survives lo hi < hi ∧
      ∀ n, survives n = true ↔ n ≤ survivalSearch survives lo hi := by
  induction lo, hi using survivalSearch.induct survives with
  | case1 lo hi hWide hMid ih =>
    rw [survivalSearch, if_pos hWide, if_pos hMid]
    obtain ⟨hLower, hUpper, hIff⟩ := ih (by omega) hMid hHi
    exact ⟨by omega, hUpper, hIff⟩
  | case2 lo hi hWide hMid ih =>
    rw [survivalSearch, if_pos hWide, if_neg hMid]
    obtain ⟨hLower, hUpper, hIff⟩ := ih (by omega) hLo (Bool.eq_false_iff.mpr hMid)
    exact ⟨hLower, by omega, hIff⟩
  | case3 lo hi hNarrow =>
    rw [survivalSearch, if_neg hNarrow]
    refine ⟨le_rfl, hLess, fun n => ⟨fun hSurvives => ?_, fun hLe => hAntitone n lo hLe hLo⟩⟩
    by_contra hAbove
    have := hAntitone hi n (by omega) hSurvives
    rw [hHi] at this
    cases this

theorem lookup_pos {table : List (String × ℚ)} (hTable : ∀ row ∈ table, 0 < row.2) {root : String}
    {value : ℚ} (h : Dict.lookup root table = some value) : 0 < value := by
  exact hTable (root, value) (Dict.mem_of_lookup h)

theorem multiplierFor_pos {contract : ContractSymbol} {multiplier : ℚ}
    (h : multiplierFor contract = .ok multiplier) : 0 < multiplier := by
  have hTable : ∀ row ∈ contractMultiplier, 0 < row.2 := by
    simp [contractMultiplier]
  unfold multiplierFor at h
  obtain ⟨root, -, hRoot⟩ := except_bind_ok_iff.mp h
  cases hLookup : Dict.lookup root contractMultiplier with
  | none =>
    rw [hLookup] at hRoot
    cases hRoot
  | some value =>
    rw [hLookup] at hRoot
    cases hRoot
    exact lookup_pos hTable hLookup

/-! ## The survival cap -/

/-- The bootstrap the sizer calls, with the block length left to the selector. -/
def survivalBootstrap {γ : Type} (math : SelectionModule ℚ) (gen : Generator γ) :
    SurvivalBootstrap := fun returns leverage horizon nPaths killSwitchDd seed =>
  (survivalProbability math gen returns leverage horizon nPaths killSwitchDd none
    seed).toOption.getD 0

section Cap

variable {γ : Type} (math : SelectionModule ℚ) (gen : Generator γ) (params : RiskParams)
  (returns : List ℚ) (notional accountEquity : ℚ) (seed : Option ℤ)

/-- The bootstrap at the leverage of `n` contracts returns at least the floor. -/
def SurvivesAt (n : ℤ) : Prop :=
  ∃ p, survivalProbability math gen returns (n * notional / accountEquity)
      params.survivalHorizon params.survivalPaths params.killSwitchDd none seed = .ok p ∧
    params.survivalFloor ≤ p

variable {math gen params returns notional accountEquity seed}

theorem resamplable_of_nonneg (hNotional : 0 < notional) (hEquity : 0 < accountEquity)
    (hCount : 2 ≤ returns.length) {n : ℤ} (hn : 0 ≤ n) :
    Resamplable returns (n * notional / accountEquity) params.survivalHorizon
      params.survivalPaths params.killSwitchDd where
  leverage := div_nonneg (mul_nonneg (Int.cast_nonneg hn) hNotional.le) hEquity.le
  horizon := params.horizon_pos
  nPaths := params.paths_pos
  kill_pos := params.kill_pos
  kill_lt := params.kill_lt
  count := hCount

theorem survivesAt_iff (hNotional : 0 < notional) (hEquity : 0 < accountEquity)
    (hCount : 2 ≤ returns.length) {n : ℤ} (hn : 0 ≤ n) :
    SurvivesAt math gen params returns notional accountEquity seed n ↔
      params.survivalFloor ≤ survivalBootstrap math gen returns
        (n * notional / accountEquity) params.survivalHorizon params.survivalPaths
        params.killSwitchDd seed := by
  have hFits : Resamplable returns (n * notional / accountEquity) params.survivalHorizon
      params.survivalPaths params.killSwitchDd :=
    resamplable_of_nonneg hNotional hEquity hCount hn
  unfold SurvivesAt survivalBootstrap
  rw [survivalProbability_ok hFits]
  constructor
  · rintro ⟨p, hp, hFloor⟩
    cases hp
    exact hFloor
  · intro hFloor
    exact ⟨_, rfl, hFloor⟩

theorem SurvivesAt.fewer (hNotional : 0 < notional) (hEquity : 0 < accountEquity)
    (hCount : 2 ≤ returns.length) {m n : ℤ} (hm : 0 ≤ m) (hLe : m ≤ n)
    (h : SurvivesAt math gen params returns notional accountEquity seed n) :
    SurvivesAt math gen params returns notional accountEquity seed m := by
  obtain ⟨p, hp, hFloor⟩ := h
  have hFits : Resamplable returns (n * notional / accountEquity) params.survivalHorizon
      params.survivalPaths params.killSwitchDd :=
    resamplable_of_nonneg hNotional hEquity hCount (hm.trans hLe)
  have hNonneg : 0 ≤ m * notional / accountEquity :=
    div_nonneg (mul_nonneg (Int.cast_nonneg hm) hNotional.le) hEquity.le
  have hLess : m * notional / accountEquity ≤ n * notional / accountEquity := by
    apply div_le_div_of_nonneg_right _ hEquity.le
    exact mul_le_mul_of_nonneg_right (Int.cast_le.mpr hLe) hNotional.le
  obtain ⟨q, q', hq, hq', hMore⟩ := survivalProbability_antitone hFits hNonneg hLess
  rw [hp] at hq
  cases hq
  exact ⟨q', hq', hFloor.trans hMore⟩

/-- Below the base, the survival cap admits exactly the counts that survive. -/
theorem le_survivalCap_iff (hNotional : 0 < notional) (hEquity : 0 < accountEquity) {base n : ℤ}
    (hBase : 0 < base) :
    n ≤ min base (survivalCap params (survivalBootstrap math gen) returns base
        notional accountEquity seed) ↔
      n ≤ base ∧ (2 ≤ returns.length → 0 < n →
        SurvivesAt math gen params returns notional accountEquity seed n) := by
  rw [le_min_iff]
  apply and_congr_right
  intro hLe
  unfold survivalCap
  by_cases hFew : returns.length < 2
  · rw [if_pos hFew]
    exact iff_of_true hLe fun hCount => absurd hCount (not_le.mpr hFew)
  rw [if_neg hFew]
  have hCount := not_lt.mp hFew
  extract_lets survives
  have hSurvives : ∀ m, survives m = true ↔ (0 < m →
      SurvivesAt math gen params returns notional accountEquity seed m) := by
    intro m
    by_cases hm : m ≤ 0
    · simp [survives, hm]
    · have hPos := not_le.mp hm
      simp [survives, hm, hPos, survivesAt_iff hNotional hEquity hCount hPos.le]
  have hAntitone : ∀ m k, m ≤ k → survives k = true → survives m = true := by
    intro m k hmk hk
    apply (hSurvives m).mpr
    intro hm
    exact ((hSurvives k).mp hk (hm.trans_le hmk)).fewer hNotional hEquity hCount hm.le hmk
  have hAll : (2 ≤ returns.length → 0 < n →
      SurvivesAt math gen params returns notional accountEquity seed n) ↔
      survives n = true := by
    rw [hSurvives]
    exact ⟨fun h => h hCount, fun h _ => h⟩
  rw [hAll]
  split
  · rename_i hTop
    exact iff_of_true hLe (hAntitone n base hLe hTop)
  · rename_i hTop
    have hZero : survives 0 = true := (hSurvives 0).mpr fun h => absurd h (lt_irrefl 0)
    have hBoundary := survivalSearch_boundary hAntitone hBase hZero (Bool.eq_false_iff.mpr hTop)
    exact (hBoundary.2.2 n).symm

end Cap

/-! ## The decision -/

def SizingDecision.candidate (decision : SizingDecision) : BindingConstraint → Option ℤ
  | .kelly => some decision.kellyContracts
  | .margin => some decision.marginContracts
  | .leverage => some decision.leverageContracts
  | .survival => decision.survivalContracts
  | .noEdge => none

def smallest (kelly margin leverage : ℤ) (survival : Option ℤ) : ℤ :=
  survival.elim (min (min kelly margin) leverage) (min (min (min kelly margin) leverage))

theorem binding_attains (kelly margin leverage : ℤ) (survival : Option ℤ) :
    (binding kelly margin leverage survival = .kelly ∧ kelly = smallest kelly margin leverage survival) ∨
      (binding kelly margin leverage survival = .margin ∧
        margin = smallest kelly margin leverage survival) ∨
      (binding kelly margin leverage survival = .leverage ∧
        leverage = smallest kelly margin leverage survival) ∨
      (binding kelly margin leverage survival = .survival ∧
        survival = some (smallest kelly margin leverage survival)) := by
  have hFold : (survival.toList).foldl min (min (min kelly margin) leverage) =
      smallest kelly margin leverage survival := by
    cases survival <;> rfl
  unfold binding
  rw [hFold]
  dsimp only
  split_ifs with hKelly hMargin hLeverage
  · exact .inl ⟨rfl, hKelly⟩
  · exact .inr (.inl ⟨rfl, hMargin⟩)
  · exact .inr (.inr (.inl ⟨rfl, hLeverage⟩))
  · refine .inr (.inr (.inr ⟨rfl, ?_⟩))
    cases survival with
    | none =>
      simp only [smallest, Option.elim_none] at hKelly hMargin hLeverage
      omega
    | some s =>
      simp only [smallest, Option.elim_some] at hKelly hMargin hLeverage ⊢
      congr 1
      omega

section Decision

variable {γ : Type} (math : SelectionModule ℚ) (gen : Generator γ) (params : RiskParams)

structure WithinCaps (margin notional fullKellyFraction accountEquity : ℚ)
    (returns : Option (List ℚ)) (seed : Option ℤ) (n : ℤ) : Prop where
  nonneg : 0 ≤ n
  margin : n * margin ≤ params.marginBudgetPct * accountEquity
  leverage : n * notional ≤ params.leverageCap * accountEquity
  kelly : n * notional ≤ params.kellyMultiplier * fullKellyFraction * accountEquity
  survival : ∀ rs, returns = some rs → 2 ≤ rs.length → 0 < n →
    SurvivesAt math gen params rs notional accountEquity seed n

variable {math gen params}

theorem withinCaps_zero {fullKellyFraction accountEquity : ℚ} (hEquity : 0 < accountEquity)
    (hKelly : 0 < fullKellyFraction) (margin notional : ℚ) (returns : Option (List ℚ))
    (seed : Option ℤ) :
    WithinCaps math gen params margin notional fullKellyFraction accountEquity
      returns seed 0 where
  nonneg := le_rfl
  margin := by
    rw [Int.cast_zero, zero_mul]
    exact (mul_pos params.margin_pos hEquity).le
  leverage := by
    rw [Int.cast_zero, zero_mul]
    exact (mul_pos params.leverage_pos hEquity).le
  kelly := by
    rw [Int.cast_zero, zero_mul]
    exact (mul_pos (mul_pos params.kelly_pos hKelly) hEquity).le
  survival := fun _ _ _ h => absurd h (lt_irrefl 0)

/-- The survival cap of the decision: not evaluated without returns or without a base. -/
def survivalContracts (params : RiskParams) (bootstrap : SurvivalBootstrap) (base : ℤ)
    (notional accountEquity : ℚ) (returns : Option (List ℚ)) (seed : Option ℤ) : Option ℤ :=
  if base > 0 then
    returns.map fun rs => survivalCap params bootstrap rs base notional accountEquity seed
  else none

theorem le_smallest_iff {notional accountEquity : ℚ} (hNotional : 0 < notional)
    (hEquity : 0 < accountEquity) (kelly margin leverage n : ℤ) (returns : Option (List ℚ))
    (seed : Option ℤ) :
    n ≤ smallest kelly margin leverage (survivalContracts params
        (survivalBootstrap math gen) (min (min kelly margin) leverage) notional
        accountEquity returns seed) ↔
      n ≤ min (min kelly margin) leverage ∧ ∀ rs, returns = some rs → 2 ≤ rs.length → 0 < n →
        SurvivesAt math gen params rs notional accountEquity seed n := by
  generalize hBase : min (min kelly margin) leverage = base
  unfold smallest survivalContracts
  rw [hBase]
  by_cases hPos : base > 0
  · rw [if_pos hPos]
    cases returns with
    | none => simp
    | some rs =>
      rw [Option.map_some, Option.elim_some, le_survivalCap_iff hNotional hEquity hPos]
      constructor
      · rintro ⟨hLe, hSurvives⟩
        refine ⟨hLe, fun rs' hrs => ?_⟩
        cases hrs
        exact hSurvives
      · rintro ⟨hLe, hSurvives⟩
        exact ⟨hLe, hSurvives rs rfl⟩
  · rw [if_neg hPos, Option.elim_none]
    constructor
    · intro hLe
      exact ⟨hLe, fun _ _ _ hn => absurd (hn.trans_le hLe) hPos⟩
    · exact And.left

/-- A count keeps the caps exactly when it is at most the smallest candidate. -/
theorem withinCaps_iff {margin notional fullKellyFraction accountEquity : ℚ}
    (hMargin : 0 < margin) (hNotional : 0 < notional) (hEquity : 0 < accountEquity)
    (hKelly : 0 < fullKellyFraction) (returns : Option (List ℚ)) (seed : Option ℤ) (n : ℤ) :
    let kelly := floorToInt (fullKellyFraction * params.kellyMultiplier * accountEquity / notional)
    let byMargin := floorToInt (accountEquity * params.marginBudgetPct / margin)
    let leverage := floorToInt (accountEquity * params.leverageCap / notional)
    WithinCaps math gen params margin notional fullKellyFraction accountEquity
        returns seed n ↔
      0 ≤ n ∧ n ≤ smallest kelly byMargin leverage (survivalContracts params
        (survivalBootstrap math gen) (min (min kelly byMargin) leverage) notional
        accountEquity returns seed) := by
  intro kelly byMargin leverage
  have hKellyBudget : 0 ≤ fullKellyFraction * params.kellyMultiplier * accountEquity :=
    (mul_pos (mul_pos hKelly params.kelly_pos) hEquity).le
  have hMarginBudget : 0 ≤ accountEquity * params.marginBudgetPct :=
    (mul_pos hEquity params.margin_pos).le
  have hLeverageBudget : 0 ≤ accountEquity * params.leverageCap :=
    (mul_pos hEquity params.leverage_pos).le
  rw [le_smallest_iff hNotional hEquity, le_min_iff, le_min_iff,
    le_floorToInt_iff hKellyBudget hNotional, le_floorToInt_iff hMarginBudget hMargin,
    le_floorToInt_iff hLeverageBudget hNotional, mul_comm fullKellyFraction,
    mul_comm accountEquity, mul_comm accountEquity]
  constructor
  · intro h
    exact ⟨h.nonneg, ⟨⟨h.kelly, h.margin⟩, h.leverage⟩, h.survival⟩
  · rintro ⟨hNonneg, ⟨⟨hKellyCap, hMarginCap⟩, hLeverageCap⟩, hSurvival⟩
    exact ⟨hNonneg, hMarginCap, hLeverageCap, hKellyCap, hSurvival⟩

/-- The gate on inputs it accepts, with an edge. -/
theorem sizePosition_eq (params : RiskParams) (bootstrap : SurvivalBootstrap)
    {marginSource : MarginSource} {contract : ContractSymbol} {root : String}
    {margin multiplier fullKellyFraction accountEquity price : ℚ}
    (hRoot : contractRoot contract = .ok root) (hMargin : marginSource.initialMargin root = some margin)
    (hMultiplier : multiplierFor contract = .ok multiplier) (hMarginPos : 0 < margin)
    (hEquity : 0 < accountEquity) (hPrice : 0 < price) (hKelly : 0 < fullKellyFraction)
    (returns : Option (List ℚ)) (seed : Option ℤ) :
    let notional := price * multiplier
    let kelly := floorToInt (fullKellyFraction * params.kellyMultiplier * accountEquity / notional)
    let byMargin := floorToInt (accountEquity * params.marginBudgetPct / margin)
    let leverage := floorToInt (accountEquity * params.leverageCap / notional)
    let survival := survivalContracts params bootstrap (min (min kelly byMargin) leverage) notional
      accountEquity returns seed
    (RiskManager.base params marginSource bootstrap).sizePosition contract fullKellyFraction
        accountEquity price returns seed =
      SizingDecision.create (smallest kelly byMargin leverage survival)
        (binding kelly byMargin leverage survival) kelly byMargin leverage notional margin survival := by
  simp only [RiskManager.base, not_le.mpr hEquity, not_le.mpr hPrice, if_false, hRoot, hMultiplier,
    bind, Except.bind, hMargin, Option.elim_some, pure, Except.pure, hMarginPos.ne',
    not_le.mpr hKelly]
  rfl

/-- For every configured contract the gate returns the greatest count within its four caps, and
the label of the decision names a cap whose candidate is that count. -/
theorem sizePosition_optimal {marginSource : MarginSource} {contract : ContractSymbol} {root : String}
    {margin multiplier fullKellyFraction accountEquity price : ℚ}
    (hRoot : contractRoot contract = .ok root) (hMargin : marginSource.initialMargin root = some margin)
    (hMultiplier : multiplierFor contract = .ok multiplier) (hMarginPos : 0 < margin)
    (hEquity : 0 < accountEquity) (hPrice : 0 < price) (hKelly : 0 < fullKellyFraction)
    (returns : Option (List ℚ)) (seed : Option ℤ) :
    ∃ decision, (RiskManager.base params marginSource
        (survivalBootstrap math gen)).sizePosition contract fullKellyFraction
          accountEquity price returns seed = .ok decision ∧
      IsGreatest {n | WithinCaps math gen params margin (price * multiplier)
        fullKellyFraction accountEquity returns seed n} decision.contracts ∧
      decision.candidate decision.bindingConstraint = some decision.contracts := by
  have hNotional : 0 < price * multiplier := mul_pos hPrice (multiplierFor_pos hMultiplier)
  have hRun := sizePosition_eq params (survivalBootstrap math gen) hRoot hMargin
    hMultiplier hMarginPos hEquity hPrice hKelly returns seed
  extract_lets notional kelly byMargin leverage survival at hRun
  rw [hRun]
  have hCaps : ∀ n, WithinCaps math gen params margin notional fullKellyFraction
      accountEquity returns seed n ↔ 0 ≤ n ∧ n ≤ smallest kelly byMargin leverage survival :=
    withinCaps_iff hMarginPos hNotional hEquity hKelly returns seed
  have hZero : WithinCaps math gen params margin notional fullKellyFraction
      accountEquity returns seed 0 :=
    withinCaps_zero hEquity hKelly margin notional returns seed
  have hNonneg := ((hCaps 0).mp hZero).2
  unfold SizingDecision.create
  rw [dif_neg (not_lt.mpr hNonneg)]
  refine ⟨_, rfl, ⟨(hCaps _).mpr ⟨hNonneg, le_rfl⟩, fun n hn => ((hCaps n).mp hn).2⟩, ?_⟩
  rcases binding_attains kelly byMargin leverage survival with
    ⟨hLabel, hCount⟩ | ⟨hLabel, hCount⟩ | ⟨hLabel, hCount⟩ | ⟨hLabel, hCount⟩
  · rw [hLabel]
    exact congrArg some hCount
  · rw [hLabel]
    exact congrArg some hCount
  · rw [hLabel]
    exact congrArg some hCount
  · rw [hLabel]
    exact hCount

end Decision

/-- Three days of returns, one of them a crash, and an account that could hold several contracts. -/
theorem sizePosition_optimal_crash : ∃ decision,
    (RiskManager.base .default (.static contractInitialMargin)
        (survivalBootstrap wholeSelection counting)).sizePosition "ESM26" 2 1000000 5000
          (some [1 / 100, -1 / 5, 1 / 50]) (some 7) = .ok decision ∧
      IsGreatest {n | WithinCaps wholeSelection counting .default 15400 (5000 * 50) 2 1000000
        (some [1 / 100, -1 / 5, 1 / 50]) (some 7) n} decision.contracts ∧
      decision.candidate decision.bindingConstraint = some decision.contracts := by
  have hRoot : contractRoot "ESM26" = .ok "ES" := rfl
  exact sizePosition_optimal hRoot rfl rfl (by norm_num) (by norm_num) (by norm_num) (by norm_num) _ _

end Futur3.Execution
