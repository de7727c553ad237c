import Futur3.Execution.FixedSize
import Futur3.Execution.SizingOptimum

/-! # When the pin keeps its promise

The pin is meant to be cut down by the margin, leverage and survival caps only.
It reuses the survival cap of the plain sizer, which that sizer searches no
further than its Kelly count and skips when that count is zero.
-/

namespace Futur3.Execution

open Data Prelude Cv

section Pin

variable {γ : Type} (math : SelectionModule ℚ) (gen : Generator γ) (params : RiskParams)

/-- A count the pin, the margin budget and the leverage cap allow. -/
structure Fundable (fixed : FixedSize) (margin notional accountEquity : ℚ) (n : ℤ) : Prop where
  fixed : n ≤ fixed.contracts
  margin : n * margin ≤ params.marginBudgetPct * accountEquity
  leverage : n * notional ≤ params.leverageCap * accountEquity

/-- The survival gate, which asks for two returns and a position. -/
def PassesGate (notional accountEquity : ℚ) (returns : Option (List ℚ)) (seed : Option ℤ) (n : ℤ) :
    Prop :=
  ∀ rs, returns = some rs → 2 ≤ rs.length → 0 < n →
    SurvivesAt math gen params rs notional accountEquity seed n

def WithinKelly (notional fullKellyFraction accountEquity : ℚ) (n : ℤ) : Prop :=
  n * notional ≤ params.kellyMultiplier * fullKellyFraction * accountEquity

/-- With returns: no fundable count beyond the Kelly budget passes the gate, and if that budget does
not cover one contract every fundable count passes it. -/
def GateBoundByKelly (fixed : FixedSize) (margin notional fullKellyFraction accountEquity : ℚ)
    (returns : Option (List ℚ)) (seed : Option ℤ) : Prop :=
  returns ≠ none →
    (WithinKelly params notional fullKellyFraction accountEquity 1 →
      ∀ n, Fundable params fixed margin notional accountEquity n →
        PassesGate math gen params notional accountEquity returns seed n →
        WithinKelly params notional fullKellyFraction accountEquity n) ∧
    (¬ WithinKelly params notional fullKellyFraction accountEquity 1 →
      ∀ n, Fundable params fixed margin notional accountEquity n →
        PassesGate math gen params notional accountEquity returns seed n)

variable {math gen params}

theorem PassesGate.fewer {notional accountEquity : ℚ} (hNotional : 0 < notional)
    (hEquity : 0 < accountEquity) {returns : Option (List ℚ)} {seed : Option ℤ} {m n : ℤ}
    (hLe : m ≤ n)
    (h : PassesGate math gen params notional accountEquity returns seed n) :
    PassesGate math gen params notional accountEquity returns seed m :=
  fun rs hReturns hCount hm =>
    (h rs hReturns hCount (hm.trans_le hLe)).fewer hNotional hEquity hCount hm.le hLe

/-! ## The search -/

theorem survivalSearch_lt (survives : ℤ → Bool) {lo hi : ℤ} (h : lo < hi) :
    survivalSearch survives lo hi < hi := by
  induction lo, hi using survivalSearch.induct survives with
  | case1 lo hi hWide hMid ih =>
    rw [survivalSearch, if_pos hWide, if_pos hMid]
    exact ih (by omega)
  | case2 lo hi hWide hMid ih =>
    rw [survivalSearch, if_pos hWide, if_neg hMid]
    have := ih (by omega)
    omega
  | case3 lo hi hNarrow =>
    rw [survivalSearch, if_neg hNarrow]
    exact h

theorem survivalCap_le (bootstrap : SurvivalBootstrap) (returns : List ℚ) {base : ℤ}
    (hBase : 0 < base) (notional accountEquity : ℚ) (seed : Option ℤ) :
    survivalCap params bootstrap returns base notional accountEquity seed ≤ base := by
  unfold survivalCap
  split
  · exact le_rfl
  · extract_lets survives
    split
    · exact le_rfl
    · exact (survivalSearch_lt survives hBase).le

/-! ## The pinned count -/

def pinned (fixed margin leverage : ℤ) (survival : Option ℤ) : ℤ :=
  min fixed (survival.elim (min margin leverage) (min (min margin leverage)))

/-- The least of a bound and a cap is the greatest passing count below the bound when the cap is
below every one. -/
theorem isGreatest_min_iff {p : ℤ → Prop} {bound cap kelly : ℤ}
    (hCap : ∀ n, n ≤ min bound cap ↔ n ≤ bound ∧ n ≤ kelly ∧ p n) :
    IsGreatest {n | n ≤ bound ∧ p n} (min bound cap) ↔ ∀ n, n ≤ bound → p n → n ≤ kelly := by
  constructor
  · intro h n hBound hPasses
    exact ((hCap n).mp (h.2 ⟨hBound, hPasses⟩)).2.1
  · intro h
    obtain ⟨hBound, -, hPasses⟩ := (hCap _).mp le_rfl
    exact ⟨⟨hBound, hPasses⟩, fun n hn => (hCap n).mpr ⟨hn.1, h n hn.1 hn.2, hn.2⟩⟩

theorem isGreatest_self_iff {p : ℤ → Prop} {bound : ℤ} (hFewer : ∀ m n, m ≤ n → p n → p m) :
    IsGreatest {n | n ≤ bound ∧ p n} bound ↔ ∀ n, n ≤ bound → p n := by
  constructor
  · exact fun h n hBound => hFewer n bound hBound h.1.2
  · exact fun h => ⟨⟨le_rfl, h bound le_rfl⟩, fun n hn => hn.1⟩

theorem passesGate_some_iff {notional accountEquity : ℚ} {rs : List ℚ} {seed : Option ℤ} {n : ℤ} :
    PassesGate math gen params notional accountEquity (some rs) seed n ↔
      (2 ≤ rs.length → 0 < n →
        SurvivesAt math gen params rs notional accountEquity seed n) := by
  constructor
  · exact fun h => h rs rfl
  · intro h rs' hEq
    cases hEq
    exact h

/-- The count that the search finds below the base bounds the pin as the base and the gate do. -/
theorem le_searched_iff {notional accountEquity : ℚ} (hNotional : 0 < notional)
    (hEquity : 0 < accountEquity) (fixed : ℤ) {kelly margin leverage : ℤ} {rs : List ℚ}
    {seed : Option ℤ} (hBase : 0 < min (min kelly margin) leverage) (n : ℤ) :
    n ≤ min (min fixed (min margin leverage)) (survivalCap params
        (survivalBootstrap math gen) rs (min (min kelly margin) leverage) notional
        accountEquity seed) ↔
      n ≤ min fixed (min margin leverage) ∧ n ≤ kelly ∧
        PassesGate math gen params notional accountEquity (some rs) seed n := by
  have hSearched : n ≤ min (min (min kelly margin) leverage) (survivalCap params
      (survivalBootstrap math gen) rs (min (min kelly margin) leverage) notional
      accountEquity seed) ↔ n ≤ min (min kelly margin) leverage ∧ (2 ≤ rs.length → 0 < n →
        SurvivesAt math gen params rs notional accountEquity seed n) :=
    le_survivalCap_iff hNotional hEquity hBase
  rw [min_eq_right (survivalCap_le _ rs hBase notional accountEquity seed),
    ← passesGate_some_iff] at hSearched
  rw [le_min_iff, hSearched]
  constructor
  · rintro ⟨hBound, hBelow, hPasses⟩
    exact ⟨hBound, by omega, hPasses⟩
  · rintro ⟨hBound, hBelow, hPasses⟩
    exact ⟨hBound, by omega, hPasses⟩

theorem pinned_isGreatest_iff {notional accountEquity : ℚ} (hNotional : 0 < notional)
    (hEquity : 0 < accountEquity) (fixed kelly margin leverage : ℤ) (returns : Option (List ℚ))
    (seed : Option ℤ) :
    let gate := PassesGate math gen params notional accountEquity returns seed
    let bound := min fixed (min margin leverage)
    IsGreatest {n | n ≤ bound ∧ gate n} (pinned fixed margin leverage
        (survivalContracts params (survivalBootstrap math gen)
          (min (min kelly margin) leverage) notional accountEquity returns seed)) ↔
      (returns ≠ none → (1 ≤ kelly → ∀ n, n ≤ bound → gate n → n ≤ kelly) ∧
        (¬ 1 ≤ kelly → ∀ n, n ≤ bound → gate n)) := by
  intro gate bound
  have hFewer : ∀ m n, m ≤ n → gate n → gate m := fun m n hLe h => h.fewer hNotional hEquity hLe
  unfold survivalContracts pinned
  cases returns with
  | none =>
    have hPasses : ∀ n, gate n := by
      intro n rs h
      cases h
    simp only [Option.map_none, ite_self, Option.elim_none, ne_eq, not_true_eq_false, false_implies,
      iff_true]
    exact (isGreatest_self_iff hFewer).mpr fun n _ => hPasses n
  | some rs =>
    by_cases hBase : min (min kelly margin) leverage > 0
    · -- the search covers the counts up to the base
      have hKelly : 1 ≤ kelly := by omega
      rw [if_pos hBase, Option.map_some, Option.elim_some, ← min_assoc,
        isGreatest_min_iff (le_searched_iff hNotional hEquity fixed hBase)]
      simp [hKelly, gate, bound]
    · -- no base, no search
      rw [if_neg hBase, Option.elim_none]
      refine (isGreatest_self_iff hFewer).trans ?_
      simp only [ne_eq, reduceCtorEq, not_false_eq_true, true_implies]
      constructor
      · intro hAll
        refine ⟨fun hKelly n hBound _ => ?_, fun _ => hAll⟩
        -- there is no room for a contract, so the bound is not positive
        omega
      · rintro ⟨hSome, hNone⟩ n hBound
        by_cases hKelly : 1 ≤ kelly
        · intro _ _ _ hn
          omega
        · exact hNone hKelly n hBound

theorem pinned_nonneg {fixed kelly margin leverage : ℤ} {survival : Option ℤ} (hFixed : 0 ≤ fixed)
    (hMargin : 0 ≤ margin) (hLeverage : 0 ≤ leverage)
    (h : 0 ≤ smallest kelly margin leverage survival) : 0 ≤ pinned fixed margin leverage survival := by
  unfold pinned
  cases survival with
  | none =>
    rw [Option.elim_none]
    omega
  | some s =>
    simp only [smallest, Option.elim_some] at h ⊢
    omega

/-! ## The pinned decision -/

theorem floorToInt_div_nonneg {budget cost : ℚ} (hBudget : 0 ≤ budget) (hCost : 0 < cost) :
    0 ≤ floorToInt (budget / cost) := by
  rw [le_floorToInt_iff hBudget hCost, Int.cast_zero, zero_mul]
  exact hBudget

theorem withinKelly_iff {notional fullKellyFraction accountEquity : ℚ} (hNotional : 0 < notional)
    (hEquity : 0 < accountEquity) (hKelly : 0 < fullKellyFraction) (n : ℤ) :
    WithinKelly params notional fullKellyFraction accountEquity n ↔
      n ≤ floorToInt (fullKellyFraction * params.kellyMultiplier * accountEquity / notional) := by
  have hBudget : 0 ≤ fullKellyFraction * params.kellyMultiplier * accountEquity :=
    (mul_pos (mul_pos hKelly params.kelly_pos) hEquity).le
  rw [le_floorToInt_iff hBudget hNotional, mul_comm fullKellyFraction]
  exact Iff.rfl

theorem fundable_iff (fixed : FixedSize) {margin notional accountEquity : ℚ} (hMargin : 0 < margin)
    (hNotional : 0 < notional) (hEquity : 0 < accountEquity) (n : ℤ) :
    Fundable params fixed margin notional accountEquity n ↔
      n ≤ min fixed.contracts (min (floorToInt (accountEquity * params.marginBudgetPct / margin))
        (floorToInt (accountEquity * params.leverageCap / notional))) := by
  rw [le_min_iff, le_min_iff, le_floorToInt_iff (mul_pos hEquity params.margin_pos).le hMargin,
    le_floorToInt_iff (mul_pos hEquity params.leverage_pos).le hNotional, mul_comm accountEquity,
    mul_comm accountEquity]
  exact ⟨fun h => ⟨h.fixed, h.margin, h.leverage⟩, fun h => ⟨h.1, h.2.1, h.2.2⟩⟩

theorem gateBoundByKelly_iff {fixed : FixedSize}
    {margin notional fullKellyFraction accountEquity : ℚ} {returns : Option (List ℚ)}
    {seed : Option ℤ} {kelly bound : ℤ}
    (hWithin : ∀ n, WithinKelly params notional fullKellyFraction accountEquity n ↔ n ≤ kelly)
    (hFundable : ∀ n, Fundable params fixed margin notional accountEquity n ↔ n ≤ bound) :
    GateBoundByKelly math gen params fixed margin notional fullKellyFraction
        accountEquity returns seed ↔
      (returns ≠ none → (1 ≤ kelly → ∀ n, n ≤ bound →
          PassesGate math gen params notional accountEquity returns seed n → n ≤ kelly) ∧
        (¬ 1 ≤ kelly → ∀ n, n ≤ bound →
          PassesGate math gen params notional accountEquity returns seed n)) := by
  unfold GateBoundByKelly
  simp only [hWithin, hFundable]

variable (math gen params) in
/-- The pinned sizer on inputs it accepts, with an edge. -/
theorem fixedSize_sizePosition_eq (fixed : FixedSize) {marginSource : MarginSource}
    {contract : ContractSymbol} {root : String}
    {margin multiplier fullKellyFraction accountEquity price : ℚ}
    (hRoot : contractRoot contract = .ok root) (hMargin : marginSource.initialMargin root = some margin)
    (hMultiplier : multiplierFor contract = .ok multiplier) (hMarginPos : 0 < margin)
    (hEquity : 0 < accountEquity) (hPrice : 0 < price) (hKelly : 0 < fullKellyFraction)
    (returns : Option (List ℚ)) (seed : Option ℤ) :
    let notional := price * multiplier
    let kelly := floorToInt (fullKellyFraction * params.kellyMultiplier * accountEquity / notional)
    let byMargin := floorToInt (accountEquity * params.marginBudgetPct / margin)
    let leverage := floorToInt (accountEquity * params.leverageCap / notional)
    let survival := survivalContracts params (survivalBootstrap math gen)
      (min (min kelly byMargin) leverage) notional accountEquity returns seed
    0 ≤ pinned fixed.contracts byMargin leverage survival ∧
    (RiskManager.fixedSize fixed params marginSource
        (survivalBootstrap math gen)).sizePosition contract fullKellyFraction
          accountEquity price returns seed =
      SizingDecision.create (pinned fixed.contracts byMargin leverage survival)
        (binding kelly byMargin leverage survival) kelly byMargin leverage notional margin survival := by
  intro notional kelly byMargin leverage survival
  have hNotional : 0 < notional := mul_pos hPrice (multiplierFor_pos hMultiplier)
  have hRun := sizePosition_eq params (survivalBootstrap math gen) hRoot hMargin
    hMultiplier hMarginPos hEquity hPrice hKelly returns seed
  have hZero : WithinCaps math gen params margin notional fullKellyFraction
      accountEquity returns seed 0 :=
    withinCaps_zero hEquity hKelly margin notional returns seed
  have hSmallest : 0 ≤ smallest kelly byMargin leverage survival :=
    ((withinCaps_iff hMarginPos hNotional hEquity hKelly returns seed 0).mp hZero).2
  constructor
  · exact pinned_nonneg (zero_le_one.trans fixed.contracts_pos)
      (floorToInt_div_nonneg (mul_pos hEquity params.margin_pos).le hMarginPos)
      (floorToInt_div_nonneg (mul_pos hEquity params.leverage_pos).le hNotional) hSmallest
  · unfold RiskManager.fixedSize
    dsimp only
    rw [hRun]
    unfold SizingDecision.create
    rw [dif_neg (not_lt.mpr hSmallest)]
    simp only [pure_bind, not_le.mpr hKelly, if_false]
    rfl

/-- The pinned size is the greatest fundable count that passes the gate exactly when the gate stops
at the Kelly budget. -/
theorem fixedSize_greatest_iff (fixed : FixedSize) {marginSource : MarginSource}
    {contract : ContractSymbol} {root : String}
    {margin multiplier fullKellyFraction accountEquity price : ℚ}
    (hRoot : contractRoot contract = .ok root) (hMargin : marginSource.initialMargin root = some margin)
    (hMultiplier : multiplierFor contract = .ok multiplier) (hMarginPos : 0 < margin)
    (hEquity : 0 < accountEquity) (hPrice : 0 < price) (hKelly : 0 < fullKellyFraction)
    (returns : Option (List ℚ)) (seed : Option ℤ) :
    ∃ decision, (RiskManager.fixedSize fixed params marginSource
        (survivalBootstrap math gen)).sizePosition contract fullKellyFraction
          accountEquity price returns seed = .ok decision ∧
      (∀ n, Fundable params fixed margin (price * multiplier) accountEquity n ↔
        n ≤ min fixed.contracts (min decision.marginContracts decision.leverageContracts)) ∧
      (IsGreatest {n | n ≤ min fixed.contracts (min decision.marginContracts decision.leverageContracts) ∧
          PassesGate math gen params (price * multiplier) accountEquity returns seed n}
        decision.contracts ↔
        GateBoundByKelly math gen params fixed margin (price * multiplier)
          fullKellyFraction accountEquity returns seed) := by
  have hNotional : 0 < price * multiplier := mul_pos hPrice (multiplierFor_pos hMultiplier)
  have hRun := fixedSize_sizePosition_eq math gen params fixed hRoot hMargin hMultiplier
    hMarginPos hEquity hPrice hKelly returns seed
  extract_lets notional kelly byMargin leverage survival at hRun
  obtain ⟨hPinned, hDecision⟩ := hRun
  have hFundable : ∀ n, Fundable params fixed margin notional accountEquity n ↔
      n ≤ min fixed.contracts (min byMargin leverage) :=
    fundable_iff fixed hMarginPos hNotional hEquity
  have hWithin : ∀ n, WithinKelly params notional fullKellyFraction accountEquity n ↔ n ≤ kelly :=
    withinKelly_iff hNotional hEquity hKelly
  rw [hDecision]
  unfold SizingDecision.create
  rw [dif_neg (not_lt.mpr hPinned)]
  refine ⟨_, rfl, hFundable, ?_⟩
  exact (pinned_isGreatest_iff hNotional hEquity fixed.contracts kelly byMargin leverage returns
    seed).trans (gateBoundByKelly_iff hWithin hFundable).symm

end Pin

def FixedSize.one : FixedSize := ⟨1, le_rfl⟩

def FixedSize.two : FixedSize := ⟨2, one_le_two⟩

theorem fixedSize_greatest_iff_two : ∃ decision,
    (RiskManager.fixedSize .two .default (.static contractInitialMargin)
        (survivalBootstrap wholeSelection counting)).sizePosition "ESM26" 2 1000000 5000
          (some [1 / 100, -1 / 5, 1 / 50]) (some 7) = .ok decision ∧
      (∀ n, Fundable .default .two 15400 (5000 * 50) 1000000 n ↔
        n ≤ min FixedSize.two.contracts (min decision.marginContracts decision.leverageContracts)) ∧
      (IsGreatest {n | n ≤ min FixedSize.two.contracts
            (min decision.marginContracts decision.leverageContracts) ∧
          PassesGate wholeSelection counting .default (5000 * 50) 1000000
            (some [1 / 100, -1 / 5, 1 / 50]) (some 7) n} decision.contracts ↔
        GateBoundByKelly wholeSelection counting .default .two 15400 (5000 * 50) 2 1000000
          (some [1 / 100, -1 / 5, 1 / 50]) (some 7)) := by
  have hRoot : contractRoot "ESM26" = .ok "ES" := rfl
  exact fixedSize_greatest_iff .two hRoot rfl rfl (by norm_num) (by norm_num) (by norm_num)
    (by norm_num) _ _

def RiskParams.oneStep : RiskParams :=
  { RiskParams.default with
    survivalHorizon := 1, survivalPaths := 1, horizon_pos := Nat.one_pos, paths_pos := Nat.one_pos }

/-- The sizer pinned to some contracts of ES at a price of 5000, on full Kelly. -/
def pinnedES (fixed : FixedSize) (accountEquity : ℚ) (returns : List ℚ) :
    Except SizingFailure SizingDecision :=
  (RiskManager.fixedSize fixed .oneStep (.static contractInitialMargin)
    (survivalBootstrap wholeSelection counting)).sizePosition "ESM26" 1 accountEquity 5000
      (some returns) (some 7)

/-- The greatest count the pin, the margin and leverage candidates and the gate admit. -/
def IsPinned (fixed : FixedSize) (accountEquity : ℚ) (returns : List ℚ) (decision : SizingDecision) :
    Prop :=
  IsGreatest {n | n ≤ min fixed.contracts (min decision.marginContracts decision.leverageContracts) ∧
    PassesGate wholeSelection counting .oneStep (5000 * 50) accountEquity (some returns) (some 7) n}
    decision.contracts

/-- Without a Kelly contract the gate is skipped; with one it is not searched beyond. -/
theorem pin_ignores_gate_or_keeps_kelly :
    (∃ decision, pinnedES .one 500000 [-1, -1] = .ok decision ∧ decision.contracts = 1 ∧
        ¬ IsPinned .one 500000 [-1, -1] decision) ∧
      ∃ decision, pinnedES .two 1000000 [1 / 100] = .ok decision ∧ decision.contracts = 1 ∧
        ¬ IsPinned .two 1000000 [1 / 100] decision := by
  constructor
  · obtain ⟨decision, hRun, hCount⟩ := except_exists_ok
      (show (pinnedES .one 500000 [-1, -1]).toOption.any
        (fun decision => decide (decision.contracts = 1)) = true by decide +kernel)
    have hContracts := of_decide_eq_true hCount
    refine ⟨decision, hRun, hContracts, fun hGreatest => ?_⟩
    obtain ⟨p, hp, hFloor⟩ := hGreatest.1.2 [-1, -1] rfl le_rfl (by rw [hContracts]; decide)
    have hDead : survivalProbability (K := ℚ) wholeSelection counting [-1, -1] ((1 : ℤ) * (5000 * 50) / 500000)
        RiskParams.oneStep.survivalHorizon RiskParams.oneStep.survivalPaths
        RiskParams.oneStep.killSwitchDd none (some 7) = .ok 0 := by decide +kernel
    rw [hContracts, hDead] at hp
    cases hp
    exact absurd RiskParams.oneStep.floor_pos (not_lt.mpr hFloor)
  · obtain ⟨decision, hRun, hCount⟩ := except_exists_ok
      (show (pinnedES .two 1000000 [1 / 100]).toOption.any
        (fun decision => decide (decision.contracts = 1 ∧
          2 ≤ min decision.marginContracts decision.leverageContracts)) = true by decide +kernel)
    obtain ⟨hContracts, hRoom⟩ := of_decide_eq_true hCount
    refine ⟨decision, hRun, hContracts, fun hGreatest => ?_⟩
    have hTwo : 2 ≤ decision.contracts := by
      apply hGreatest.2
      refine ⟨le_min le_rfl hRoom, ?_⟩
      rintro rs ⟨rfl⟩ hLength
      exact absurd hLength (by decide)
    omega

end Futur3.Execution
