import Futur3.Stats.SharpeSpec

/-! # Deflation for the number of trials

The expected best ratio of the trials is never negative, vanishes when they all have the
same ratio and grows with their number and their variance. The deflated ratio is the
probabilistic one against that hurdle, so it is never the greater of the two.
-/

namespace Futur3.Stats

open Prelude Deviations

/-! ## The hurdle -/

section Hurdle

variable {K : Type} [Field K] [LinearOrder K]

def hurdle (math : StatsModule K) (nTrials : ℕ) (varSrTrials : K) : K :=
  if nTrials < minTrialsForMax ∨ varSrTrials ≤ 0 then 0
  else math.sqrt varSrTrials * ((1 - eulerGamma) * math.normal.quantile (1 - 1 / nTrials) +
    eulerGamma * math.normal.quantile (1 - 1 / (nTrials * math.e)))

variable [IsStrictOrderedRing K] {math : StatsModule K} {nTrials nTrials' : ℕ} {varSrTrials varSrTrials' : K}

theorem eulerGamma_pos : (0 : K) < eulerGamma := by
  norm_num [eulerGamma]

theorem eulerGamma_lt_one : (eulerGamma : K) < 1 := by
  norm_num [eulerGamma]

/-- The probability that one of so many shares leaves. -/
theorem half_le_one_sub_inv {x : K} (hx : 2 ≤ x) : 1 / 2 ≤ 1 - 1 / x ∧ 1 - 1 / x < 1 := by
  have hPos : 0 < x := two_pos.trans_le hx
  have hShare : 1 / x ≤ 1 / 2 := one_div_le_one_div_of_le two_pos hx
  exact ⟨by linarith, sub_lt_self 1 (one_div_pos.mpr hPos)⟩

theorem one_sub_inv_mono {x y : K} (hx : 0 < x) (hOrder : x ≤ y) : 1 - 1 / x ≤ 1 - 1 / y :=
  sub_le_sub_left (one_div_le_one_div_of_le hx hOrder) 1

theorem two_le_cast (h : minTrialsForMax ≤ nTrials) : (2 : K) ≤ nTrials := by
  exact_mod_cast h

theorem four_le_mul_e (laws : math.Laws) (h : minTrialsForMax ≤ nTrials) : (4 : K) ≤ nTrials * math.e := by
  have hProduct := mul_le_mul (two_le_cast h) laws.two_le_e zero_le_two (Nat.cast_nonneg nTrials)
  linarith

theorem expectedMaxSharpe_eq (laws : math.Laws) (nTrials : ℕ) (varSrTrials : K) :
    expectedMaxSharpe math nTrials varSrTrials = .ok (hurdle math nTrials varSrTrials) := by
  unfold expectedMaxSharpe hurdle
  split_ifs with hNone
  · rfl
  · have hTwo := not_lt.mp (not_or.mp hNone).1
    have hFour := four_le_mul_e laws hTwo
    have hBest := half_le_one_sub_inv (two_le_cast hTwo : (2 : K) ≤ nTrials)
    have hNext := half_le_one_sub_inv ((by norm_num : (2 : K) ≤ 4).trans hFour)
    rw [NormalDist.invCdf_ok (one_half_pos.trans_le hBest.1) hBest.2,
      NormalDist.invCdf_ok (one_half_pos.trans_le hNext.1) hNext.2]
    rfl

theorem hurdle_pos (laws : math.Laws) (hTwo : minTrialsForMax ≤ nTrials) (hVar : 0 < varSrTrials) :
    0 < hurdle math nTrials varSrTrials := by
  have hFour := four_le_mul_e laws hTwo
  have hBest := half_le_one_sub_inv (two_le_cast hTwo : (2 : K) ≤ nTrials)
  have hNext : 1 / 2 < 1 - 1 / (nTrials * math.e) := by
    have hShare : 1 / (nTrials * math.e) ≤ 1 / 4 := one_div_le_one_div_of_le four_pos hFour
    linarith
  have hLess := (half_le_one_sub_inv ((by norm_num : (2 : K) ≤ 4).trans hFour)).2
  rw [hurdle, if_neg (not_or.mpr ⟨not_lt.mpr hTwo, not_le.mpr hVar⟩)]
  exact mul_pos (laws.sqrt.pos hVar) (add_pos_of_nonneg_of_pos
    (mul_nonneg (sub_pos.mpr eulerGamma_lt_one).le (laws.normal.quantile_nonneg hBest.1 hBest.2))
    (mul_pos eulerGamma_pos (laws.normal.quantile_pos hNext hLess)))

theorem hurdle_nonneg (laws : math.Laws) (nTrials : ℕ) (varSrTrials : K) : 0 ≤ hurdle math nTrials varSrTrials := by
  by_cases hNone : nTrials < minTrialsForMax ∨ varSrTrials ≤ 0
  · exact (if_pos hNone).ge
  · obtain ⟨hTwo, hVar⟩ := not_or.mp hNone
    exact (hurdle_pos laws (not_lt.mp hTwo) (not_le.mp hVar)).le

/-- More trials, or more dispersed ones, raise it. -/
theorem hurdle_mono (laws : math.Laws) (hCount : nTrials ≤ nTrials') (hVar : varSrTrials ≤ varSrTrials') :
    hurdle math nTrials varSrTrials ≤ hurdle math nTrials' varSrTrials' := by
  by_cases hNone : nTrials < minTrialsForMax ∨ varSrTrials ≤ 0
  · rw [hurdle, if_pos hNone]
    exact hurdle_nonneg laws nTrials' varSrTrials'
  · obtain ⟨hTwo, hPos⟩ := not_or.mp hNone
    rw [not_lt] at hTwo
    rw [not_le] at hPos
    have hTwo' := hTwo.trans hCount
    have hCast : (nTrials : K) ≤ nTrials' := Nat.cast_le.mpr hCount
    have hLess : (0 : K) < nTrials := two_pos.trans_le (two_le_cast hTwo)
    have he : 0 < math.e := two_pos.trans_le laws.two_le_e
    have hBest := half_le_one_sub_inv (two_le_cast hTwo : (2 : K) ≤ nTrials)
    have hBest' := half_le_one_sub_inv (two_le_cast hTwo' : (2 : K) ≤ nTrials')
    have hNext := half_le_one_sub_inv ((by norm_num : (2 : K) ≤ 4).trans (four_le_mul_e laws hTwo))
    have hNext' := half_le_one_sub_inv ((by norm_num : (2 : K) ≤ 4).trans (four_le_mul_e laws hTwo'))
    have hFirst := laws.normal.quantile_mono (one_half_pos.trans_le hBest.1) (one_sub_inv_mono hLess hCast) hBest'.2
    have hSecond := laws.normal.quantile_mono (one_half_pos.trans_le hNext.1)
      (one_sub_inv_mono (mul_pos hLess he) (mul_le_mul_of_nonneg_right hCast he.le)) hNext'.2
    have hShares := add_le_add (mul_le_mul_of_nonneg_left hFirst (sub_pos.mpr eulerGamma_lt_one).le)
      (mul_le_mul_of_nonneg_left hSecond (eulerGamma_pos (K := K)).le)
    rw [hurdle, hurdle, if_neg hNone, if_neg (not_or.mpr ⟨not_lt.mpr hTwo', not_le.mpr (hPos.trans_le hVar)⟩)]
    refine mul_le_mul (laws.sqrt.mono hPos.le hVar) hShares ?_ (laws.sqrt.nonneg _ (hPos.le.trans hVar))
    exact add_nonneg
      (mul_nonneg (sub_pos.mpr eulerGamma_lt_one).le (laws.normal.quantile_nonneg hBest.1 hBest.2))
      (mul_nonneg eulerGamma_pos.le (laws.normal.quantile_nonneg hNext.1 hNext.2))

end Hurdle

/-! ## The deflated ratio -/

section Deflated

variable {K : Type} [Field K] [LinearOrder K] [IsStrictOrderedRing K] {math : StatsModule K} {returns : List K}
  {periodsPerYear : K}

/-- A higher threshold is a smaller probability, and defined for the same returns. -/
theorem psrOf_antitone (laws : math.Laws) (hPositive : 0 < periodsPerYear) {threshold threshold' psr : K}
    (h : psrOf math returns threshold periodsPerYear = some psr) (hOrder : threshold ≤ threshold') :
    ∃ psr', psrOf math returns threshold' periodsPerYear = some psr' ∧ psr' ≤ psr ∧
      (psr' = psr ↔ threshold = threshold') := by
  obtain ⟨hVaries, hCount, hTerm, rfl⟩ := psrOf_some laws h
  have hLength : (0 : K) < returns.length - 1 := sub_pos.mpr (by exact_mod_cast hVaries.length)
  have hScale : 0 < math.sqrt (returns.length - 1) / math.sqrt (varianceTerm (momentsOf math returns).srPerPeriod
      (momentsOf math returns).skew (momentsOf math returns).kurt) :=
    div_pos (laws.sqrt.pos hLength) (laws.sqrt.pos hTerm)
  have hScore : ∀ t, psrScore math returns t periodsPerYear =
      ((momentsOf math returns).srPerPeriod - t / math.sqrt periodsPerYear) *
        (math.sqrt (returns.length - 1) / math.sqrt (varianceTerm (momentsOf math returns).srPerPeriod
          (momentsOf math returns).skew (momentsOf math returns).kurt)) := fun t => mul_div_assoc _ _ _
  refine ⟨math.normal.cdf (psrScore math returns threshold' periodsPerYear), ?_,
    laws.normal.strictMono.monotone ?_, ?_⟩
  · rw [psrOf_of_varies laws hVaries hCount, psrKernel_of_pos hTerm]
    rfl
  · rw [hScore, hScore]
    refine mul_le_mul_of_nonneg_right (sub_le_sub_left ?_ _) hScale.le
    exact div_le_div_of_nonneg_right hOrder (laws.sqrt.pos hPositive).le
  · rw [laws.normal.strictMono.injective.eq_iff, hScore, hScore, mul_left_inj' hScale.ne', sub_right_inj,
      div_left_inj' (laws.sqrt.pos hPositive).ne', eq_comm]

theorem psrOf_eq_none_iff_at (laws : math.Laws) (returns : List K) (periodsPerYear threshold threshold' : K) :
    psrOf math returns threshold periodsPerYear = none ↔ psrOf math returns threshold' periodsPerYear = none := by
  rw [psrOf_eq_none_iff laws, psrOf_eq_none_iff laws]

def finiteTrials (srTrials : List (Option K)) : List K := srTrials.filterMap id

def trialHurdle (math : StatsModule K) (srTrials : List (Option K)) : K :=
  hurdle math (finiteTrials srTrials).length
    (squares (finiteTrials srTrials) / ((finiteTrials srTrials).length - 1))

/-- The hurdle vanishes exactly when the trials have the same ratio. -/
theorem trialHurdle_eq_zero_iff (laws : math.Laws) {srTrials : List (Option K)} :
    0 = trialHurdle math srTrials ↔ ¬Varies (finiteTrials srTrials) := by
  constructor
  · exact fun hZero hVaries => (hurdle_pos laws hVaries.length hVaries.variance_pos).ne hZero
  · intro hSame
    rw [trialHurdle, variance_of_same hSame, hurdle, if_pos (.inr le_rfl)]

variable [FloorRing K]

theorem deflatedSharpe_ok (laws : math.Laws) (hPositive : 0 < periodsPerYear) (returns : List K)
    (srTrials : List (Option K)) :
    ∃ result, deflatedSharpe math returns srTrials periodsPerYear = .ok result ∧
      result.psrImplied = psrOf math returns 0 periodsPerYear ∧
      (result.dsr = if (finiteTrials srTrials).length < minTrials then none
        else psrOf math returns (trialHurdle math srTrials) periodsPerYear) ∧
      (result.srStar = if (finiteTrials srTrials).length < minTrials then none
        else some (trialHurdle math srTrials)) ∧
      result.srObserved =
        (computeSharpeMoments math returns).map fun moments => moments.srPerPeriod * math.sqrt periodsPerYear := by
  obtain ⟨psr0, hOk, hPsr, hSr, -⟩ := probabilisticSharpe_ok math returns 0 hPositive
  obtain ⟨psrAtStar, hOkStar, hPsrStar, hSrStar, -⟩ :=
    probabilisticSharpe_ok math returns (trialHurdle math srTrials) hPositive
  unfold deflatedSharpe
  rw [if_neg (not_le.mpr hPositive), hOk, except_ok_bind]
  by_cases hFew : (srTrials.filterMap id).length < minTrials
  · rw [if_pos hFew]
    exact ⟨_, rfl, hPsr, (if_pos hFew).symm, (if_pos hFew).symm, hSr⟩
  · rw [if_neg hFew]
    dsimp only
    rw [expectedMaxSharpe_eq laws]
    change ∃ result, (probabilisticSharpe math returns (trialHurdle math srTrials) periodsPerYear >>= _) = _ ∧ _
    rw [hOkStar, except_ok_bind]
    exact ⟨_, rfl, hPsr, hPsrStar.trans (if_neg hFew).symm, (if_neg hFew).symm, hSrStar⟩

end Deflated

/-- Deflation lowers the probability, and leaves it only when all trials have the same ratio. -/
theorem dsr_le_psr {periodsPerYear : ℝ} (hPositive : 0 < periodsPerYear) (returns : List ℝ)
    (srTrials : List (Option ℝ)) : ∃ result, deflatedSharpe realStats returns srTrials periodsPerYear = .ok result ∧
      (result.dsr = none ↔ (srTrials.filterMap id).length < 2 ∨ result.psrImplied = none) ∧
      ∀ dsr ∈ result.dsr, ∃ psr ∈ result.psrImplied, dsr ≤ psr ∧ (dsr = psr ↔ ¬Varies (srTrials.filterMap id)) := by
  obtain ⟨result, hOk, hImplied, hDsr, -, -⟩ := deflatedSharpe_ok realStats_laws hPositive returns srTrials
  have hNone := psrOf_eq_none_iff_at realStats_laws returns periodsPerYear (trialHurdle realStats srTrials) 0
  refine ⟨result, hOk, ?_, fun dsr hDefined => ?_⟩
  · rw [hDsr, hImplied, ite_eq_left_iff, ← or_iff_not_imp_left, hNone]
    rfl
  · rw [hDsr] at hDefined
    split_ifs at hDefined with hFew
    · cases hDefined
    · cases hPsr : psrOf realStats returns 0 periodsPerYear with
      | none =>
        rw [hNone.mpr hPsr] at hDefined
        cases hDefined
      | some psr =>
        obtain ⟨dsr', hAt, hLe, hSame⟩ := psrOf_antitone realStats_laws hPositive hPsr
          (hurdle_nonneg realStats_laws (finiteTrials srTrials).length _)
        obtain rfl : dsr' = dsr := Option.some.inj (hAt.symm.trans hDefined)
        exact ⟨psr, hImplied.trans hPsr, hLe, hSame.trans (trialHurdle_eq_zero_iff realStats_laws)⟩

/-- A year of days and three trials, of which one failed. -/
theorem dsr_le_psr_year : ∃ result,
    deflatedSharpe realStats [0, 1, 2, 0, 1, 2, 0, 1, 2, 0] [some 1, none, some 2] 252 = .ok result ∧
      ∀ dsr ∈ result.dsr, ∃ psr ∈ result.psrImplied, dsr < psr := by
  obtain ⟨result, hOk, -, hBelow⟩ := dsr_le_psr (show (0 : ℝ) < 252 by norm_num)
    [0, 1, 2, 0, 1, 2, 0, 1, 2, 0] [some 1, none, some 2]
  refine ⟨result, hOk, fun dsr hDefined => ?_⟩
  obtain ⟨psr, hPsr, hLe, hSame⟩ := hBelow dsr hDefined
  exact ⟨psr, hPsr, hLe.lt_of_ne fun h => hSame.mp h ⟨1, by simp, 2, by simp, by norm_num⟩⟩

/-- More trials, as long as they are no less dispersed, never raise the deflated ratio. -/
theorem dsr_antitone_in_trials {periodsPerYear : ℝ} (hPositive : 0 < periodsPerYear) (returns : List ℝ)
    {srTrials srTrials' : List (Option ℝ)} (hFew : 2 ≤ (srTrials.filterMap id).length)
    (hCount : (srTrials.filterMap id).length ≤ (srTrials'.filterMap id).length)
    (hVar : squares (srTrials.filterMap id) / ((srTrials.filterMap id).length - 1) ≤
      squares (srTrials'.filterMap id) / ((srTrials'.filterMap id).length - 1)) :
    ∃ result result', deflatedSharpe realStats returns srTrials periodsPerYear = .ok result ∧
      deflatedSharpe realStats returns srTrials' periodsPerYear = .ok result' ∧
      (result'.dsr = none ↔ result.dsr = none) ∧ ∀ dsr ∈ result.dsr, ∃ dsr' ∈ result'.dsr, dsr' ≤ dsr := by
  obtain ⟨result, hOk, -, hDsr, -, -⟩ := deflatedSharpe_ok realStats_laws hPositive returns srTrials
  obtain ⟨result', hOk', -, hDsr', -, -⟩ := deflatedSharpe_ok realStats_laws hPositive returns srTrials'
  rw [if_neg (show ¬(finiteTrials srTrials).length < minTrials from not_lt.mpr hFew)] at hDsr
  rw [if_neg (show ¬(finiteTrials srTrials').length < minTrials from not_lt.mpr (hFew.trans hCount))] at hDsr'
  refine ⟨result, result', hOk, hOk', ?_, fun dsr hDefined => ?_⟩
  · rw [hDsr, hDsr']
    exact psrOf_eq_none_iff_at realStats_laws returns periodsPerYear _ _
  · rw [hDsr] at hDefined
    obtain ⟨dsr', hAt, hLe, -⟩ :=
      psrOf_antitone realStats_laws hPositive hDefined (hurdle_mono realStats_laws hCount hVar)
    exact ⟨dsr', hDsr'.trans hAt, hLe⟩

/-- The same days, with two trials reported of four. -/
theorem dsr_antitone_in_trials_year : ∃ result result',
    deflatedSharpe realStats [0, 1, 2, 0, 1, 2, 0, 1, 2, 0] [some 1, some 1] 252 = .ok result ∧
      deflatedSharpe realStats [0, 1, 2, 0, 1, 2, 0, 1, 2, 0] [some 1, some 1, none, some 0, some 3] 252 =
        .ok result' ∧
      ∀ dsr ∈ result.dsr, ∃ dsr' ∈ result'.dsr, dsr' ≤ dsr := by
  obtain ⟨result, result', hOk, hOk', -, hBelow⟩ := dsr_antitone_in_trials (show (0 : ℝ) < 252 by norm_num)
    [0, 1, 2, 0, 1, 2, 0, 1, 2, 0]
    (show 2 ≤ ([some 1, some 1].filterMap (id : Option ℝ → Option ℝ)).length by simp)
    (show _ ≤ ([some 1, some 1, none, some 0, some 3].filterMap (id : Option ℝ → Option ℝ)).length by simp)
    (by norm_num [squares, mean, List.filterMap_cons])
  exact ⟨result, result', hOk, hOk', hBelow⟩

end Futur3.Stats
