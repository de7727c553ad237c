import Futur3.Stats.ScaleFree

/-! # What a promotion takes

The five gates run one after the other, and a decision is what each of them returned. A
promoted strategy has a losing period, a positive mean and a ratio above the hurdle of
its trials; the leverage of the family leaves every gate as it is.
-/

namespace Futur3.Stats

open Prelude Execution Deviations

section Gates

variable {K : Type} [Field K] [LinearOrder K] [FloorRing K] {γ : Type} {math : StatsModule K} {gen : Generator γ}
  {strategyReturns : List K} {familyReturns : List (List K)} {srTrials : List (Option K)} {periodsPerYear : K}
  {benchReturns : Option (List K)} {superiorityMethod : SuperiorityMethod} {nResamples : ℕ} {seed : Option ℤ}
  {decision : PromotionDecision K}

structure Decided (math : StatsModule K) (gen : Generator γ) (strategyReturns : List K)
    (familyReturns : List (List K)) (srTrials : List (Option K)) (periodsPerYear : K)
    (benchReturns : Option (List K)) (superiorityMethod : SuperiorityMethod) (nResamples : ℕ) (seed : Option ℤ)
    (decision : PromotionDecision K) : Prop where
  dsr : deflatedSharpe math strategyReturns srTrials periodsPerYear = .ok decision.dsr
  psr : probabilisticSharpe math strategyReturns 0 periodsPerYear = .ok decision.psr
  bca : bcaBootstrap math gen strategyReturns profitFactor nResamples defaultConfidence seed =
    .ok decision.bcaProfitFactor
  permutation : permutationTest math.sqrt gen strategyReturns meanReturn nResamples .signFlip defaultBlockLength true
    seed = .ok decision.permutation
  superiority : superiorityOf math gen familyReturns benchReturns superiorityMethod nResamples seed =
    .ok decision.superiority
  method : decision.superiorityMethod = superiorityMethod

theorem evaluatePromotion_ok_iff :
    evaluatePromotion math gen strategyReturns familyReturns srTrials periodsPerYear benchReturns superiorityMethod
        nResamples seed = .ok decision ↔
      Decided math gen strategyReturns familyReturns srTrials periodsPerYear benchReturns superiorityMethod
        nResamples seed decision := by
  constructor
  · intro h
    obtain ⟨dsr, hDsr, h⟩ := except_bind_ok_iff.mp h
    obtain ⟨psr, hPsr, h⟩ := except_bind_ok_iff.mp h
    obtain ⟨bca, hBca, h⟩ := except_bind_ok_iff.mp h
    obtain ⟨permutation, hPermutation, h⟩ := except_bind_ok_iff.mp h
    obtain ⟨superiority, hSuperiority, h⟩ := except_bind_ok_iff.mp h
    cases h
    exact ⟨mapError_ok_iff.mp hDsr, mapError_ok_iff.mp hPsr, mapError_ok_iff.mp hBca,
      mapError_ok_iff.mp hPermutation, hSuperiority, rfl⟩
  · rintro ⟨hDsr, hPsr, hBca, hPermutation, hSuperiority, rfl⟩
    unfold evaluatePromotion
    rw [hDsr, hPsr, hBca, hPermutation, hSuperiority]
    rfl

omit [FloorRing K] in
theorem promoted_iff : decision.promoted = true ↔
    decision.passesDsr = true ∧ decision.passesPsr = true ∧ decision.passesProfitFactor = true ∧
      decision.passesPermutation = true ∧ decision.passesSuperiority = true := by
  simp [PromotionDecision.promoted, PromotionDecision.checks]

omit [FloorRing K] in
/-- The names of the failed gates are missing exactly when all pass. -/
theorem failedGates_eq_nil_iff : decision.failedGates = [] ↔ decision.promoted = true := by
  simp [PromotionDecision.failedGates, PromotionDecision.promoted]

end Gates

/-! ## Success -/

section Success

variable {K : Type} [Field K] [LinearOrder K] [FloorRing K] {γ : Type} (math : StatsModule K) (gen : Generator γ)
  {familyReturns : List (List K)} {benchReturns : Option (List K)} (superiorityMethod : SuperiorityMethod)
  {nResamples : ℕ} (seed : Option ℤ)

omit [FloorRing K] in
theorem superiorityOf_ok_iff : (∃ superiority,
    superiorityOf math gen familyReturns benchReturns superiorityMethod nResamples seed = .ok superiority) ↔
      minBootstrap ≤ nResamples ∧ ∃ n, Family familyReturns benchReturns n := by
  have hBlock : (1 : ℤ) ≤ defaultBlockLength := by decide
  constructor
  · rintro ⟨superiority, h⟩
    cases superiorityMethod with
    | spa =>
      cases hTest : spaTest math.toMathModule gen familyReturns benchReturns nResamples defaultBlockLength seed with
      | error e => simp [superiorityOf, hTest, Except.map, Except.mapError] at h
      | ok result =>
        obtain ⟨hResamples, -, hFamily⟩ := spaTest_ok_family hTest
        exact ⟨hResamples, _, hFamily⟩
    | wrc =>
      cases hTest : realityCheck math.sqrt gen familyReturns benchReturns nResamples defaultBlockLength seed with
      | error e => simp [superiorityOf, hTest, Except.map, Except.mapError] at h
      | ok result =>
        obtain ⟨hResamples, -, hFamily⟩ := realityCheck_ok hTest
        exact ⟨hResamples, _, hFamily⟩
  · rintro ⟨hResamples, n, hFamily⟩
    obtain ⟨x, hPrepared, -⟩ := hFamily.prepared
    cases superiorityMethod with
    | spa =>
      refine ⟨.inl (spaOf math.toMathModule gen x nResamples defaultBlockLength seed), ?_⟩
      unfold superiorityOf spaTest
      dsimp only
      rw [if_neg (not_lt.mpr hResamples), if_neg (not_lt.mpr hBlock), hPrepared]
      rfl
    | wrc =>
      refine ⟨.inr (realityCheckOf math.sqrt gen x nResamples defaultBlockLength seed), ?_⟩
      unfold superiorityOf realityCheck
      dsimp only
      rw [if_neg (not_lt.mpr hResamples), if_neg (not_lt.mpr hBlock), hPrepared]
      rfl

variable [IsStrictOrderedRing K]

theorem defaultConfidence_bounds : 0 < (defaultConfidence : K) ∧ (defaultConfidence : K) < 1 := by
  norm_num [defaultConfidence]

omit [IsStrictOrderedRing K] in
theorem probabilisticSharpe_ok_pos {math : StatsModule K} {returns : List K} {threshold periodsPerYear : K}
    {result : PSRResult K} (h : probabilisticSharpe math returns threshold periodsPerYear = .ok result) :
    0 < periodsPerYear := by
  by_contra hNonpos
  rw [probabilisticSharpe, if_pos (not_lt.mp hNonpos)] at h
  cases h

theorem evaluatePromotion_ok (laws : math.Laws) (strategyReturns : List K) (srTrials : List (Option K))
    (periodsPerYear : K) :
    (∃ decision, evaluatePromotion math gen strategyReturns familyReturns srTrials periodsPerYear benchReturns
      superiorityMethod nResamples seed = .ok decision) ↔
        0 < periodsPerYear ∧ 1000 ≤ nResamples ∧ 2 ≤ strategyReturns.length ∧
          ∃ n, Family familyReturns benchReturns n := by
  constructor
  · rintro ⟨decision, h⟩
    obtain ⟨-, hPsr, -, hPermutation, hSuperiority, -⟩ := evaluatePromotion_ok_iff.mp h
    obtain ⟨hResamples, hFamily⟩ := (superiorityOf_ok_iff math gen superiorityMethod seed).mp ⟨_, hSuperiority⟩
    exact ⟨probabilisticSharpe_ok_pos hPsr, hResamples, (permutationTest_ok hPermutation).2.2, hFamily⟩
  · rintro ⟨hPositive, hResamples, hReturns, hFamily⟩
    obtain ⟨dsr, hDsr, -⟩ := deflatedSharpe_ok laws hPositive strategyReturns srTrials
    obtain ⟨psr, hPsr, -⟩ := probabilisticSharpe_ok math strategyReturns 0 hPositive
    have hRun : ∃ bca, bcaBootstrap math gen strategyReturns profitFactor nResamples defaultConfidence seed = .ok bca :=
      (bcaBootstrap_ok_iff gen laws).mpr ⟨defaultConfidence_bounds, hResamples, hReturns⟩
    obtain ⟨bca, hBca⟩ := hRun
    obtain ⟨permutation, hPermutation, -⟩ := permutationTest_mean gen math.sqrt .signFlip hResamples
      (show 1 ≤ defaultBlockLength by decide) hReturns true seed
    obtain ⟨superiority, hSuperiority⟩ := (superiorityOf_ok_iff math gen superiorityMethod seed).mpr
      ⟨hResamples, hFamily⟩
    exact ⟨⟨dsr, psr, bca, permutation, superiority, superiorityMethod⟩, evaluatePromotion_ok_iff.mpr
      ⟨hDsr, hPsr, hBca, hPermutation, hSuperiority, rfl⟩⟩

end Success

/-! ## What a pass of each gate says -/

section Passes

variable {K : Type} [Field K] [LinearOrder K] [IsStrictOrderedRing K] [FloorRing K] {γ : Type} {math : StatsModule K}
  {gen : Generator γ}

omit [IsStrictOrderedRing K] [FloorRing K] in
theorem passesPsr_iff {result : PSRResult K} : result.passesPsr = true ↔ ∃ psr ∈ result.psr, psrThreshold < psr := by
  simp [PSRResult.passesPsr, Option.any_eq_true]

omit [IsStrictOrderedRing K] [FloorRing K] in
theorem passesDsr_iff {result : DSRResult K} : result.passesDsr = true ↔ ∃ dsr ∈ result.dsr, dsrThreshold < dsr := by
  simp [DSRResult.passesDsr, Option.any_eq_true]

variable {returns : List K} {periodsPerYear : K} (laws : math.Laws)

include laws in
theorem probabilisticSharpe_passes {result : PSRResult K}
    (h : probabilisticSharpe math returns 0 periodsPerYear = .ok result) (hPasses : result.passesPsr = true) :
    minObsReliable ≤ returns.length ∧ 0 < mean returns := by
  have hPositive := probabilisticSharpe_ok_pos h
  obtain ⟨_, hSame, hPsr, -⟩ := probabilisticSharpe_ok math returns 0 hPositive
  obtain rfl := Except.ok.inj (h.symm.trans hSame)
  obtain ⟨psr, hDefined, hAbove⟩ := passesPsr_iff.mp hPasses
  rw [hPsr] at hDefined
  obtain ⟨hVaries, hCount, -⟩ := psrOf_some laws hDefined
  have hHalf : 1 / 2 < psr := lt_trans (by norm_num [psrThreshold]) hAbove
  have hRatio := (half_lt_psr_iff laws hPositive hDefined).mp hHalf
  have hMean : 0 < mean returns / sampleStdev math.sqrt returns :=
    pos_of_mul_pos_left hRatio (laws.sqrt.nonneg _ hPositive.le)
  exact ⟨hCount, (div_pos_iff_of_pos_right ((sampleStdev_pos_iff laws).mpr hVaries)).mp hMean⟩

include laws in
/-- The deflated ratio passes only above the hurdle, and never without the probabilistic one. -/
theorem deflatedSharpe_passes {srTrials : List (Option K)} {dsr : DSRResult K}
    (h : deflatedSharpe math returns srTrials periodsPerYear = .ok dsr) {psr : PSRResult K}
    (hPsr : probabilisticSharpe math returns 0 periodsPerYear = .ok psr) (hPasses : dsr.passesDsr = true) :
    psr.passesPsr = true ∧ minTrials ≤ (finiteTrials srTrials).length ∧
      ∃ srStar ∈ dsr.srStar, ∃ sr ∈ dsr.srObserved, 0 ≤ srStar ∧ srStar < sr := by
  have hPositive := probabilisticSharpe_ok_pos hPsr
  obtain ⟨_, hSame, -, hDsr, hStar, hObserved⟩ := deflatedSharpe_ok laws hPositive returns srTrials
  obtain rfl := Except.ok.inj (h.symm.trans hSame)
  obtain ⟨_, hSame', hZero, -⟩ := probabilisticSharpe_ok math returns 0 hPositive
  obtain rfl := Except.ok.inj (hPsr.symm.trans hSame')
  obtain ⟨p, hDefined, hAbove⟩ := passesDsr_iff.mp hPasses
  rw [hDsr] at hDefined
  have hHurdle : 0 ≤ trialHurdle math srTrials := hurdle_nonneg laws _ _
  have hMany : ¬(finiteTrials srTrials).length < minTrials := by
    intro hFew
    rw [if_pos hFew] at hDefined
    cases hDefined
  rw [if_neg hMany] at hDefined hStar
  have hSome : psrOf math returns 0 periodsPerYear ≠ none := by
    rw [Ne, psrOf_eq_none_iff_at laws returns periodsPerYear 0 (trialHurdle math srTrials), hDefined]
    exact Option.some_ne_none p
  obtain ⟨p0, hAtZero⟩ := Option.ne_none_iff_exists'.mp hSome
  obtain ⟨pStar, hAtHurdle, hLe, -⟩ := psrOf_antitone laws hPositive hAtZero hHurdle
  obtain rfl : p = pStar := Option.some.inj (hDefined.symm.trans hAtHurdle)
  have hHalf : 1 / 2 < p := lt_trans (by norm_num [dsrThreshold]) hAbove
  have hRatio := (half_lt_psr_iff laws hPositive hDefined).mp hHalf
  rw [computeSharpeMoments_of_varies laws (psrOf_some laws hDefined).1] at hObserved
  have hSameBar : (psrThreshold : K) = dsrThreshold := rfl
  refine ⟨passesPsr_iff.mpr ⟨p0, hZero.trans hAtZero, hSameBar ▸ hAbove.trans_le hLe⟩, not_lt.mp hMany,
    _, hStar, _, hObserved, hHurdle, hRatio⟩

omit [IsStrictOrderedRing K] [FloorRing K] in
/-- Without a losing period the profit factor is no number. -/
theorem profitFactor_num {xs : List K} {pf : K} (h : profitFactor xs = .num pf) : ∃ r ∈ xs, r < 0 := by
  by_contra hNone
  push Not at hNone
  have hEmpty : xs.filter (fun r => r < 0) = [] :=
    List.filter_eq_nil_iff.mpr fun r hr => by simpa using hNone r hr
  unfold profitFactor at h
  dsimp only at h
  rw [hEmpty, List.map_nil, List.sum_nil, if_pos rfl] at h
  split_ifs at h

omit [IsStrictOrderedRing K] in
theorem bcaBootstrap_exceeds {statistic : List K → Extended K} {nResamples : ℕ} {confidence threshold : K}
    {seed : Option ℤ} {result : BCaResult K}
    (h : bcaBootstrap math gen returns statistic nResamples confidence seed = .ok result)
    (hExceeds : result.lowerExceeds threshold = true) : ∃ point, statistic returns = .num point := by
  refine Extended.isFinite_iff.mp ?_
  by_contra hInfinite
  rw [BCaResult.lowerExceeds, Option.any_eq_true] at hExceeds
  obtain ⟨lower, hLower, -⟩ := hExceeds
  unfold bcaBootstrap at h
  dsimp only at h
  by_cases hConfidence : ¬(0 < confidence ∧ confidence < 1)
  · rw [if_pos hConfidence] at h
    cases h
  rw [if_neg hConfidence] at h
  by_cases hResamples : nResamples < minResamples
  · rw [if_pos hResamples] at h
    cases h
  rw [if_neg hResamples] at h
  by_cases hData : returns.length < minData
  · rw [dif_pos hData] at h
    cases h
  rw [dif_neg hData] at h
  cases hPoint : statistic returns with
  | num point => exact hInfinite (Extended.isFinite_iff.mpr ⟨point, hPoint⟩)
  | nan | negInf | posInf =>
    rw [hPoint] at h
    cases h
    cases hLower

omit [FloorRing K] in
/-- A family without a better mean than the benchmark's has the p-value one. -/
theorem spaShare_of_inferior {sqrt : K → K} (hSqrt : IsSqrt sqrt) {nObs nBootstrap : ℕ}
    {paths : List (List (Fin nObs))} (hPaths : paths.length = nBootstrap) (tau : K) {rows : List (List K)}
    (hRows : ∀ row ∈ rows, row.sum ≤ 0) : spaShare sqrt paths nBootstrap tau rows = 1 := by
  have hRoot := hSqrt.nonneg (nObs : K) (Nat.cast_nonneg _)
  have hBest : bestOf (rows.map (rowT sqrt paths nBootstrap)) ≤ 0 := by
    change _ ≤ bestOf []
    apply bestOf_le
    rw [List.forall_mem_map]
    intro row hRow
    left
    rw [rowT, studentized]
    split_ifs with hOmega
    · have hMean : rowMean nObs row ≤ 0 := div_nonpos_of_nonpos_of_nonneg (hRows row hRow) (Nat.cast_nonneg _)
      exact div_nonpos_of_nonpos_of_nonneg (mul_nonpos_of_nonneg_of_nonpos hRoot hMean) hOmega.le
    · exact le_rfl
  unfold spaShare
  rw [List.countP_eq_length.mpr fun idx _ => decide_eq_true (le_bestOf_iff.mpr (.inl hBest)), hPaths]
  exact div_self (Nat.cast_add_one_ne_zero nBootstrap)

omit [FloorRing K] in
/-- A strategy that moves, but never to twice its mean, is ahead of every draw. -/
theorem spaShare_of_clear {sqrt : K → K} (hSqrt : IsSqrt sqrt) {nObs nBootstrap : ℕ} {paths : List (List (Fin nObs))}
    (hObs : 0 < nObs) {tau : K} (hTau : 0 ≤ tau) {row : List K} (hValid : 0 < rowOmega sqrt paths nBootstrap row)
    (hMean : 0 < rowMean nObs row) (hBelow : ∀ idx ∈ paths, pathMean row idx < 2 * rowMean nObs row) :
    spaShare sqrt paths nBootstrap tau [row] = 1 / (nBootstrap + 1) := by
  have hRoot : 0 < sqrt (nObs : K) := hSqrt.pos (Nat.cast_pos.mpr hObs)
  have hT := rowT_pos hSqrt hObs hValid hMean
  have hAhead : ∀ idx ∈ paths, rowVal sqrt paths nBootstrap tau row idx < rowT sqrt paths nBootstrap row := by
    intro idx hIdx
    have hCentred := hBelow idx hIdx
    rw [rowVal, if_pos ⟨hValid, (neg_nonpos.mpr hTau).trans hT.le⟩, rowT, studentized, if_pos hValid]
    exact div_lt_div_of_pos_right (mul_lt_mul_of_pos_left (by linarith) hRoot) hValid
  have hNone : paths.countP (fun idx => bestOf ([row].map (rowT sqrt paths nBootstrap)) ≤
      bestOf (([row].filter fun row => 0 < rowOmega sqrt paths nBootstrap row).map
        fun row => rowVal sqrt paths nBootstrap tau row idx)) = 0 := by
    rw [List.countP_eq_zero]
    intro idx hIdx
    have hLess := hAhead idx hIdx
    simp only [List.filter_cons, hValid, List.filter_nil, List.map_cons, List.map_nil, bestOf, List.foldl_cons,
      List.foldl_nil, decide_true, if_true, decide_eq_true_eq, not_le]
    exact max_lt (lt_max_of_lt_right hT) (lt_max_of_lt_right hLess)
  rw [spaShare, hNone, Nat.cast_zero, zero_add]

/-- A significant superiority needs a strategy that beats the benchmark. -/
theorem spaTest_significant {math : Cv.MathModule K} (hSqrt : IsSqrt math.sqrt) {strategies : List (List K)}
    {bench : Option (List K)} {nBootstrap : ℕ} {blockLength : ℤ} {seed : Option ℤ} {result : SPAResult K}
    (h : spaTest math gen strategies bench nBootstrap blockLength seed = .ok result)
    (hSignificant : result.significant = true) :
    ∃ s ∈ strategies, (bench.getD (List.replicate result.nObs 0)).sum < s.sum := by
  obtain ⟨hBootstrap, hBlock, hFamily⟩ := spaTest_ok_family h
  have : NeZero result.nObs := ⟨(zero_lt_two.trans_le hFamily.observed).ne'⟩
  obtain ⟨_, hSame, hPValue⟩ := spaTest_of_family gen seed math hBootstrap hBlock hFamily
  obtain rfl := Except.ok.inj (h.symm.trans hSame)
  by_contra hNone
  push Not at hNone
  have hInferior : ∀ row ∈ strategies.map (differential bench result.nObs), row.sum ≤ 0 := by
    rw [List.forall_mem_map]
    intro s hs
    rw [sum_differential ((hFamily.rows s hs).trans hFamily.bench_length.symm)]
    exact sub_nonpos.mpr (hNone s hs)
  have hPaths : (gatePaths gen result.nObs nBootstrap blockLength seed).length = nBootstrap :=
    length_drawnPaths _ _ _ _
  rw [spaShare_of_inferior hSqrt hPaths _ hInferior] at hPValue
  have hBelow := of_decide_eq_true hSignificant
  rw [hPValue] at hBelow
  norm_num [spaAlpha] at hBelow

end Passes

/-! ## Draws that repeat themselves -/

section Repeated

variable {γ : Type} {gen : Generator γ} {rng : γ}

/-- What draws the same each time draws copies. -/
theorem eq_replicate_of_repeated {α : Type} (draws : ℕ → List α) {drawn : α} (hNone : draws 0 = [])
    (hNext : ∀ n, draws (n + 1) = drawn :: draws n) (n : ℕ) : draws n = List.replicate n drawn := by
  induction n with
  | zero => exact hNone
  | succ n ih => rw [hNext, ih, List.replicate_succ]

theorem resamples_of_repeated {K : Type} {data drawn : List K} [NeZero data.length]
    (h : resample gen data data.length rng = (drawn, rng)) (draws : ℕ) :
    resamples gen data draws rng = List.replicate draws drawn :=
  eq_replicate_of_repeated (fun n => resamples gen data n rng) rfl (fun n => by rw [resamples, h]) draws

theorem permutedDraws_of_repeated {K : Type} [Neg K] {returns drawn : List K} {mode : PermutationMode} {blockLength : ℕ}
    (h : permute gen returns mode blockLength rng = (drawn, rng)) (draws : ℕ) :
    permutedDraws gen returns mode blockLength draws rng = List.replicate draws drawn :=
  eq_replicate_of_repeated (fun n => permutedDraws gen returns mode blockLength n rng) rfl
    (fun n => by rw [permutedDraws, h]) draws

theorem drawnPaths_of_repeated {n : ℕ} [NeZero n] {newBlockP : ℚ} {horizon : ℕ} {path : List (Fin n)}
    (h : stationaryPath gen horizon newBlockP rng = (path, rng)) (paths : ℕ) :
    drawnPaths gen newBlockP horizon paths rng = List.replicate paths path :=
  eq_replicate_of_repeated (fun k => drawnPaths gen newBlockP horizon k rng) rfl
    (fun k => by rw [drawnPaths_succ, h]) paths

end Repeated

/-- A promoted strategy has ten returns and a losing one among them, earns on average, and has a ratio above
the hurdle of at least two trials; under the superior-ability test some strategy of the family beats the
benchmark. -/
theorem promoted_requires {γ : Type} {gen : Generator γ} {strategyReturns : List ℝ} {familyReturns : List (List ℝ)}
    {srTrials : List (Option ℝ)} {periodsPerYear : ℝ} {benchReturns : Option (List ℝ)}
    {superiorityMethod : SuperiorityMethod} {nResamples : ℕ} {seed : Option ℤ} {decision : PromotionDecision ℝ}
    (h : evaluatePromotion realStats gen strategyReturns familyReturns srTrials periodsPerYear benchReturns
      superiorityMethod nResamples seed = .ok decision) :
    ("probabilistic_sharpe" ∈ decision.failedGates → "deflated_sharpe" ∈ decision.failedGates) ∧
    (decision.failedGates = [] →
      10 ≤ strategyReturns.length ∧ 0 < mean strategyReturns ∧ (∃ r ∈ strategyReturns, r < 0) ∧
      2 ≤ (srTrials.filterMap id).length ∧
      (∃ srStar ∈ decision.dsr.srStar, ∃ sr ∈ decision.dsr.srObserved, 0 ≤ srStar ∧ srStar < sr) ∧
      (superiorityMethod = .spa → ∃ n, (∀ s ∈ familyReturns, s.length = n) ∧
        ∃ s ∈ familyReturns, (benchReturns.getD (List.replicate n 0)).sum < s.sum)) := by
  obtain ⟨hDsr, hPsr, hBca, -, hSuperiority, rfl⟩ := evaluatePromotion_ok_iff.mp h
  constructor
  · intro hFailed
    have hPsrFails : decision.passesPsr = false := by
      cases hMethod : decision.superiorityMethod <;>
        simpa [PromotionDecision.failedGates, PromotionDecision.checks, hMethod, SuperiorityMethod.value] using hFailed
    have hDsrFails : decision.passesDsr = false := by
      refine Bool.eq_false_iff.mpr fun hPasses => Bool.eq_false_iff.mp hPsrFails ?_
      exact (deflatedSharpe_passes realStats_laws hDsr hPsr hPasses).1
    simp [PromotionDecision.failedGates, PromotionDecision.checks, hDsrFails]
  · intro hNone
    obtain ⟨hPassesDsr, hPassesPsr, hPassesPf, -, hPassesSuperiority⟩ :=
      promoted_iff.mp (failedGates_eq_nil_iff.mp hNone)
    obtain ⟨hCount, hMean⟩ := probabilisticSharpe_passes realStats_laws hPsr hPassesPsr
    obtain ⟨-, hTrials, hHurdle⟩ := deflatedSharpe_passes realStats_laws hDsr hPsr hPassesDsr
    obtain ⟨pf, hPf⟩ := bcaBootstrap_exceeds hBca hPassesPf
    refine ⟨hCount, hMean, profitFactor_num hPf, hTrials, hHurdle, fun hSpa => ?_⟩
    rw [hSpa, superiorityOf] at hSuperiority
    cases hTest : spaTest realStats.toMathModule gen familyReturns benchReturns nResamples defaultBlockLength seed with
    | error e => simp [hTest, Except.map, Except.mapError] at hSuperiority
    | ok result =>
      rw [hTest] at hSuperiority
      have hResult : Sum.inl result = decision.superiority := Except.ok.inj hSuperiority
      rw [PromotionDecision.passesSuperiority, ← hResult, Sum.elim_inl] at hPassesSuperiority
      exact ⟨result.nObs, (spaTest_ok_family hTest).2.2.rows,
        spaTest_significant isSqrt_real hTest hPassesSuperiority⟩

/-- Draws an index of the middle and of the front in turn, and starts a new block after the middle only. -/
def swinging : Generator Bool where
  seeded _ := true
  randrange n _ atMiddle := (Fin.ofNat n (if atMiddle then n / 2 else 0), !atMiddle)
  random atMiddle := (if atMiddle then 1 / 2 else 0, atMiddle)

noncomputable def swings : List ℝ := [199, -1, 199, -1, 199, -1, 199, -1, 199, -1, 199, -1, -1, 199]

instance neZero_swings : NeZero swings.length := ⟨by simp [swings]⟩

theorem swings_resampled : resample swinging swings swings.length true =
    ([-1, 199, -1, 199, -1, 199, -1, 199, -1, 199, -1, 199, -1, 199], true) := rfl

theorem swings_flipped : permute swinging swings .signFlip 5 true =
    ([-199, - -1, -199, - -1, -199, - -1, -199, - -1, -199, - -1, -199, - -1, - -1, -199], true) := by
  simp [permute, flipSigns, swings, swinging, fairCoinP]

theorem swings_path : stationaryPath swinging 14 (1 / (5 : ℤ)) true =
    (([7, 0, 1, 2, 3, 4, 5, 6, 7, 8, 9, 10, 11, 12] : List (Fin 14)), true) := by
  decide +kernel

theorem swings_moments : (momentsOf realStats swings).skew = 0 ∧ (momentsOf realStats swings).kurt = 1 ∧
    (momentsOf realStats swings).srPerPeriod ^ 2 = 127413 / 140000 ∧
    0 < (momentsOf realStats swings).srPerPeriod := by
  have hMean : mean swings = 99 := by norm_num [mean, swings]
  have hLength : (swings.length : ℝ) = 14 := by norm_num [swings]
  have hMoment : ∀ order, centralMoment swings order = (100 ^ order + (-100) ^ order) / 2 := by
    intro order
    rw [centralMoment, hMean, average, hLength]
    norm_num [swings]
    ring
  have hStdev : sampleStdev realStats.sqrt swings = Real.sqrt (140000 / 13) := by
    have hTwo := hMoment 2
    rw [centralMoment_two, hLength, div_eq_iff (by norm_num)] at hTwo
    rw [sampleStdev, hTwo, hLength]
    norm_num [realStats, realMath]
  refine ⟨?_, ?_, ?_, ?_⟩
  · norm_num [momentsOf, hMoment]
  · norm_num [momentsOf, hMoment]
  · rw [momentsOf, hMean, hStdev, div_pow, Real.sq_sqrt (by norm_num)]
    norm_num
  · rw [momentsOf, hMean, hStdev]
    positivity

theorem swings_psr : ∃ psr, psrOf realStats swings 0 252 = some psr ∧ psrThreshold < psr := by
  obtain ⟨hSkew, hKurt, hSquare, hPos⟩ := swings_moments
  have hVaries : Varies swings := ⟨199, by simp [swings], -1, by simp [swings], by norm_num⟩
  have hTerm : varianceTerm (momentsOf realStats swings).srPerPeriod (momentsOf realStats swings).skew
      (momentsOf realStats swings).kurt = 1 := by
    rw [hSkew, hKurt, varianceTerm]
    norm_num
  have hQuantile : realStats.normal.quantile (19 / 20) ≤ 33 / 10 := by
    rw [realStats_laws.normal.quantile_le_iff (by norm_num) (by norm_num)]
    exact le_trans (by norm_num) (gaussianCdf_ge (show (0 : ℝ) < 33 / 10 by norm_num))
  have hQuantilePos := realStats_laws.normal.quantile_pos (show (1 : ℝ) / 2 < 19 / 20 by norm_num) (by norm_num)
  have hTrack : 1 + 1 * (realStats.normal.quantile (1 - 1 / 20) / ((momentsOf realStats swings).srPerPeriod -
      0 / realStats.sqrt 252)) ^ 2 < (swings.length : ℝ) := by
    have hAt : (1 : ℝ) - 1 / 20 = 19 / 20 := by norm_num
    have hCount : (swings.length : ℝ) = 14 := by norm_num [swings]
    rw [hAt, hCount, zero_div, sub_zero, div_pow, hSquare]
    have hSquares := pow_le_pow_left₀ hQuantilePos.le hQuantile 2
    norm_num at hSquares ⊢
    linarith
  have hKernel : ∃ psr, psrKernel realStats (momentsOf realStats swings).srPerPeriod (0 / realStats.sqrt 252)
      swings.length (momentsOf realStats swings).skew (momentsOf realStats swings).kurt = some psr ∧
        1 - 1 / 20 < psr := by
    rw [lt_psrKernel_iff _ _ _ _ realStats_laws (by decide) (by norm_num) (by norm_num)]
    refine ⟨_, minTrackRecordLength_of_pos (by rwa [zero_div]) (hTerm ▸ one_pos) (by norm_num) (by norm_num), ?_⟩
    rw [hTerm]
    exact hTrack
  obtain ⟨psr, hPsr, hAbove⟩ := hKernel
  have hBar : (psrThreshold : ℝ) = 1 - 1 / 20 := by norm_num [psrThreshold]
  exact ⟨psr, (psrOf_of_varies realStats_laws hVaries (by decide)).trans hPsr, hBar ▸ hAbove⟩

theorem swings_bca : ∃ result,
    bcaBootstrap realStats swinging swings profitFactor 1000 defaultConfidence none = .ok result ∧
      result.lowerExceeds pfLowerThreshold = true := by
  have hPoint : profitFactor swings = .num 199 := by
    norm_num [profitFactor, swings]
  have hDrawn : profitFactor [(-1 : ℝ), 199, -1, 199, -1, 199, -1, 199, -1, 199, -1, 199, -1, 199] = .num 199 := by
    norm_num [profitFactor]
  have hBoot : bootOf swinging swings profitFactor 1000 none = (List.replicate 1000 (199 : ℝ)).map .num := by
    rw [bootOf, show swinging.seeded none = true from rfl, resamples_of_repeated swings_resampled,
      List.map_replicate, hDrawn, List.filter_replicate_of_pos rfl, List.map_replicate]
  refine bcaBootstrap_exceeds_of_values swinging realStats_laws defaultConfidence_bounds (le_refl 1000) (by decide)
    hPoint List.length_replicate hBoot fun v hv => ?_
  rw [List.eq_of_mem_replicate hv]
  norm_num [pfLowerThreshold]

theorem swings_permutation : ∃ result,
    permutationTest realStats.sqrt swinging swings meanReturn 1000 .signFlip defaultBlockLength true none =
        .ok result ∧ result.passesPermutation = true := by
  obtain ⟨result, hOk, hPValue⟩ := permutationTest_mean swinging realStats.sqrt .signFlip (le_refl 1000)
    (show 1 ≤ defaultBlockLength by decide) (show minPermutedReturns ≤ swings.length by decide) true none
  have hDraws := permutedDraws_of_repeated swings_flipped 1000
  have hShare : meanShare true (mean swings) (List.replicate 1000 (mean [(-199 : ℝ), - -1, -199, - -1, -199, - -1,
      -199, - -1, -199, - -1, -199, - -1, - -1, -199])) = 1 / 1001 := by
    rw [meanShare, if_pos rfl, List.countP_replicate, List.length_replicate, if_neg (by norm_num [mean, swings])]
    norm_num
  refine ⟨result, hOk, ?_⟩
  rw [show defaultBlockLength.toNat = 5 from rfl, show swinging.seeded none = true from rfl, hDraws,
    List.map_replicate, hShare] at hPValue
  rw [PermutationResult.passesPermutation, hPValue, Option.any_some, decide_eq_true_eq]
  norm_num [permutationPThreshold]

theorem swings_superiority : ∃ result,
    spaTest realStats.toMathModule swinging [swings] none 1000 defaultBlockLength none = .ok result ∧
      result.significant = true := by
  have hFamily : Family [swings] none 14 := ⟨by simp [minStrategies], by simp [minObs], by simp [swings], by simp⟩
  obtain ⟨result, hOk, hPValue⟩ := spaTest_of_family swinging none realStats.toMathModule (le_refl 1000)
    (show 1 ≤ defaultBlockLength by decide) hFamily
  have hRows : [swings].map (differential none 14) = [swings] :=
    congrArg (fun row => [row]) (sub_zeros (by simp [swings]))
  have hMean : rowMean 14 swings = 99 := by
    norm_num [rowMean, swings]
  have hPath : pathMean swings ([7, 0, 1, 2, 3, 4, 5, 6, 7, 8, 9, 10, 11, 12] : List (Fin 14)) = 593 / 7 := by
    norm_num [pathMean, swings]
  have hPaths : gatePaths swinging 14 1000 defaultBlockLength none =
      List.replicate 1000 [7, 0, 1, 2, 3, 4, 5, 6, 7, 8, 9, 10, 11, 12] :=
    drawnPaths_of_repeated swings_path 1000
  have hSqrt : IsSqrt realStats.sqrt := isSqrt_real
  have hValid : 0 < rowOmega realStats.sqrt (gatePaths swinging 14 1000 defaultBlockLength none) 1000 swings := by
    refine rowOmega_pos hSqrt (by decide) (by decide)
      (hPaths ▸ List.mem_replicate.mpr ⟨by decide, rfl⟩) ?_
    rw [hPath, hMean]
    norm_num
  have hBelow : ∀ idx ∈ gatePaths swinging 14 1000 defaultBlockLength none,
      pathMean swings idx < 2 * rowMean 14 swings := by
    intro idx hIdx
    rw [hPaths] at hIdx
    rw [List.eq_of_mem_replicate hIdx, hPath, hMean]
    norm_num
  have hTau : 0 ≤ spaTau realStats.toMathModule 14 := Real.sqrt_nonneg _
  refine ⟨result, hOk, decide_eq_true ?_⟩
  rw [hPValue, hRows, spaShare_of_clear hSqrt (by decide) hTau hValid (by rw [hMean]; norm_num) hBelow]
  norm_num [spaAlpha]

theorem swings_sharpe : ∃ dsr psr,
    deflatedSharpe realStats swings [some 1, some 1] 252 = .ok dsr ∧
      probabilisticSharpe realStats swings 0 252 = .ok psr ∧ dsr.passesDsr = true ∧ psr.passesPsr = true := by
  obtain ⟨p, hPsr, hAbove⟩ := swings_psr
  have hPositive : (0 : ℝ) < 252 := by norm_num
  obtain ⟨psr, hOkPsr, hPsrIs, -⟩ := probabilisticSharpe_ok realStats swings 0 hPositive
  obtain ⟨dsr, hOkDsr, -, hDsrIs, -⟩ := deflatedSharpe_ok realStats_laws hPositive swings [some 1, some 1]
  have hHurdle : 0 = trialHurdle realStats [some 1, some 1] := by
    rw [trialHurdle_eq_zero_iff realStats_laws]
    rintro ⟨a, ha, b, hb, hDiffer⟩
    simp only [finiteTrials, List.filterMap_cons, id_eq, List.filterMap_nil, List.mem_cons, List.not_mem_nil,
      or_false, or_self] at ha hb
    exact hDiffer (ha.trans hb.symm)
  rw [if_neg (by simp [finiteTrials, minTrials]), ← hHurdle, hPsr] at hDsrIs
  exact ⟨dsr, psr, hOkDsr, hOkPsr, passesDsr_iff.mpr ⟨p, hDsrIs, hAbove⟩,
    passesPsr_iff.mpr ⟨p, hPsrIs.trans hPsr, hAbove⟩⟩

/-- A strategy that passes all five gates. -/
theorem promoted_requires_swings : ∃ decision,
    evaluatePromotion realStats swinging swings [swings] [some 1, some 1] 252 none .spa 1000 none = .ok decision ∧
      decision.promoted = true ∧ 0 < mean swings ∧ (∃ r ∈ swings, r < 0) ∧
      (∃ srStar ∈ decision.dsr.srStar, ∃ sr ∈ decision.dsr.srObserved, 0 ≤ srStar ∧ srStar < sr) ∧
      ∃ s ∈ [swings], 0 < s.sum := by
  obtain ⟨dsr, psr, hDsr, hPsr, hPassesDsr, hPassesPsr⟩ := swings_sharpe
  obtain ⟨bca, hBca, hExceeds⟩ := swings_bca
  obtain ⟨permutation, hPermutation, hPasses⟩ := swings_permutation
  obtain ⟨superiority, hSpa, hSignificant⟩ := swings_superiority
  have hSuperiority : superiorityOf realStats swinging [swings] none .spa 1000 none = .ok (.inl superiority) := by
    rw [superiorityOf, hSpa]
    rfl
  have hOk : evaluatePromotion realStats swinging swings [swings] [some 1, some 1] 252 none .spa 1000 none =
      .ok ⟨dsr, psr, bca, permutation, .inl superiority, .spa⟩ :=
    evaluatePromotion_ok_iff.mpr ⟨hDsr, hPsr, hBca, hPermutation, hSuperiority, rfl⟩
  have hPromoted : (⟨dsr, psr, bca, permutation, .inl superiority, .spa⟩ : PromotionDecision ℝ).promoted = true :=
    promoted_iff.mpr ⟨hPassesDsr, hPassesPsr, hExceeds, hPasses, hSignificant⟩
  obtain ⟨-, hMean, hLosing, -, hHurdle, hBest⟩ := (promoted_requires hOk).2 (failedGates_eq_nil_iff.mpr hPromoted)
  obtain ⟨n, -, s, hs, hBeats⟩ := hBest rfl
  rw [Option.getD_none, List.sum_replicate, smul_zero] at hBeats
  exact ⟨_, hOk, hPromoted, hMean, hLosing, hHurdle, s, hs, hBeats⟩

/-! ## Leverage -/

section Leverage

variable {K : Type} [Field K] [LinearOrder K] [IsStrictOrderedRing K] [FloorRing K] {γ : Type} {math : StatsModule K}
  {gen : Generator γ} {c : K}

omit [FloorRing K] in
theorem superiorityOf_levered (laws : math.Laws) (hc : 0 < c) {familyReturns : List (List K)}
    {benchReturns : Option (List K)} {superiorityMethod : SuperiorityMethod} {nResamples : ℕ} {seed : Option ℤ}
    {superiority : SPAResult K ⊕ RealityCheckResult K}
    (h : superiorityOf math gen familyReturns benchReturns superiorityMethod nResamples seed = .ok superiority) :
    ∃ superiority', superiorityOf math gen (familyReturns.map (levered c)) (benchReturns.map (levered c))
        superiorityMethod nResamples seed = .ok superiority' ∧
      superiority'.elim SPAResult.significant RealityCheckResult.significant =
        superiority.elim SPAResult.significant RealityCheckResult.significant := by
  cases superiorityMethod with
  | spa =>
    unfold superiorityOf at h ⊢
    cases hTest : spaTest math.toMathModule gen familyReturns benchReturns nResamples defaultBlockLength seed with
    | error e => simp [hTest, Except.map, Except.mapError] at h
    | ok result =>
      obtain ⟨result', hTest', hPValue⟩ := spaTest_levered laws.sqrt hc hTest
      rw [hTest] at h
      obtain rfl : Sum.inl result = superiority := Except.ok.inj h
      dsimp only
      rw [hTest']
      refine ⟨.inl result', rfl, ?_⟩
      rw [Sum.elim_inl, Sum.elim_inl, SPAResult.significant, SPAResult.rejectNullAt, hPValue]
      rfl
  | wrc =>
    unfold superiorityOf at h ⊢
    cases hTest : realityCheck math.sqrt gen familyReturns benchReturns nResamples defaultBlockLength seed with
    | error e => simp [hTest, Except.map, Except.mapError] at h
    | ok result =>
      obtain ⟨result', hTest', hPValue⟩ := realityCheck_levered laws.sqrt hc hTest
      rw [hTest] at h
      obtain rfl : Sum.inr result = superiority := Except.ok.inj h
      dsimp only
      rw [hTest']
      refine ⟨.inr result', rfl, ?_⟩
      rw [Sum.elim_inr, Sum.elim_inr, RealityCheckResult.significant, RealityCheckResult.rejectNullAt, hPValue]
      rfl

omit [FloorRing K] in
theorem permutationTest_levered (hc : 0 < c) {sqrt : K → K} {returns : List K} {nPermutations : ℕ}
    {blockLength : ℤ} {oneSided : Bool} {seed : Option ℤ} {result : PermutationResult K}
    (h : permutationTest sqrt gen returns meanReturn nPermutations .signFlip blockLength oneSided seed = .ok result) :
    ∃ result', permutationTest sqrt gen (levered c returns) meanReturn nPermutations .signFlip blockLength oneSided
      seed = .ok result' ∧ result'.pValue = result.pValue := by
  obtain ⟨hPermutations, hBlock, hReturns⟩ := permutationTest_ok h
  obtain ⟨_, hSame, hPValue⟩ := permutationTest_mean gen sqrt .signFlip hPermutations hBlock hReturns oneSided seed
  obtain rfl := Except.ok.inj (h.symm.trans hSame)
  obtain ⟨result', hOk', hPValue'⟩ := permutationTest_mean gen sqrt .signFlip hPermutations hBlock
    ((length_levered c returns).symm ▸ hReturns) oneSided seed
  have hMean : ∀ xs : List K, mean (levered c xs) = c * mean xs := fun xs => mean_scaled c xs
  have hNull : ((permutedDraws gen returns .signFlip blockLength.toNat nPermutations (gen.seeded seed)).map
      (levered c)).map mean =
      levered c ((permutedDraws gen returns .signFlip blockLength.toNat nPermutations (gen.seeded seed)).map mean) := by
    rw [List.map_map, levered, List.map_map]
    exact List.map_congr_left fun xs _ => hMean xs
  refine ⟨result', hOk', ?_⟩
  rw [hPValue', hPValue, permutedDraws_levered, hNull, hMean, meanShare_levered hc]

theorem evaluatePromotion_levered (laws : math.Laws) (hc : 0 < c) {strategyReturns : List K}
    {familyReturns : List (List K)} {srTrials : List (Option K)} {periodsPerYear : K} {benchReturns : Option (List K)}
    {superiorityMethod : SuperiorityMethod} {nResamples : ℕ} {seed : Option ℤ} {decision : PromotionDecision K}
    (h : evaluatePromotion math gen strategyReturns familyReturns srTrials periodsPerYear benchReturns
      superiorityMethod nResamples seed = .ok decision) :
    ∃ decision', evaluatePromotion math gen (levered c strategyReturns) (familyReturns.map (levered c)) srTrials
        periodsPerYear (benchReturns.map (levered c)) superiorityMethod nResamples seed = .ok decision' ∧
      decision'.dsr = decision.dsr ∧ decision'.psr = decision.psr ∧
      decision'.bcaProfitFactor = decision.bcaProfitFactor ∧
      decision'.permutation.pValue = decision.permutation.pValue ∧ decision'.checks = decision.checks := by
  obtain ⟨hDsr, hPsr, hBca, hPermutation, hSuperiority, rfl⟩ := evaluatePromotion_ok_iff.mp h
  obtain ⟨permutation, hPermutation', hPValue⟩ := permutationTest_levered hc hPermutation
  obtain ⟨superiority, hSuperiority', hSignificant⟩ := superiorityOf_levered laws hc hSuperiority
  refine ⟨{ decision with permutation := permutation, superiority := superiority },
    evaluatePromotion_ok_iff.mpr ⟨?_, ?_, ?_, hPermutation', hSuperiority', rfl⟩, rfl, rfl, rfl, hPValue, ?_⟩
  · exact (deflatedSharpe_levered laws hc strategyReturns srTrials periodsPerYear).trans hDsr
  · exact (probabilisticSharpe_levered laws hc strategyReturns 0 periodsPerYear).trans hPsr
  · exact (bcaBootstrap_levered math gen (profitFactor_levered hc) strategyReturns nResamples _ seed).trans hBca
  · simp only [PromotionDecision.checks, PromotionDecision.passesDsr, PromotionDecision.passesPsr,
      PromotionDecision.passesProfitFactor, PromotionDecision.passesPermutation,
      PermutationResult.passesPermutation, PromotionDecision.passesSuperiority, hPValue, hSignificant]

end Leverage

/-- The leverage at which a family was run does not change which gates it passes. -/
theorem evaluatePromotion_leverage {γ : Type} {gen : Generator γ} {strategyReturns : List ℝ}
    {familyReturns : List (List ℝ)} {srTrials : List (Option ℝ)} {periodsPerYear : ℝ} {benchReturns : Option (List ℝ)}
    {superiorityMethod : SuperiorityMethod} {nResamples : ℕ} {seed : Option ℤ} {decision : PromotionDecision ℝ}
    (h : evaluatePromotion realStats gen strategyReturns familyReturns srTrials periodsPerYear benchReturns
      superiorityMethod nResamples seed = .ok decision) {c : ℝ} (hc : 0 < c) :
    ∃ decision', evaluatePromotion realStats gen (strategyReturns.map fun r => c * r)
        (familyReturns.map fun s => s.map fun r => c * r) srTrials periodsPerYear
        (benchReturns.map fun b => b.map fun r => c * r) superiorityMethod nResamples seed = .ok decision' ∧
      decision'.dsr = decision.dsr ∧ decision'.psr = decision.psr ∧
      decision'.bcaProfitFactor = decision.bcaProfitFactor ∧
      decision'.permutation.pValue = decision.permutation.pValue ∧
      decision'.promoted = decision.promoted ∧ decision'.failedGates = decision.failedGates := by
  obtain ⟨decision', hOk, hDsr, hPsr, hBca, hPValue, hChecks⟩ := evaluatePromotion_levered realStats_laws hc h
  refine ⟨decision', hOk, hDsr, hPsr, hBca, hPValue, ?_, ?_⟩
  · rw [PromotionDecision.promoted, PromotionDecision.promoted, hChecks]
  · rw [PromotionDecision.failedGates, PromotionDecision.failedGates, hChecks]

/-- The four periods at twice the size. -/
theorem evaluatePromotion_leverage_four : ∃ decision decision',
    evaluatePromotion realStats counting [1, 2, -1, 2] [[1, 2, -1, 2]] [some 1, some 2] 252 none .wrc 1000 (some 7) =
        .ok decision ∧
      evaluatePromotion realStats counting ([1, 2, -1, 2].map fun r => 2 * r)
        ([[1, 2, -1, 2]].map fun s => s.map fun r => 2 * r) [some 1, some 2] 252 none .wrc 1000 (some 7) =
          .ok decision' ∧
      decision'.failedGates = decision.failedGates := by
  obtain ⟨decision, hOk⟩ := (evaluatePromotion_ok realStats counting .wrc (some 7) realStats_laws [1, 2, -1, 2]
    [some 1, some 2] 252).mpr ⟨by norm_num, le_rfl, by simp, 4, (⟨by simp [minStrategies], by simp [minObs], by simp,
      by simp⟩ : Family [[(1 : ℝ), 2, -1, 2]] none 4)⟩
  obtain ⟨decision', hOk', -, -, -, -, -, hFailed⟩ := evaluatePromotion_leverage hOk (show (0 : ℝ) < 2 from two_pos)
  exact ⟨decision, decision', hOk, hOk', hFailed⟩

end Futur3.Stats
