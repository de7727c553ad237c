import Futur3.Stats.BootstrapSpec
import Futur3.Stats.DeflationSpec
import Futur3.Stats.PromotionGate

/-! # The gates do not see the scale of the returns

A positive factor on all returns is the leverage at which they were earned. It leaves the
Sharpe moments and the profit factor as they are, and moves the mean, its permuted values
and the differentials by the same factor.
-/

namespace Futur3.Stats

open Prelude Execution Deviations

def levered {K : Type} [Mul K] (c : K) (returns : List K) : List K := returns.map fun r => c * r

theorem length_levered {K : Type} [Mul K] (c : K) (returns : List K) :
    (levered c returns).length = returns.length := List.length_map _

section Sharpe

variable {K : Type} [Field K] [LinearOrder K] [IsStrictOrderedRing K] {math : StatsModule K} {c : K}

omit [LinearOrder K] [IsStrictOrderedRing K] in
theorem varies_levered (hc : c ≠ 0) (returns : List K) : Varies (levered c returns) ↔ Varies returns :=
  varies_map (mul_right_injective₀ hc)

theorem sampleStdev_levered (laws : math.Laws) (hc : 0 ≤ c) {returns : List K} (hVaries : Varies returns) :
    sampleStdev math.sqrt (levered c returns) = c * sampleStdev math.sqrt returns := by
  rw [sampleStdev, levered, squares_scaled, List.length_map, mul_div_assoc]
  exact laws.sqrt.scaled hc hVaries.variance_pos.le

theorem momentsOf_levered (laws : math.Laws) (hc : 0 < c) {returns : List K} (hVaries : Varies returns) :
    momentsOf math (levered c returns) = momentsOf math returns := by
  have hMoment := centralMoment_two_pos_iff.mpr hVaries
  have hRoot := laws.sqrt.pos hMoment
  have hScaled := laws.sqrt.scaled hc.le hMoment.le
  unfold momentsOf
  rw [sampleStdev_levered laws hc.le hVaries, levered, mean_scaled, centralMoment_scaled, centralMoment_scaled,
    centralMoment_scaled, List.length_map, hScaled, mul_div_mul_left _ _ hc.ne']
  congr 1
  · have hCube : c ^ 2 * centralMoment returns 2 * (c * math.sqrt (centralMoment returns 2)) =
        c ^ 3 * (centralMoment returns 2 * math.sqrt (centralMoment returns 2)) := by ring
    rw [hCube, mul_div_mul_left _ _ (pow_pos hc 3).ne']
  · rw [mul_pow, ← pow_mul, mul_div_mul_left _ _ (pow_pos hc 4).ne']

theorem computeSharpeMoments_levered (laws : math.Laws) (hc : 0 < c) (returns : List K) :
    computeSharpeMoments math (levered c returns) = computeSharpeMoments math returns := by
  by_cases hVaries : Varies returns
  · rw [computeSharpeMoments_of_varies laws ((varies_levered hc.ne' returns).mpr hVaries),
      computeSharpeMoments_of_varies laws hVaries, momentsOf_levered laws hc hVaries]
  · rw [computeSharpeMoments_of_same laws (mt (varies_levered hc.ne' returns).mp hVaries),
      computeSharpeMoments_of_same laws hVaries]

omit [LinearOrder K] [IsStrictOrderedRing K] in
/-- The products of the deviations at a lag. -/
theorem laggedProducts_levered (c : K) (returns : List K) (k : ℕ) :
    (List.zipWith (fun x y => (x - mean (levered c returns)) * (y - mean (levered c returns)))
        ((levered c returns).drop k) (levered c returns)).sum =
      c ^ 2 * (List.zipWith (fun x y => (x - mean returns) * (y - mean returns)) (returns.drop k) returns).sum := by
  have hEach : ∀ x y, (c * x - c * mean returns) * (c * y - c * mean returns) =
      c ^ 2 * ((x - mean returns) * (y - mean returns)) := by
    intro x y
    ring
  have hFactor : (List.zipWith (fun x y => (x - mean returns) * (y - mean returns)) (returns.drop k) returns).map
      (fun z => c ^ 2 * z) =
      List.zipWith (fun x y => c ^ 2 * ((x - mean returns) * (y - mean returns))) (returns.drop k) returns :=
    List.map_zipWith
  unfold levered
  rw [mean_scaled, ← List.map_drop, List.zipWith_map]
  simp only [hEach]
  rw [← hFactor, List.sum_map_mul_left, List.map_id']

omit [LinearOrder K] [IsStrictOrderedRing K] in
theorem lagCovariance_levered (c : K) (returns : List K) (k : ℕ) :
    lagCovariance (levered c returns) k = c ^ 2 * lagCovariance returns k := by
  rw [lagCovariance, laggedProducts_levered, length_levered, mul_div_assoc, lagCovariance]

variable [FloorRing K]

theorem loAutocorrFactor_levered (hc : 0 < c) (returns : List K) (q : ℤ) (maxLag : Option ℤ) :
    loAutocorrFactor math (levered c returns) q maxLag = loAutocorrFactor math returns q maxLag := by
  have hSquare : 0 < c ^ 2 := pow_pos hc 2
  have hVar : centralMoment (levered c returns) 2 = c ^ 2 * centralMoment returns 2 := centralMoment_scaled c returns 2
  have hSign : c ^ 2 * centralMoment returns 2 ≤ 0 ↔ centralMoment returns 2 ≤ 0 := by
    rw [← not_lt, ← not_lt, mul_pos_iff_of_pos_left hSquare]
  unfold loAutocorrFactor
  simp only [hVar, hSign, length_levered, lagCovariance_levered, mul_div_mul_left _ _ hSquare.ne']

theorem probabilisticSharpe_levered (laws : math.Laws) (hc : 0 < c) (returns : List K) (threshold ppy : K) :
    probabilisticSharpe math (levered c returns) threshold ppy = probabilisticSharpe math returns threshold ppy := by
  unfold probabilisticSharpe
  rw [computeSharpeMoments_levered laws hc, loAutocorrFactor_levered hc, length_levered]

theorem deflatedSharpe_levered (laws : math.Laws) (hc : 0 < c) (returns : List K) (srTrials : List (Option K))
    (ppy : K) :
    deflatedSharpe math (levered c returns) srTrials ppy = deflatedSharpe math returns srTrials ppy := by
  unfold deflatedSharpe
  simp only [probabilisticSharpe_levered laws hc, length_levered]

end Sharpe

/-! ## Resampling -/

section Resampling

variable {K : Type} {γ : Type} (gen : Generator γ)

theorem randrange_cast {m n : ℕ} [NeZero m] [NeZero n] (h : m = n) (rng : γ) :
    gen.randrange m rng = (Fin.cast h.symm (gen.randrange n rng).1, (gen.randrange n rng).2) := by
  subst h
  rfl

variable [Mul K] (c : K) (data : List K) [NeZero data.length] [NeZero (levered c data).length]

theorem resample_levered (items : ℕ) (rng : γ) : resample gen (levered c data) items rng =
    (levered c (resample gen data items rng).1, (resample gen data items rng).2) := by
  induction items generalizing rng with
  | zero => rfl
  | succ items ih =>
    have hDraw := randrange_cast gen (length_levered c data) rng
    unfold resample
    rw [hDraw]
    dsimp only
    rw [ih]
    simp only [levered, List.get_eq_getElem, List.getElem_map, List.map_cons]
    rfl

theorem resamples_levered (draws : ℕ) (rng : γ) :
    resamples gen (levered c data) draws rng = (resamples gen data draws rng).map (levered c) := by
  induction draws generalizing rng with
  | zero => rfl
  | succ draws ih =>
    unfold resamples
    rw [length_levered, resample_levered, List.map_cons, ← ih]

end Resampling

section Bootstrap

variable {K : Type} [Field K] [LinearOrder K] [IsStrictOrderedRing K] {c : K}

omit [LinearOrder K] [IsStrictOrderedRing K] in
theorem filter_levered {p : K → Prop} [DecidablePred p] (hSign : ∀ r, p (c * r) ↔ p r) (returns : List K) :
    (levered c returns).filter (fun r => p r) = levered c (returns.filter fun r => p r) := by
  rw [levered, levered, List.filter_map]
  simp only [Function.comp_def, hSign]

omit [LinearOrder K] [IsStrictOrderedRing K] in
theorem sum_levered (c : K) (returns : List K) : (levered c returns).sum = c * returns.sum := by
  rw [levered, List.sum_map_mul_left, List.map_id']

theorem profitFactor_levered (hc : 0 < c) (returns : List K) :
    profitFactor (levered c returns) = profitFactor returns := by
  have hGains : ((levered c returns).filter fun r => 0 < r).sum = c * (returns.filter fun r => 0 < r).sum := by
    rw [filter_levered fun r => mul_pos_iff_of_pos_left hc, sum_levered]
  have hLosses : (((levered c returns).filter fun r => r < 0).map fun r => -r).sum =
      c * ((returns.filter fun r => r < 0).map fun r => -r).sum := by
    have hNeg : ∀ xs : List K, (levered c xs).map (fun r => -r) = levered c (xs.map fun r => -r) := by
      intro xs
      simp [levered]
    have hSign : ∀ r, c * r < 0 ↔ r < 0 := by
      intro r
      rw [← not_le, ← not_le, mul_nonneg_iff_of_pos_left hc]
    rw [filter_levered hSign, hNeg, sum_levered]
  unfold profitFactor
  simp only [hGains, hLosses, mul_eq_zero, hc.ne', false_or, mul_pos_iff_of_pos_left hc, mul_div_mul_left _ _ hc.ne']

variable [FloorRing K] {γ : Type} (math : StatsModule K) (gen : Generator γ)

omit [IsStrictOrderedRing K] in
theorem bcaBootstrap_levered {statistic : List K → Extended K}
    (hStatistic : ∀ xs, statistic (levered c xs) = statistic xs) (data : List K) (nResamples : ℕ) (confidence : K)
    (seed : Option ℤ) : bcaBootstrap math gen (levered c data) statistic nResamples confidence seed =
      bcaBootstrap math gen data statistic nResamples confidence seed := by
  have hLength : (levered c data).length = data.length := length_levered c data
  unfold bcaBootstrap
  dsimp only
  by_cases hData : data.length < minData
  · rw [dif_pos hData, dif_pos (hLength.symm ▸ hData), hLength]
  · rw [dif_neg hData, dif_neg (hLength.symm ▸ hData)]
    have : NeZero data.length := ⟨(zero_lt_two.trans_le (not_lt.mp hData)).ne'⟩
    have : NeZero (levered c data).length := ⟨hLength.symm ▸ NeZero.ne _⟩
    have hJack : ∀ i, (levered c data).take i ++ (levered c data).drop (i + 1) =
        levered c (data.take i ++ data.drop (i + 1)) := by
      intro i
      simp [levered]
    have hDraws : (resamples gen (levered c data) nResamples (gen.seeded seed)).map statistic =
        (resamples gen data nResamples (gen.seeded seed)).map statistic := by
      rw [resamples_levered, List.map_map]
      exact List.map_congr_left fun xs _ => hStatistic xs
    simp only [hStatistic, hJack, hLength, hDraws]

end Bootstrap

/-! ## Permutations -/

section Permutations

variable {K : Type} [Field K] [LinearOrder K] [IsStrictOrderedRing K] {c : K} {γ : Type} (gen : Generator γ)

omit [LinearOrder K] [IsStrictOrderedRing K] in
theorem flipSigns_levered (returns : List K) (rng : γ) : flipSigns gen (levered c returns) rng =
    (levered c (flipSigns gen returns rng).1, (flipSigns gen returns rng).2) := by
  induction returns generalizing rng with
  | nil => rfl
  | cons r rest ih =>
    change flipSigns gen (c * r :: levered c rest) rng = _
    unfold flipSigns
    dsimp only
    rw [ih]
    have hEntry : (if (gen.random rng).1 < fairCoinP then c * r else -(c * r)) =
        c * if (gen.random rng).1 < fairCoinP then r else -r := by
      split_ifs <;> ring
    rw [hEntry]
    rfl

omit [LinearOrder K] [IsStrictOrderedRing K] in
theorem permutedDraws_levered (returns : List K) (blockLength draws : ℕ) (rng : γ) :
    permutedDraws gen (levered c returns) .signFlip blockLength draws rng =
      (permutedDraws gen returns .signFlip blockLength draws rng).map (levered c) := by
  induction draws generalizing rng with
  | zero => rfl
  | succ draws ih =>
    unfold permutedDraws permute
    dsimp only
    rw [flipSigns_levered, ih]
    rfl

omit [LinearOrder K] [IsStrictOrderedRing K] in
theorem length_permutedDraws (returns : List K) (mode : PermutationMode) (blockLength draws : ℕ) (rng : γ) :
    (permutedDraws gen returns mode blockLength draws rng).length = draws := by
  induction draws generalizing rng with
  | zero => rfl
  | succ draws ih => exact congrArg Nat.succ (ih _)

def meanShare (oneSided : Bool) (observed : K) (null : List K) : K :=
  ((if oneSided then null.countP fun s => observed ≤ s else null.countP fun s => |observed| ≤ |s|) + 1) /
    (null.length + 1)

theorem meanShare_levered (hc : 0 < c) (oneSided : Bool) (observed : K) (null : List K) :
    meanShare oneSided (c * observed) (levered c null) = meanShare oneSided observed null := by
  unfold meanShare levered
  simp only [List.countP_map, Function.comp_def, List.length_map, abs_mul, abs_of_pos hc, mul_le_mul_iff_right₀ hc]

/-- Every permuted mean is a number, so only the checks of the arguments fail. -/
theorem permutationTest_mean (sqrt : K → K) {returns : List K} {nPermutations : ℕ} (mode : PermutationMode)
    {blockLength : ℤ} (hPermutations : minPermutations ≤ nPermutations) (hBlock : 1 ≤ blockLength)
    (hReturns : minPermutedReturns ≤ returns.length) (oneSided : Bool) (seed : Option ℤ) : ∃ result,
      permutationTest sqrt gen returns meanReturn nPermutations mode blockLength oneSided seed = .ok result ∧
        result.pValue = some (meanShare oneSided (mean returns)
          ((permutedDraws gen returns mode blockLength.toNat nPermutations (gen.seeded seed)).map mean)) := by
  have hNull : (permutedDraws gen returns mode blockLength.toNat nPermutations (gen.seeded seed)).filterMap
      (fun drawn => (meanReturn drawn).toNum) =
      (permutedDraws gen returns mode blockLength.toNat nPermutations (gen.seeded seed)).map mean := by
    rw [← List.filterMap_eq_map]
    rfl
  have hStable : ¬maxNanFraction * (nPermutations : K) < ((nPermutations - nPermutations : ℕ) : K) := by
    rw [Nat.sub_self, Nat.cast_zero]
    exact not_lt.mpr (mul_nonneg (by norm_num [maxNanFraction]) (Nat.cast_nonneg _))
  unfold permutationTest meanShare
  dsimp only [meanReturn] at hNull ⊢
  rw [if_neg (not_lt.mpr hPermutations), if_neg (not_lt.mpr hBlock), if_neg (not_lt.mpr hReturns), hNull,
    List.length_map, length_permutedDraws, if_neg hStable]
  exact ⟨_, rfl, rfl⟩

variable {gen} in
omit [IsStrictOrderedRing K] in
theorem permutationTest_ok {sqrt : K → K} {returns : List K} {statistic : List K → Extended K} {nPermutations : ℕ}
    {mode : PermutationMode} {blockLength : ℤ} {oneSided : Bool} {seed : Option ℤ} {result : PermutationResult K}
    (h : permutationTest sqrt gen returns statistic nPermutations mode blockLength oneSided seed = .ok result) :
    minPermutations ≤ nPermutations ∧ 1 ≤ blockLength ∧ minPermutedReturns ≤ returns.length := by
  unfold permutationTest at h
  dsimp only at h
  by_cases hPermutations : nPermutations < minPermutations
  · rw [if_pos hPermutations] at h
    cases h
  · rw [if_neg hPermutations] at h
    by_cases hBlock : blockLength < 1
    · rw [if_pos hBlock] at h
      cases h
    · rw [if_neg hBlock] at h
      by_cases hReturns : returns.length < minPermutedReturns
      · rw [if_pos hReturns] at h
        cases h
      · exact ⟨not_lt.mp hPermutations, not_lt.mp hBlock, not_lt.mp hReturns⟩

end Permutations

/-! ## Superiority -/

section Superiority

variable {K : Type} [Field K] [LinearOrder K] {γ : Type} {gen : Generator γ} {strategies : List (List K)}
  {bench : Option (List K)} {nBootstrap : ℕ} {blockLength : ℤ} {seed : Option ℤ}

theorem spaTest_ok_family {math : Cv.MathModule K} {result : SPAResult K}
    (h : spaTest math gen strategies bench nBootstrap blockLength seed = .ok result) :
    minBootstrap ≤ nBootstrap ∧ 1 ≤ blockLength ∧ Family strategies bench result.nObs := by
  unfold spaTest at h
  split_ifs at h with hBootstrap hBlock
  obtain ⟨x, hPrepared, h⟩ := except_bind_ok_iff.mp h
  cases h
  exact ⟨not_lt.mp hBootstrap, not_lt.mp hBlock, (family_of_prepared (mapError_ok_iff.mp hPrepared)).1⟩

variable (gen seed) in
theorem spaTest_of_family (math : Cv.MathModule K) (hBootstrap : minBootstrap ≤ nBootstrap) (hBlock : 1 ≤ blockLength)
    {n : ℕ} [NeZero n] (hFamily : Family strategies bench n) :
    ∃ result, spaTest math gen strategies bench nBootstrap blockLength seed = .ok result ∧
      result.pValue = spaShare math.sqrt (gatePaths gen n nBootstrap blockLength seed) nBootstrap (spaTau math n)
        (strategies.map (differential bench n)) := by
  obtain ⟨x, hPrepared, rfl, hRows⟩ := hFamily.prepared
  refine ⟨spaOf math gen x nBootstrap blockLength seed, ?_, ?_⟩
  · unfold spaTest
    rw [if_neg (not_lt.mpr hBootstrap), if_neg (not_lt.mpr hBlock), hPrepared]
    rfl
  · rw [(spaOf_eq gen x nBootstrap blockLength seed math).2, hRows]

variable [IsStrictOrderedRing K] {c : K}

theorem spaShare_levered {sqrt : K → K} (hSqrt : IsSqrt sqrt) (hc : 0 < c) {nObs : ℕ}
    (paths : List (List (Fin nObs))) (tau : K) (rows : List (List K)) :
    spaShare sqrt paths nBootstrap tau (rows.map (levered c)) = spaShare sqrt paths nBootstrap tau rows := by
  apply spaShare_eq_of_covers
  · intro row hRow _
    obtain ⟨row, hOld, rfl⟩ := List.mem_map.mp hRow
    exact ⟨row, hOld, (alike_scaled hSqrt hc row).symm⟩
  · intro row hRow _
    exact ⟨_, List.mem_map_of_mem hRow, alike_scaled hSqrt hc row⟩

theorem spaTest_levered {math : Cv.MathModule K} (hSqrt : IsSqrt math.sqrt) (hc : 0 < c) {result : SPAResult K}
    (h : spaTest math gen strategies bench nBootstrap blockLength seed = .ok result) :
    ∃ result', spaTest math gen (strategies.map (levered c)) (bench.map (levered c)) nBootstrap blockLength seed =
      .ok result' ∧ result'.pValue = result.pValue := by
  obtain ⟨hBootstrap, hBlock, hFamily⟩ := spaTest_ok_family h
  have : NeZero result.nObs := ⟨(zero_lt_two.trans_le hFamily.observed).ne'⟩
  obtain ⟨_, hSame, hPValue⟩ := spaTest_of_family gen seed math hBootstrap hBlock hFamily
  obtain rfl := Except.ok.inj (h.symm.trans hSame)
  obtain ⟨result', hOk', hPValue'⟩ :=
    spaTest_of_family gen seed math hBootstrap hBlock (hFamily.scaled c)
  refine ⟨result', hOk', hPValue'.trans ?_⟩
  rw [differentials_scaled, hPValue]
  exact spaShare_levered hSqrt hc _ _ _

theorem realityCheck_levered {sqrt : K → K} (hSqrt : IsSqrt sqrt) (hc : 0 < c) {result : RealityCheckResult K}
    (h : realityCheck sqrt gen strategies bench nBootstrap blockLength seed = .ok result) :
    ∃ result', realityCheck sqrt gen (strategies.map (levered c)) (bench.map (levered c)) nBootstrap blockLength
      seed = .ok result' ∧ result'.pValue = result.pValue := by
  obtain ⟨hBootstrap, hBlock, hFamily⟩ := realityCheck_ok h
  have : NeZero result.nObs := ⟨(zero_lt_two.trans_le hFamily.observed).ne'⟩
  obtain ⟨_, hSame, hPValue⟩ := realityCheck_of_family gen seed hSqrt hBootstrap hBlock hFamily
  obtain rfl := Except.ok.inj (h.symm.trans hSame)
  obtain ⟨result', hOk', hPValue'⟩ := realityCheck_of_family gen seed hSqrt hBootstrap hBlock (hFamily.scaled c)
  refine ⟨result', hOk', hPValue'.trans ?_⟩
  rw [differentials_scaled, wrcShare_scaled hc, hPValue]

end Superiority

end Futur3.Stats
