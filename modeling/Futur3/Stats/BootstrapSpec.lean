import Futur3.Stats.BootstrapCi
import Futur3.Stats.QuantileSkewness
import Futur3.Stats.SharpeSpec

/-! # The bootstrap interval is always found

The share of draws below the point is kept off zero and one, so its quantile exists, and
the corrected probabilities stay between zero and one, so the sorted draws have the
quantiles asked for. The acceleration is at most a sixth.
-/

namespace Futur3.Stats

open Prelude Execution Deviations

/-! ## Quantiles of floats -/

section Quantiles

variable {K : Type} [Field K] [LinearOrder K] [IsStrictOrderedRing K] [FloorRing K]

theorem exists_quantileExtended {sortedVals : List (Extended K)} (hNil : sortedVals ≠ []) {p : K} (hLow : 0 ≤ p)
    (hHigh : p ≤ 1) : ∃ q, quantileExtended sortedVals p = some q := by
  have hLength := List.length_pos_of_ne_nil hNil
  unfold quantileExtended
  dsimp only
  split_ifs with hSingle
  · exact ⟨_, List.getElem?_eq_getElem hLength⟩
  · obtain ⟨hFrom, hTo⟩ := position_bounds (sortedVals.length - 1) hLow hHigh
    rw [Nat.cast_sub hLength, Nat.cast_one] at hFrom hTo
    have hFloor : 0 ≤ ⌊((sortedVals.length : K) - 1) * p⌋ := Int.floor_nonneg.mpr hFrom
    have hTop : ⌊((sortedVals.length : K) - 1) * p⌋ ≤ (sortedVals.length : ℤ) - 1 := by
      refine Int.floor_le_iff.mpr (hTo.trans_lt ?_)
      push_cast
      exact lt_add_one _
    rw [List.getElem?_eq_getElem (by omega), List.getElem?_eq_getElem (by omega)]
    exact ⟨_, rfl⟩

/-- Of numbers it is the quantile of the numbers. -/
theorem quantileExtended_num {ordered : List K} (hLength : 2 ≤ ordered.length) {p : K} (hLow : 0 ≤ p)
    (hHigh : p ≤ 1) : quantileExtended (ordered.map .num) p = some (.num (quantile ordered p)) := by
  obtain ⟨hFrom, hTo⟩ := position_bounds (ordered.length - 1) hLow hHigh
  rw [Nat.cast_sub (by omega), Nat.cast_one] at hFrom hTo
  have hFloor : 0 ≤ ⌊((ordered.length : K) - 1) * p⌋ := Int.floor_nonneg.mpr hFrom
  have hTop : ⌊((ordered.length : K) - 1) * p⌋ ≤ (ordered.length : ℤ) - 1 := by
    refine Int.floor_le_iff.mpr (hTo.trans_lt ?_)
    push_cast
    exact lt_add_one _
  unfold quantileExtended quantile
  dsimp only
  have hLo : ⌊((ordered.length : K) - 1) * p⌋.toNat < ordered.length := by omega
  have hHi : (min (⌊((ordered.length : K) - 1) * p⌋ + 1) ((ordered.length : ℤ) - 1)).toNat < ordered.length := by
    omega
  rw [List.length_map, if_neg (by omega), if_neg (by omega), List.getElem?_map, List.getElem?_map,
    List.getElem?_eq_getElem hLo, List.getElem?_eq_getElem hHi, List.getD_eq_getElem _ _ hLo,
    List.getD_eq_getElem _ _ hHi]
  simp [Extended.sub, Extended.neg, Extended.add, Extended.scale, sub_eq_add_neg]

end Quantiles

/-! ## The corrections -/

section Corrections

variable {K : Type} [Field K] [LinearOrder K] [IsStrictOrderedRing K]

theorem biasShare_bounds {boot : List (Extended K)} (hNil : boot ≠ []) (point : K) :
    0 < biasShare boot point ∧ biasShare boot point < 1 := by
  have hCount : (1 : K) ≤ boot.length := by exact_mod_cast List.length_pos_of_ne_nil hNil
  have hHalf : 0 < 1 / (2 : ℕ) / (boot.length : K) := by positivity
  have hLess : 1 / (2 : ℕ) / (boot.length : K) ≤ 1 / 2 := by
    rw [Nat.cast_ofNat]
    exact div_le_self one_half_pos.le hCount
  refine ⟨lt_min (hHalf.trans_le (le_max_right _ _)) ?_, (min_le_right _ _).trans_lt (sub_lt_self 1 hHalf)⟩
  linarith

theorem abs_sum_cubes_le {root : K} {diffs : List K} (hEach : ∀ d ∈ diffs, |d| ≤ root) :
    |(diffs.map fun d => d ^ 3).sum| ≤ root * (diffs.map fun d => d * d).sum := by
  induction diffs with
  | nil => simp
  | cons d rest ih =>
    obtain ⟨hFirst, hRest⟩ := List.forall_mem_cons.mp hEach
    have hCube : |d ^ 3| ≤ root * (d * d) := by
      rw [pow_succ', sq, abs_mul, abs_of_nonneg (mul_self_nonneg d)]
      exact mul_le_mul_of_nonneg_right hFirst (mul_self_nonneg d)
    rw [List.map_cons, List.sum_cons, List.map_cons, List.sum_cons, mul_add]
    exact (abs_add_le _ _).trans (add_le_add hCube (ih hRest))

/-- Each difference is at most the root of the sum of the squares. -/
theorem abs_acceleration_le {math : StatsModule K} (laws : math.Laws) (jack : List (Extended K)) :
    |acceleration math.pow jack| ≤ 1 / 6 := by
  unfold acceleration
  cases jack.mapM Extended.toNum with
  | none => norm_num
  | some values =>
    dsimp only
    split_ifs with hPos
    · generalize (values.map fun j => mean values - j) = diffs at hPos ⊢
      have hRoot := laws.sqrt.pos hPos
      have hSquare := laws.sqrt.square _ hPos.le
      have hEach : ∀ d ∈ diffs, |d| ≤ math.sqrt (diffs.map fun d => d * d).sum := by
        intro d hd
        have hPart : d * d ≤ (diffs.map fun d => d * d).sum :=
          List.single_le_sum (List.forall_mem_map.mpr fun x _ => mul_self_nonneg x) _ (List.mem_map_of_mem hd)
        rw [← hSquare, ← sq, ← sq] at hPart
        exact abs_le_of_sq_le_sq hPart hRoot.le
      have hCubes := abs_sum_cubes_le hEach
      have hPositive : 0 < (6 : ℕ) * math.pow (diffs.map fun d => d * d).sum ((3 : ℕ) / (2 : ℕ)) := by
        rw [laws.pow_three_halves _ hPos]
        exact mul_pos (by norm_num) (mul_pos hPos hRoot)
      rw [abs_div, abs_of_pos hPositive, div_le_iff₀ hPositive, laws.pow_three_halves _ hPos]
      push_cast
      linarith
    · norm_num

omit [IsStrictOrderedRing K] in
theorem adjusted_bounds {normal : NormalDist K} (hNormal : normal.IsStandard) (z0 accel zQ : K) :
    0 < adjusted normal z0 accel zQ ∧ adjusted normal z0 accel zQ < 1 :=
  ⟨hNormal.pos _, hNormal.lt_one _⟩

/-- Below the pole of the correction the probabilities keep their order. -/
theorem adjusted_mono {normal : NormalDist K} (hNormal : normal.IsStandard) {z0 accel zLo zHi : K}
    (hOrder : zLo ≤ zHi) (hLo : denomFloor ≤ 1 - accel * (z0 + zLo)) (hHi : denomFloor ≤ 1 - accel * (z0 + zHi)) :
    adjusted normal z0 accel zLo ≤ adjusted normal z0 accel zHi := by
  have hFloor : (0 : K) < denomFloor := by
    norm_num [denomFloor]
  have hKept : ∀ {z : K}, denomFloor ≤ 1 - accel * (z0 + z) →
      adjusted normal z0 accel z = normal.cdf (z0 + (z0 + z) / (1 - accel * (z0 + z))) := by
    intro z hz
    unfold adjusted
    dsimp only
    rw [if_neg (not_lt.mpr (hz.trans (le_abs_self _)))]
  rw [hKept hLo, hKept hHi]
  refine hNormal.strictMono.monotone (add_le_add_right ?_ z0)
  rw [div_le_div_iff₀ (hFloor.trans_le hLo) (hFloor.trans_le hHi)]
  linarith

theorem adjusted_mono_of_near {normal : NormalDist K} (hNormal : normal.IsStandard) {z0 accel z : K}
    (hAccel : |accel| ≤ 1 / 6) (hz : 0 ≤ z) (hNear : |z0| + z ≤ 5) :
    adjusted normal z0 accel (-z) ≤ adjusted normal z0 accel z := by
  have hFar : ∀ y, |y| ≤ z → denomFloor ≤ 1 - accel * (z0 + y) := by
    intro y hy
    have hSum : |z0 + y| ≤ 5 := (abs_add_le z0 y).trans (by linarith)
    have hProduct : |accel * (z0 + y)| ≤ 1 / 6 * 5 := by
      rw [abs_mul]
      exact mul_le_mul hAccel hSum (abs_nonneg _) (by norm_num)
    have hBelow := (le_abs_self _).trans hProduct
    have hFloor : (denomFloor : K) ≤ 1 / 6 := by
      norm_num [denomFloor]
    linarith
  exact adjusted_mono hNormal (by linarith) (hFar _ (by rw [abs_neg, abs_of_nonneg hz]))
    (hFar _ (abs_of_nonneg hz).le)

end Corrections

/-! ## The interval -/

section Interval

variable {K : Type} [Field K] [LinearOrder K] [IsStrictOrderedRing K] [FloorRing K] {math : StatsModule K}

theorem half_alpha {confidence : K} (hConfidence : 0 < confidence ∧ confidence < 1) :
    0 < (1 - confidence) / (2 : ℕ) ∧ (1 - confidence) / (2 : ℕ) < 1 / 2 := by
  rw [Nat.cast_ofNat]
  constructor <;> linarith [hConfidence.1, hConfidence.2]

def biasOf (math : StatsModule K) (boot : List (Extended K)) (point : K) : K :=
  math.normal.quantile (biasShare boot point)

theorem bcaInterval_ok (laws : math.Laws) {boot : List (Extended K)} (hNil : boot ≠ []) (jack : List (Extended K))
    (point : K) {confidence : K} (hConfidence : 0 < confidence ∧ confidence < 1) (nResamples n : ℕ)
    (seed : Option ℤ) : ∃ lower upper,
      quantileExtended (Extended.sorted boot) (adjusted math.normal (biasOf math boot point)
        (acceleration math.pow jack) (math.normal.quantile ((1 - confidence) / (2 : ℕ)))) = some lower ∧
      quantileExtended (Extended.sorted boot) (adjusted math.normal (biasOf math boot point)
        (acceleration math.pow jack) (math.normal.quantile (1 - (1 - confidence) / (2 : ℕ)))) = some upper ∧
      bcaInterval math boot jack point confidence nResamples n seed =
        .ok { point := .num point, lower := lower, upper := upper, z0 := .num (biasOf math boot point),
              accel := .num (acceleration math.pow jack), confidence := confidence, nResamples := nResamples,
              n := n, seed := seed, reason := none } := by
  obtain ⟨hPos, hHalf⟩ := half_alpha hConfidence
  have hSorted : Extended.sorted boot ≠ [] := by
    intro hEmpty
    have hPerm := Extended.sorted_perm boot
    rw [hEmpty] at hPerm
    exact hNil hPerm.nil_eq.symm
  have hBias := biasShare_bounds hNil point
  have hQuantile : ∀ z, ∃ q, quantileExtended (Extended.sorted boot)
      (adjusted math.normal (biasOf math boot point) (acceleration math.pow jack) z) = some q := fun z =>
    exists_quantileExtended hSorted (adjusted_bounds laws.normal _ _ z).1.le (adjusted_bounds laws.normal _ _ z).2.le
  obtain ⟨lower, hLower⟩ := hQuantile (math.normal.quantile ((1 - confidence) / (2 : ℕ)))
  obtain ⟨upper, hUpper⟩ := hQuantile (math.normal.quantile (1 - (1 - confidence) / (2 : ℕ)))
  refine ⟨lower, upper, hLower, hUpper, ?_⟩
  unfold biasOf at hLower hUpper
  unfold bcaInterval
  dsimp only
  rw [NormalDist.invCdf_ok hBias.1 hBias.2, NormalDist.invCdf_ok hPos (by linarith),
    NormalDist.invCdf_ok (by linarith) (sub_lt_self 1 hPos)]
  simp only [Except.mapError, except_ok_bind, hLower, hUpper, Option.elim_some]
  rfl

variable {γ : Type} (gen : Generator γ) {data : List K} {statistic : List K → Extended K} {nResamples : ℕ}
  {confidence : K} {seed : Option ℤ}

def bootOf (gen : Generator γ) (data : List K) [NeZero data.length] (statistic : List K → Extended K)
    (nResamples : ℕ) (seed : Option ℤ) : List (Extended K) :=
  ((resamples gen data nResamples (gen.seeded seed)).map statistic).filter fun t => !t.isNan

omit [IsStrictOrderedRing K] in
theorem bcaBootstrap_of_num [NeZero data.length] (hConfidence : 0 < confidence ∧ confidence < 1)
    (hResamples : minResamples ≤ nResamples) (hData : minData ≤ data.length) {point : K}
    (hPoint : statistic data = .num point)
    (hMany : nResamples / 2 ≤ (bootOf gen data statistic nResamples seed).length) :
    bcaBootstrap math gen data statistic nResamples confidence seed =
      bcaInterval math (bootOf gen data statistic nResamples seed)
        ((List.range data.length).map fun i => statistic (data.take i ++ data.drop (i + 1))) point confidence
        nResamples data.length seed := by
  unfold bcaBootstrap
  dsimp only
  rw [if_neg (not_not.mpr hConfidence), if_neg (not_lt.mpr hResamples), dif_neg (not_lt.mpr hData), hPoint]
  exact if_neg (not_lt.mpr hMany)

/-- Where no draw is dropped, both bounds are quantiles of the values at corrected probabilities. -/
theorem bcaBootstrap_of_values (laws : math.Laws) [NeZero data.length] (hConfidence : 0 < confidence ∧ confidence < 1)
    (hResamples : minResamples ≤ nResamples) (hData : minData ≤ data.length) {point : K}
    (hPoint : statistic data = .num point) {values : List K} (hCount : values.length = nResamples)
    (hBoot : bootOf gen data statistic nResamples seed = values.map .num) :
    let jack := (List.range data.length).map fun i => statistic (data.take i ++ data.drop (i + 1))
    let atZ := adjusted math.normal (biasOf math (values.map .num) point) (acceleration math.pow jack)
    ∃ result, bcaBootstrap math gen data statistic nResamples confidence seed = .ok result ∧
      result.lower = .num (sampleQuantile values (atZ (math.normal.quantile ((1 - confidence) / (2 : ℕ))))) ∧
      result.upper = .num (sampleQuantile values (atZ (math.normal.quantile (1 - (1 - confidence) / (2 : ℕ))))) ∧
      result.z0 = .num (biasOf math (values.map .num) point) ∧
      result.accel = .num (acceleration math.pow jack) ∧ result.reason = none := by
  intro jack atZ
  have hMany : 1000 ≤ values.length := hCount ▸ hResamples
  obtain ⟨lower, upper, hLower, hUpper, hOk⟩ := bcaInterval_ok laws
    (List.ne_nil_of_length_pos (show 0 < (values.map Extended.num).length by rw [List.length_map]; omega))
    jack point hConfidence nResamples data.length seed
  have hQuantile : ∀ z, quantileExtended ((values.insertionSort (· ≤ ·)).map .num) (atZ z) =
      some (.num (sampleQuantile values (atZ z))) := fun z =>
    quantileExtended_num (by rw [List.length_insertionSort]; omega) (adjusted_bounds laws.normal _ _ z).1.le
      (adjusted_bounds laws.normal _ _ z).2.le
  rw [Extended.sorted_num, hQuantile] at hLower hUpper
  have hRun : bcaBootstrap math gen data statistic nResamples confidence seed = _ :=
    bcaBootstrap_of_num gen hConfidence hResamples hData hPoint (by
      rw [hBoot, List.length_map, hCount]
      exact Nat.div_le_self _ _)
  rw [hBoot] at hRun
  exact ⟨_, hRun.trans hOk, (Option.some.inj hLower).symm, (Option.some.inj hUpper).symm, rfl, rfl, rfl⟩

/-- A bound that all values are above is below the interval. -/
theorem bcaBootstrap_exceeds_of_values (laws : math.Laws) [NeZero data.length]
    (hConfidence : 0 < confidence ∧ confidence < 1) (hResamples : minResamples ≤ nResamples)
    (hData : minData ≤ data.length) {point : K} (hPoint : statistic data = .num point) {values : List K}
    (hCount : values.length = nResamples) (hBoot : bootOf gen data statistic nResamples seed = values.map .num)
    {threshold : K} (hAbove : ∀ v ∈ values, threshold < v) : ∃ result,
      bcaBootstrap math gen data statistic nResamples confidence seed = .ok result ∧
        result.lowerExceeds threshold = true := by
  obtain ⟨result, hOk, hLower, -⟩ := bcaBootstrap_of_values gen laws hConfidence hResamples hData hPoint hCount hBoot
  have hTwo : 2 ≤ values.length := hCount ▸ le_trans (by decide) hResamples
  obtain ⟨least, _, hLeast, -, hBounds⟩ := sampleQuantile_bounds hTwo
  refine ⟨result, hOk, ?_⟩
  rw [BCaResult.lowerExceeds, hLower, Extended.toNum, Option.any_some, decide_eq_true_eq]
  exact (hAbove least hLeast.1).trans_le
    (hBounds _ (adjusted_bounds laws.normal _ _ _).1.le (adjusted_bounds laws.normal _ _ _).2.le).1

/-- Only the four checks of the arguments fail. -/
theorem bcaBootstrap_ok_iff (laws : math.Laws) :
    (∃ result, bcaBootstrap math gen data statistic nResamples confidence seed = .ok result) ↔
      (0 < confidence ∧ confidence < 1) ∧ minResamples ≤ nResamples ∧ minData ≤ data.length := by
  constructor
  · rintro ⟨result, hOk⟩
    unfold bcaBootstrap at hOk
    by_cases hConfidence : 0 < confidence ∧ confidence < 1
    · rw [if_neg (not_not.mpr hConfidence)] at hOk
      by_cases hResamples : nResamples < minResamples
      · rw [if_pos hResamples] at hOk
        cases hOk
      · rw [if_neg hResamples] at hOk
        by_cases hData : data.length < minData
        · dsimp only at hOk
          rw [dif_pos hData] at hOk
          cases hOk
        · exact ⟨hConfidence, not_lt.mp hResamples, not_lt.mp hData⟩
    · rw [if_pos hConfidence] at hOk
      cases hOk
  · rintro ⟨hConfidence, hResamples, hData⟩
    have : NeZero data.length := ⟨(zero_lt_two.trans_le hData).ne'⟩
    by_cases hDefined : (∃ point, statistic data = .num point) ∧
        nResamples / 2 ≤ (bootOf gen data statistic nResamples seed).length
    · obtain ⟨⟨point, hPoint⟩, hMany⟩ := hDefined
      have hSome : 500 ≤ nResamples / 2 := (Nat.le_div_iff_mul_le two_pos).mpr hResamples
      obtain ⟨lower, upper, -, -, hOk⟩ := bcaInterval_ok laws
        (List.ne_nil_of_length_pos (lt_of_lt_of_le (by omega) hMany))
        ((List.range data.length).map fun i => statistic (data.take i ++ data.drop (i + 1))) point hConfidence
        nResamples data.length seed
      exact ⟨_, (bcaBootstrap_of_num gen hConfidence hResamples hData hPoint hMany).trans hOk⟩
    · unfold bcaBootstrap
      dsimp only
      rw [if_neg (not_not.mpr hConfidence), if_neg (not_lt.mpr hResamples), dif_neg (not_lt.mpr hData)]
      cases hPoint : statistic data with
      | num point =>
        have hFew := not_le.mp fun hMany => hDefined ⟨⟨point, hPoint⟩, hMany⟩
        exact ⟨_, if_pos hFew⟩
      | nan => exact ⟨_, rfl⟩
      | negInf => exact ⟨_, rfl⟩
      | posInf => exact ⟨_, rfl⟩

end Interval

/-! ## The draws -/

section Draws

variable {γ : Type} (gen : Generator γ) {K : Type} (data : List K) [NeZero data.length]

theorem resample_spec (items : ℕ) (rng : γ) :
    (resample gen data items rng).1.length = items ∧ (resample gen data items rng).1 ⊆ data := by
  induction items generalizing rng with
  | zero => exact ⟨rfl, List.nil_subset _⟩
  | succ items ih =>
    obtain ⟨hLength, hSub⟩ := ih (gen.randrange data.length rng).2
    exact ⟨congrArg Nat.succ hLength, List.cons_subset.mpr ⟨List.get_mem data _, hSub⟩⟩

theorem resamples_spec (draws : ℕ) (rng : γ) : (resamples gen data draws rng).length = draws ∧
    ∀ drawn ∈ resamples gen data draws rng, drawn.length = data.length ∧ drawn ⊆ data := by
  induction draws generalizing rng with
  | zero => exact ⟨rfl, by simp [resamples]⟩
  | succ draws ih =>
    obtain ⟨hLength, hEach⟩ := ih (resample gen data data.length rng).2
    exact ⟨congrArg Nat.succ hLength, List.forall_mem_cons.mpr ⟨resample_spec gen data _ rng, hEach⟩⟩

variable {data}

/-- Where every resample has a number, no draw is dropped. -/
theorem bootOf_num {statistic : List K → Extended K}
    (hFinite : ∀ xs, xs.length = data.length → xs ⊆ data → ∃ v, statistic xs = .num v) (nResamples : ℕ)
    (seed : Option ℤ) : ∃ values : List K, values.length = nResamples ∧
      bootOf gen data statistic nResamples seed = values.map .num ∧
      ∀ v ∈ values, ∃ xs, xs.length = data.length ∧ xs ⊆ data ∧ statistic xs = .num v := by
  obtain ⟨hLength, hEach⟩ := resamples_spec gen data nResamples (gen.seeded seed)
  unfold bootOf
  generalize resamples gen data nResamples (gen.seeded seed) = drawn at hLength hEach ⊢
  induction drawn generalizing nResamples with
  | nil => exact ⟨[], hLength, rfl, by simp⟩
  | cons xs rest ih =>
    obtain ⟨hFirst, hRest⟩ := List.forall_mem_cons.mp hEach
    obtain ⟨values, hCount, hBoot, hValues⟩ := ih (nResamples - 1) (by rw [← hLength]; rfl) hRest
    obtain ⟨v, hv⟩ := hFinite xs hFirst.1 hFirst.2
    refine ⟨v :: values, ?_, ?_, List.forall_mem_cons.mpr ⟨⟨xs, hFirst.1, hFirst.2, hv⟩, hValues⟩⟩
    · rw [List.length_cons, hCount, ← hLength, List.length_cons, Nat.add_sub_cancel]
    · rw [List.map_cons, List.filter_cons, hv, List.map_cons, hBoot]
      rfl

end Draws

/-- Neither a quantile nor an index fails once the arguments are checked. -/
theorem bcaBootstrap_total {γ : Type} (gen : Generator γ) (data : List ℝ) (statistic : List ℝ → Extended ℝ)
    (nResamples : ℕ) (confidence : ℝ) (seed : Option ℤ) :
    (∃ result, bcaBootstrap realStats gen data statistic nResamples confidence seed = .ok result) ↔
      (0 < confidence ∧ confidence < 1) ∧ 1000 ≤ nResamples ∧ 2 ≤ data.length :=
  bcaBootstrap_ok_iff gen realStats_laws

/-- The bounds lie among the values of the statistic, and keep their order as long as the bias correction
and the normal quantile stay away from the pole that the acceleration could make. -/
theorem bcaBootstrap_within {γ : Type} {gen : Generator γ} {data : List ℝ} {statistic : List ℝ → Extended ℝ}
    {nResamples : ℕ} {confidence : ℝ} {seed : Option ℤ} {result : BCaResult ℝ}
    (h : bcaBootstrap realStats gen data statistic nResamples confidence seed = .ok result) (a b : ℝ)
    (hWithin : ∀ xs, xs.length = data.length → xs ⊆ data → ∃ v, statistic xs = .num v ∧ a ≤ v ∧ v ≤ b) :
    ∃ lower upper z0 accel : ℝ, result.lower = .num lower ∧ result.upper = .num upper ∧ result.z0 = .num z0 ∧
      result.accel = .num accel ∧ result.reason = none ∧ (a ≤ lower ∧ lower ≤ b) ∧ (a ≤ upper ∧ upper ≤ b) ∧
      |accel| ≤ 1 / 6 ∧ (|z0| + standardNormal.quantile (1 - (1 - confidence) / 2) ≤ 5 → lower ≤ upper) := by
  obtain ⟨hConfidence, hResamples, hData⟩ := (bcaBootstrap_ok_iff gen realStats_laws).mp ⟨result, h⟩
  have : NeZero data.length := ⟨(zero_lt_two.trans_le hData).ne'⟩
  obtain ⟨point, hPoint, -⟩ := hWithin data rfl (List.Subset.refl data)
  obtain ⟨values, hCount, hBoot, hValues⟩ := bootOf_num gen (fun xs hLength hSub =>
    (hWithin xs hLength hSub).imp fun _ hv => hv.1) nResamples seed
  have hTwo : 2 ≤ values.length := hCount ▸ le_trans (by decide) hResamples
  obtain ⟨_, hOk, hLower, hUpper, hZ0, hAccelIs, hReason⟩ :=
    bcaBootstrap_of_values gen realStats_laws hConfidence hResamples hData hPoint hCount hBoot
  obtain rfl := Except.ok.inj (hOk.symm.trans h)
  have hAdjusted := fun z => adjusted_bounds realStats_laws.normal (biasOf realStats (values.map .num) point)
    (acceleration realStats.pow
      ((List.range data.length).map fun i => statistic (data.take i ++ data.drop (i + 1)))) z
  obtain ⟨least, greatest, hLeast, hGreatest, hBounds⟩ := sampleQuantile_bounds hTwo
  have hIn : ∀ p : ℝ, 0 ≤ p → p ≤ 1 → a ≤ sampleQuantile values p ∧ sampleQuantile values p ≤ b := by
    intro p hLow hHigh
    have hMember : ∀ v ∈ values, a ≤ v ∧ v ≤ b := by
      intro v hv
      obtain ⟨xs, hLength, hSub, hStatistic⟩ := hValues v hv
      obtain ⟨w, hw, hw'⟩ := hWithin xs hLength hSub
      obtain rfl : v = w := Extended.num.inj (hStatistic.symm.trans hw)
      exact hw'
    obtain ⟨hFrom, hTo⟩ := hBounds p hLow hHigh
    exact ⟨(hMember least hLeast.1).1.trans hFrom, hTo.trans (hMember greatest hGreatest.1).2⟩
  have hAccel := abs_acceleration_le realStats_laws
    ((List.range data.length).map fun i => statistic (data.take i ++ data.drop (i + 1)))
  refine ⟨_, _, _, _, hLower, hUpper, hZ0, hAccelIs, hReason,
    hIn _ (hAdjusted _).1.le (hAdjusted _).2.le, hIn _ (hAdjusted _).1.le (hAdjusted _).2.le, hAccel,
    fun hNear => ?_⟩
  refine sampleQuantile_mono hTwo (hAdjusted _).1.le ?_ (hAdjusted _).2.le
  obtain ⟨hPos, hHalf⟩ := half_alpha hConfidence
  have hFlip := realStats_laws.normal.quantile_one_sub hPos (by linarith)
  have hHigh : 0 ≤ realStats.normal.quantile (1 - (1 - confidence) / (2 : ℕ)) :=
    realStats_laws.normal.quantile_nonneg (by linarith) (sub_lt_self 1 hPos)
  have hLow : realStats.normal.quantile ((1 - confidence) / (2 : ℕ)) =
      -realStats.normal.quantile (1 - (1 - confidence) / (2 : ℕ)) := by
    rw [hFlip, neg_neg]
  rw [hLow]
  refine adjusted_mono_of_near realStats_laws.normal hAccel hHigh ?_
  rw [Nat.cast_ofNat]
  exact hNear

/-- The mean of two days. -/
theorem bcaBootstrap_within_mean : ∃ (result : BCaResult ℝ) (lower upper : ℝ),
    bcaBootstrap realStats counting [0, 1] (fun xs => .num (mean xs)) 1000 (19 / 20) (some 7) = .ok result ∧
      result.lower = .num lower ∧ result.upper = .num upper ∧ (0 ≤ lower ∧ lower ≤ 1) ∧ 0 ≤ upper ∧ upper ≤ 1 := by
  obtain ⟨result, hOk⟩ : ∃ result, bcaBootstrap realStats counting [0, 1] (fun xs => .num (mean xs)) 1000 (19 / 20)
      (some 7) = .ok result :=
    (bcaBootstrap_ok_iff counting realStats_laws).mpr ⟨by norm_num, le_rfl, le_rfl⟩
  obtain ⟨lower, upper, -, -, hLower, hUpper, -, -, -, hLowerIn, hUpperIn, -⟩ :=
    bcaBootstrap_within hOk 0 1 fun xs hLength hSub => by
      obtain ⟨u, v, rfl⟩ := List.length_eq_two.mp hLength
      have hu : u = 0 ∨ u = 1 := by simpa using hSub (List.mem_cons_self)
      have hv : v = 0 ∨ v = 1 := by simpa using hSub (List.mem_cons_of_mem u List.mem_cons_self)
      refine ⟨_, rfl, ?_⟩
      rcases hu with rfl | rfl <;> rcases hv with rfl | rfl <;> norm_num [mean]
  exact ⟨result, lower, upper, hOk, hLower, hUpper, hLowerIn, hUpperIn⟩

end Futur3.Stats
