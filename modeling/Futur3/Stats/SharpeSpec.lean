import Futur3.Stats.ProbabilisticSharpe
import Futur3.Stats.SpaDominance

/-! # When the probabilistic Sharpe ratio is defined

The variance term of the kernel is the mean square of a combination of the standardized
returns and their squares. It is never negative, and it vanishes for two-valued returns
of one particular ratio only. The minimum track record is the exact length from which
the kernel reaches its confidence.
-/

namespace Futur3.Stats

open Prelude Deviations

/-! ## The numbers -/

/-- What the proofs use of the functions the gates are given. -/
structure StatsModule.Laws {K : Type} [Field K] [LinearOrder K] (math : StatsModule K) : Prop where
  sqrt : IsSqrt math.sqrt
  pow_three_halves : ∀ x, 0 < x → math.pow x ((3 : ℕ) / (2 : ℕ)) = x * math.sqrt x
  two_le_e : 2 ≤ math.e
  normal : math.normal.IsStandard

noncomputable def realStats : StatsModule ℝ :=
  { realMath with pow := fun x y => x ^ y, e := Real.exp 1, normal := standardNormal }

theorem realStats_laws : realStats.Laws where
  sqrt := isSqrt_real
  pow_three_halves := by
    intro x hx
    have hSplit : ((3 : ℕ) : ℝ) / (2 : ℕ) = 1 + 1 / 2 := by norm_num
    change x ^ (((3 : ℕ) : ℝ) / (2 : ℕ)) = x * Real.sqrt x
    rw [hSplit, Real.rpow_add hx, Real.rpow_one, Real.sqrt_eq_rpow]
  two_le_e := by
    have hTangent := Real.add_one_le_exp (1 : ℝ)
    change 2 ≤ Real.exp 1
    linarith
  normal := isStandard_standardNormal

section Moments

variable {K : Type} [Field K] [LinearOrder K] [IsStrictOrderedRing K] {math : StatsModule K} {returns : List K}

theorem sampleStdev_pos_iff (laws : math.Laws) : 0 < sampleStdev math.sqrt returns ↔ Varies returns := by
  constructor
  · intro hPos
    by_contra hSame
    have hRoot : math.sqrt 0 = 0 := mul_self_eq_zero.mp (laws.sqrt.square 0 le_rfl)
    rw [sampleStdev, variance_of_same hSame, hRoot] at hPos
    exact lt_irrefl 0 hPos
  · exact fun hVaries => laws.sqrt.pos hVaries.variance_pos

def momentsOf (math : StatsModule K) (returns : List K) : SharpeMoments K where
  n := returns.length
  srPerPeriod := mean returns / sampleStdev math.sqrt returns
  skew := centralMoment returns 3 / (centralMoment returns 2 * math.sqrt (centralMoment returns 2))
  kurt := centralMoment returns 4 / centralMoment returns 2 ^ 2

theorem computeSharpeMoments_of_varies (laws : math.Laws) (h : Varies returns) :
    computeSharpeMoments math returns = some (momentsOf math returns) := by
  have hMoment := centralMoment_two_pos_iff.mpr h
  unfold computeSharpeMoments
  dsimp only
  rw [if_neg (show ¬returns.length < minReturns from not_lt.mpr h.length),
    if_neg (not_le.mpr ((sampleStdev_pos_iff laws).mpr h)), if_neg (not_le.mpr hMoment),
    laws.pow_three_halves _ hMoment]
  rfl

theorem computeSharpeMoments_of_same (laws : math.Laws) (h : ¬Varies returns) :
    computeSharpeMoments math returns = none := by
  unfold computeSharpeMoments
  dsimp only
  split_ifs with hShort hSd hMoment
  · rfl
  · rfl
  · rfl
  · exact absurd ((sampleStdev_pos_iff laws).mp (not_le.mp hSd)) h

/-! ## The variance term -/

theorem varianceTerm_eq (laws : math.Laws) (h : Varies returns) (s : K) :
    varianceTerm s (momentsOf math returns).skew (momentsOf math returns).kurt =
      average (fun x => (1 / math.sqrt (centralMoment returns 2) * (x - mean returns) +
        -(s / (2 * centralMoment returns 2)) * ((x - mean returns) ^ 2 - centralMoment returns 2)) ^ 2)
        returns := by
  have hMoment := centralMoment_two_pos_iff.mpr h
  have hRoot := laws.sqrt.pos hMoment
  have hSquare : math.sqrt (centralMoment returns 2) ^ 2 = centralMoment returns 2 := by
    rw [sq, laws.sqrt.square _ hMoment.le]
  rw [average_square h.ne_nil, varianceTerm, momentsOf]
  dsimp only
  generalize math.sqrt (centralMoment returns 2) = root at hRoot hSquare ⊢
  rw [← hSquare]
  field_simp
  push_cast
  ring

theorem varianceTerm_nonneg (laws : math.Laws) (h : Varies returns) (s : K) :
    0 ≤ varianceTerm s (momentsOf math returns).skew (momentsOf math returns).kurt := by
  rw [varianceTerm_eq laws h]
  exact average_nonneg fun x _ => sq_nonneg _

/-- The mean of the squares vanishes with each of them, and one quadratic equation has two roots. -/
theorem two_values_of_varianceTerm (laws : math.Laws) (h : Varies returns) {s : K}
    (hZero : varianceTerm s (momentsOf math returns).skew (momentsOf math returns).kurt = 0) :
    ∃ a b, ∀ x ∈ returns, x = a ∨ x = b := by
  have hMoment := centralMoment_two_pos_iff.mpr h
  have hRoot : 1 / math.sqrt (centralMoment returns 2) ≠ 0 := (one_div_pos.mpr (laws.sqrt.pos hMoment)).ne'
  rw [varianceTerm_eq laws h] at hZero
  have hEach := (average_eq_zero_iff fun x _ => sq_nonneg _).mp hZero
  simp only [sq_eq_zero_iff] at hEach
  generalize 1 / math.sqrt (centralMoment returns 2) = u at hRoot hEach
  generalize s / (2 * centralMoment returns 2) = v at hEach
  -- two returns that differ fix the sum of the roots
  have hSum : ∀ x ∈ returns, ∀ y ∈ returns, x ≠ y → u = v * (x + y - 2 * mean returns) := by
    intro x hx y hy hDiffer
    have hProduct : (x - y) * (u - v * (x + y - 2 * mean returns)) = 0 := by
      linear_combination hEach x hx - hEach y hy
    exact sub_eq_zero.mp ((mul_eq_zero.mp hProduct).resolve_left (sub_ne_zero.mpr hDiffer))
  obtain ⟨a, ha, b, hb, hDiffer⟩ := h
  have hv : v ≠ 0 := by
    rintro rfl
    exact hRoot (by rw [hSum a ha b hb hDiffer, zero_mul])
  refine ⟨a, b, fun x hx => or_iff_not_imp_left.mpr fun hOther => ?_⟩
  have hSame : v * (x - b) = 0 := by
    linear_combination hSum a ha b hb hDiffer - hSum x hx a ha hOther
  exact sub_eq_zero.mp ((mul_eq_zero.mp hSame).resolve_left hv)

theorem varianceTerm_of_two_values (laws : math.Laws) (h : Varies returns) {a b : K}
    (hTwo : ∀ x ∈ returns, x = a ∨ x = b) (s : K) :
    varianceTerm s (momentsOf math returns).skew (momentsOf math returns).kurt =
      (1 - (momentsOf math returns).skew * s / 2) ^ 2 := by
  have hMoment := centralMoment_two_pos_iff.mpr h
  have hKurt : (momentsOf math returns).kurt = (momentsOf math returns).skew ^ 2 + 1 := by
    have hSquare := laws.sqrt.square _ hMoment.le
    have hThree := sq_centralMoment_three_eq h.ne_nil hTwo
    rw [momentsOf]
    dsimp only
    rw [div_pow, mul_pow, sq (math.sqrt _), hSquare, hThree]
    field_simp
    ring
  rw [varianceTerm, hKurt]
  push_cast
  ring

/-- It vanishes for two-valued returns of one ratio only, and is positive otherwise. -/
theorem varianceTerm_nonpos_iff (laws : math.Laws) (h : Varies returns) (s : K) :
    varianceTerm s (momentsOf math returns).skew (momentsOf math returns).kurt ≤ 0 ↔
      (∃ a b, ∀ x ∈ returns, x = a ∨ x = b) ∧ (momentsOf math returns).skew * s = 2 := by
  constructor
  · intro hVanishes
    have hZero := le_antisymm hVanishes (varianceTerm_nonneg laws h s)
    obtain ⟨a, b, hTwo⟩ := two_values_of_varianceTerm laws h hZero
    rw [varianceTerm_of_two_values laws h hTwo, sq_eq_zero_iff] at hZero
    exact ⟨⟨a, b, hTwo⟩, by linarith⟩
  · rintro ⟨⟨a, b, hTwo⟩, hRatio⟩
    rw [varianceTerm_of_two_values laws h hTwo, hRatio]
    norm_num

end Moments

/-! ## The kernel -/

section Kernel

variable {K : Type} [Field K] [LinearOrder K] [IsStrictOrderedRing K] {math : StatsModule K}
  {sr srStar skew kurt : K} {n : ℕ}

omit [IsStrictOrderedRing K] in
theorem psrKernel_of_pos (hTerm : 0 < varianceTerm sr skew kurt) : psrKernel math sr srStar n skew kurt =
    some (math.normal.cdf ((sr - srStar) * math.sqrt (n - 1) / math.sqrt (varianceTerm sr skew kurt))) :=
  if_neg (not_le.mpr hTerm)

omit [IsStrictOrderedRing K] in
theorem psrKernel_eq_none_iff : psrKernel math sr srStar n skew kurt = none ↔ varianceTerm sr skew kurt ≤ 0 := by
  simp [psrKernel]

/-- The kernel reaches a confidence above one half from the squared quantile on. -/
theorem lt_kernel_iff (laws : math.Laws) (hTerm : 0 < varianceTerm sr skew kurt) (hCount : 1 ≤ n) {alpha : K}
    (hAlpha : 0 < alpha) (hHalf : alpha < 1 / 2) :
    1 - alpha < math.normal.cdf ((sr - srStar) * math.sqrt (n - 1) / math.sqrt (varianceTerm sr skew kurt)) ↔
      srStar < sr ∧
        1 + varianceTerm sr skew kurt * (math.normal.quantile (1 - alpha) / (sr - srStar)) ^ 2 < n := by
  have hNear : 1 - alpha < 1 := sub_lt_self 1 hAlpha
  have hFar : 1 / 2 < 1 - alpha := by linarith
  have hQuantile := laws.normal.quantile_pos hFar hNear
  have hLength : (0 : K) ≤ n - 1 := sub_nonneg.mpr (by exact_mod_cast hCount)
  have hRootTerm := laws.sqrt.pos hTerm
  have hSquareTerm := laws.sqrt.square _ hTerm.le
  have hRootLength := laws.sqrt.nonneg _ hLength
  have hSquareLength := laws.sqrt.square _ hLength
  have hReach : ∀ x, 1 - alpha < math.normal.cdf x ↔ math.normal.quantile (1 - alpha) < x := fun x =>
    (lt_iff_lt_of_le_iff_le (laws.normal.le_quantile_iff (one_half_pos.trans hFar) hNear)).symm
  rw [hReach, lt_div_iff₀ hRootTerm]
  generalize math.normal.quantile (1 - alpha) = z at hQuantile ⊢
  generalize math.sqrt (varianceTerm sr skew kurt) = v at hRootTerm hSquareTerm ⊢
  generalize math.sqrt ((n : K) - 1) = r at hRootLength hSquareLength ⊢
  rw [← hSquareTerm]
  constructor
  · intro hLess
    have hProduct : 0 < (sr - srStar) * r := (mul_pos hQuantile hRootTerm).trans hLess
    have hExcess : 0 < sr - srStar := pos_of_mul_pos_left hProduct hRootLength
    refine ⟨sub_pos.mp hExcess, ?_⟩
    have hSquares := mul_self_lt_mul_self (mul_pos hQuantile hRootTerm).le hLess
    have hRatio : v * v * (z / (sr - srStar)) ^ 2 < r * r := by
      rw [div_pow, ← mul_div_assoc, div_lt_iff₀ (pow_pos hExcess 2)]
      linarith
    linarith
  · rintro ⟨hOrder, hLess⟩
    have hExcess : 0 < sr - srStar := sub_pos.mpr hOrder
    have hRatio : v * v * (z / (sr - srStar)) ^ 2 < r * r := by linarith
    rw [div_pow, ← mul_div_assoc, div_lt_iff₀ (pow_pos hExcess 2)] at hRatio
    refine lt_of_mul_self_lt_mul_self₀ (mul_nonneg hExcess.le hRootLength) ?_
    linarith

theorem minTrackRecordLength_of_pos (hOrder : srStar < sr) (hTerm : 0 < varianceTerm sr skew kurt) {alpha : K}
    (hAlpha : 0 < alpha) (hLess : alpha < 1) : minTrackRecordLength math sr srStar skew kurt alpha =
      .ok (some (1 + varianceTerm sr skew kurt * (math.normal.quantile (1 - alpha) / (sr - srStar)) ^ 2)) := by
  unfold minTrackRecordLength
  dsimp only
  rw [if_neg (not_le.mpr hOrder), if_neg (not_le.mpr hTerm),
    NormalDist.invCdf_ok (sub_pos.mpr hLess) (sub_lt_self 1 hAlpha)]
  rfl

omit [IsStrictOrderedRing K] in
theorem minTrackRecordLength_some {alpha length : K}
    (h : minTrackRecordLength math sr srStar skew kurt alpha = .ok (some length)) :
    srStar < sr ∧ 0 < varianceTerm sr skew kurt := by
  unfold minTrackRecordLength at h
  dsimp only at h
  split_ifs at h with hOrder hTerm
  · cases h
  · cases h
  · exact ⟨not_le.mp hOrder, not_le.mp hTerm⟩

variable (sr srStar skew kurt) in
/-- The minimum track record is where the kernel passes the confidence. -/
theorem lt_psrKernel_iff (laws : math.Laws) (hCount : 1 ≤ n) {alpha : K} (hAlpha : 0 < alpha)
    (hHalf : alpha < 1 / 2) :
    (∃ p, psrKernel math sr srStar n skew kurt = some p ∧ 1 - alpha < p) ↔
      ∃ length, minTrackRecordLength math sr srStar skew kurt alpha = .ok (some length) ∧ length < n := by
  have hLess : alpha < 1 := hHalf.trans one_half_lt_one
  constructor
  · rintro ⟨p, hKernel, hAbove⟩
    have hTerm : 0 < varianceTerm sr skew kurt := by
      refine not_le.mp fun hVanishes => ?_
      rw [psrKernel_eq_none_iff.mpr hVanishes] at hKernel
      cases hKernel
    rw [psrKernel_of_pos hTerm] at hKernel
    obtain rfl := Option.some.inj hKernel
    obtain ⟨hOrder, hLength⟩ := (lt_kernel_iff laws hTerm hCount hAlpha hHalf).mp hAbove
    exact ⟨_, minTrackRecordLength_of_pos hOrder hTerm hAlpha hLess, hLength⟩
  · rintro ⟨length, hTrack, hLength⟩
    obtain ⟨hOrder, hTerm⟩ := minTrackRecordLength_some hTrack
    rw [minTrackRecordLength_of_pos hOrder hTerm hAlpha hLess] at hTrack
    obtain rfl := Option.some.inj (Except.ok.inj hTrack)
    exact ⟨_, psrKernel_of_pos hTerm, (lt_kernel_iff laws hTerm hCount hAlpha hHalf).mpr ⟨hOrder, hLength⟩⟩

end Kernel

/-! ## The gate -/

section Gate

variable {K : Type} [Field K] [LinearOrder K] (math : StatsModule K) (returns : List K)
  (srThreshold periodsPerYear : K)

def psrOf : Option K :=
  if returns.length < minObsReliable then none
  else (computeSharpeMoments math returns).bind fun moments =>
    psrKernel math moments.srPerPeriod (srThreshold / math.sqrt periodsPerYear) returns.length moments.skew
      moments.kurt

variable {math returns srThreshold periodsPerYear}

theorem computeSharpeMoments_n {moments : SharpeMoments K} (h : computeSharpeMoments math returns = some moments) :
    moments.n = returns.length := by
  unfold computeSharpeMoments at h
  dsimp only at h
  split_ifs at h
  obtain rfl := Option.some.inj h
  rfl

variable [FloorRing K]

variable (math returns srThreshold) in
theorem probabilisticSharpe_ok (hPositive : 0 < periodsPerYear) : ∃ result,
    probabilisticSharpe math returns srThreshold periodsPerYear = .ok result ∧
      result.psr = psrOf math returns srThreshold periodsPerYear ∧
      result.srAnnualized =
        (computeSharpeMoments math returns).map (fun moments => moments.srPerPeriod * math.sqrt periodsPerYear) ∧
      result.skew = (computeSharpeMoments math returns).map SharpeMoments.skew := by
  unfold probabilisticSharpe psrOf
  rw [if_neg (not_le.mpr hPositive)]
  cases hMoments : computeSharpeMoments math returns with
  | none => exact ⟨_, rfl, by simp, rfl, rfl⟩
  | some moments =>
    dsimp only
    rw [computeSharpeMoments_n hMoments]
    by_cases hFew : returns.length < minObsReliable
    · rw [if_pos hFew, if_pos hFew]
      exact ⟨_, rfl, rfl, rfl, rfl⟩
    · rw [if_neg hFew, if_neg hFew]
      exact ⟨_, rfl, rfl, rfl, rfl⟩

variable [IsStrictOrderedRing K]

omit [FloorRing K] in
theorem psrOf_of_varies (laws : math.Laws) (hVaries : Varies returns) (hCount : minObsReliable ≤ returns.length) :
    psrOf math returns srThreshold periodsPerYear =
      psrKernel math (momentsOf math returns).srPerPeriod (srThreshold / math.sqrt periodsPerYear)
        returns.length (momentsOf math returns).skew (momentsOf math returns).kurt := by
  rw [psrOf, if_neg (not_lt.mpr hCount), computeSharpeMoments_of_varies laws hVaries, Option.bind_some]

omit [FloorRing K] in
theorem psrOf_eq_none_iff (laws : math.Laws) : psrOf math returns srThreshold periodsPerYear = none ↔
    returns.length < minObsReliable ∨ ¬Varies returns ∨ (∃ a b, ∀ x ∈ returns, x = a ∨ x = b) ∧
      (momentsOf math returns).skew * (momentsOf math returns).srPerPeriod = 2 := by
  by_cases hFew : returns.length < minObsReliable
  · exact iff_of_true (if_pos hFew) (.inl hFew)
  · rw [or_iff_right hFew]
    by_cases hVaries : Varies returns
    · rw [psrOf_of_varies laws hVaries (not_lt.mp hFew), psrKernel_eq_none_iff, varianceTerm_nonpos_iff laws hVaries,
        or_iff_right (not_not.mpr hVaries)]
    · refine iff_of_true ?_ (.inl hVaries)
      rw [psrOf, if_neg hFew, computeSharpeMoments_of_same laws hVaries, Option.bind_none]

def psrScore (math : StatsModule K) (returns : List K) (srThreshold periodsPerYear : K) : K :=
  ((momentsOf math returns).srPerPeriod - srThreshold / math.sqrt periodsPerYear) *
    math.sqrt (returns.length - 1) /
      math.sqrt (varianceTerm (momentsOf math returns).srPerPeriod (momentsOf math returns).skew
        (momentsOf math returns).kurt)

omit [FloorRing K] in
theorem psrOf_some (laws : math.Laws) {psr : K} (h : psrOf math returns srThreshold periodsPerYear = some psr) :
    Varies returns ∧ minObsReliable ≤ returns.length ∧
      0 < varianceTerm (momentsOf math returns).srPerPeriod (momentsOf math returns).skew
        (momentsOf math returns).kurt ∧
      psr = math.normal.cdf (psrScore math returns srThreshold periodsPerYear) := by
  have hDefined := mt (psrOf_eq_none_iff laws).mpr (by rw [h]; exact Option.some_ne_none psr)
  simp only [not_or, not_not, not_lt] at hDefined
  obtain ⟨hCount, hVaries, hRatio⟩ := hDefined
  have hTerm := not_le.mp (mt (varianceTerm_nonpos_iff laws hVaries _).mp hRatio)
  rw [psrOf_of_varies laws hVaries hCount, psrKernel_of_pos hTerm] at h
  exact ⟨hVaries, hCount, hTerm, (Option.some.inj h).symm⟩

omit [FloorRing K] in
/-- A ratio above the threshold is a probability above one half. -/
theorem half_lt_psr_iff (laws : math.Laws) (hPositive : 0 < periodsPerYear) {psr : K}
    (h : psrOf math returns srThreshold periodsPerYear = some psr) :
    1 / 2 < psr ↔ srThreshold < (momentsOf math returns).srPerPeriod * math.sqrt periodsPerYear := by
  obtain ⟨hVaries, -, hTerm, rfl⟩ := psrOf_some laws h
  have hLength : (0 : K) < returns.length - 1 := sub_pos.mpr (by exact_mod_cast hVaries.length)
  rw [← laws.normal.cdf_zero, laws.normal.strictMono.lt_iff_lt, psrScore,
    div_pos_iff_of_pos_right (laws.sqrt.pos hTerm), mul_pos_iff_of_pos_right (laws.sqrt.pos hLength), sub_pos,
    div_lt_iff₀ (laws.sqrt.pos hPositive)]

end Gate

/-- Ten returns that vary have a probability unless they take two values in one particular ratio. -/
theorem probabilisticSharpe_defined {periodsPerYear : ℝ} (hPositive : 0 < periodsPerYear) (returns : List ℝ)
    (srThreshold : ℝ) : ∃ result,
    probabilisticSharpe realStats returns srThreshold periodsPerYear = .ok result ∧
      (result.psr = none ↔ returns.length < 10 ∨ ¬Varies returns ∨
        (∃ a b, ∀ x ∈ returns, x = a ∨ x = b) ∧
          ∃ skew ∈ result.skew, ∃ sr ∈ result.srAnnualized, skew * sr = 2 * Real.sqrt periodsPerYear) ∧
      ∀ psr ∈ result.psr, (0 < psr ∧ psr < 1) ∧ ∃ sr ∈ result.srAnnualized, (1 / 2 < psr ↔ srThreshold < sr) := by
  obtain ⟨result, hOk, hPsr, hSr, hSkew⟩ :=
    probabilisticSharpe_ok realStats returns srThreshold hPositive
  have hRoot : 0 < realStats.sqrt periodsPerYear := Real.sqrt_pos.mpr hPositive
  refine ⟨result, hOk, ?_, fun psr hDefined => ?_⟩
  · rw [hPsr, psrOf_eq_none_iff realStats_laws]
    refine or_congr_right (or_congr_right' fun hVaries => and_congr_right fun _ => ?_)
    rw [hSr, hSkew, computeSharpeMoments_of_varies realStats_laws (not_not.mp hVaries)]
    simp only [Option.map_some, Option.mem_some_iff, exists_eq_left', ← mul_assoc]
    exact (mul_left_inj' hRoot.ne').symm
  · rw [hPsr] at hDefined
    obtain ⟨hVaries, -, -, hValue⟩ := psrOf_some realStats_laws hDefined
    rw [hSr, computeSharpeMoments_of_varies realStats_laws hVaries]
    refine ⟨?_, _, rfl, half_lt_psr_iff realStats_laws hPositive hDefined⟩
    rw [hValue]
    exact ⟨realStats_laws.normal.pos _, realStats_laws.normal.lt_one _⟩

/-- Ten days with three different returns. -/
theorem probabilisticSharpe_defined_three : ∃ result,
    probabilisticSharpe realStats [0, 1, 2, 0, 1, 2, 0, 1, 2, 0] 1 252 = .ok result ∧ result.psr ≠ none := by
  obtain ⟨result, hOk, hNone, -⟩ := probabilisticSharpe_defined (show (0 : ℝ) < 252 by norm_num)
    [0, 1, 2, 0, 1, 2, 0, 1, 2, 0] 1
  refine ⟨result, hOk, fun hUndefined => ?_⟩
  rcases hNone.mp hUndefined with hFew | hSame | ⟨⟨a, b, hTwo⟩, -⟩
  · simp at hFew
  · exact hSame ⟨0, by simp, 1, by simp, zero_ne_one⟩
  · have hZero := hTwo 0 (by simp)
    have hOne := hTwo 1 (by simp)
    have hLast := hTwo 2 (by simp)
    grind

/-- The gate passes exactly when the returns are more than the minimum track record at its confidence. -/
theorem passesPsr_iff_trackRecord {periodsPerYear : ℝ} (hPositive : 0 < periodsPerYear) {returns : List ℝ}
    (hCount : 10 ≤ returns.length) (srThreshold : ℝ) : ∃ result,
    probabilisticSharpe realStats returns srThreshold periodsPerYear = .ok result ∧
      (result.passesPsr = true ↔ ∃ moments ∈ computeSharpeMoments realStats returns, ∃ length,
        minTrackRecordLength realStats moments.srPerPeriod (srThreshold / Real.sqrt periodsPerYear) moments.skew
          moments.kurt (1 / 20) = .ok (some length) ∧ length < returns.length) := by
  obtain ⟨result, hOk, hPsr, -, -⟩ :=
    probabilisticSharpe_ok realStats returns srThreshold hPositive
  refine ⟨result, hOk, ?_⟩
  rw [PSRResult.passesPsr, hPsr, psrOf, if_neg (show ¬returns.length < minObsReliable from not_lt.mpr hCount)]
  cases hMoments : computeSharpeMoments realStats returns with
  | none => simp
  | some moments =>
    have hTrack := lt_psrKernel_iff moments.srPerPeriod (srThreshold / Real.sqrt periodsPerYear) moments.skew
      moments.kurt realStats_laws (le_trans (by decide) hCount) (show (0 : ℝ) < 1 / 20 by norm_num) (by norm_num)
    have hThreshold : (psrThreshold : ℝ) = 1 - 1 / 20 := by
      norm_num [psrThreshold]
    rw [Option.bind_some, Option.any_eq_true]
    simp only [Option.mem_some_iff, exists_eq_left', decide_eq_true_eq, hThreshold]
    exact hTrack

/-- The same ten days. -/
theorem passesPsr_iff_trackRecord_three : ∃ result,
    probabilisticSharpe realStats [0, 1, 2, 0, 1, 2, 0, 1, 2, 0] 1 252 = .ok result ∧
      (result.passesPsr = true ↔ ∃ moments ∈ computeSharpeMoments realStats [0, 1, 2, 0, 1, 2, 0, 1, 2, 0],
        ∃ length, minTrackRecordLength realStats moments.srPerPeriod (1 / Real.sqrt 252) moments.skew moments.kurt
          (1 / 20) = .ok (some length) ∧ length < (10 : ℕ)) :=
  passesPsr_iff_trackRecord (show (0 : ℝ) < 252 by norm_num)
    (show 10 ≤ [(0 : ℝ), 1, 2, 0, 1, 2, 0, 1, 2, 0].length by simp) 1

end Futur3.Stats
