import Mathlib.Probability.CDF
import Mathlib.Probability.Distributions.Gaussian.Real

/-! # The standard normal distribution

Its distribution function is strictly increasing from 0 to 1 and its quantile function
inverts it. Both are arguments wherever they are computed with; the law of the standard
Gaussian measure on the reals shows that such functions exist.
-/

namespace Futur3.Prelude

structure NormalDist (K : Type) where
  cdf : K → K
  quantile : K → K

/-- `statistics.StatisticsError`, as `inv_cdf` raises it. -/
inductive StatisticsError where
  -- "p must be in the range 0.0 < p < 1.0"
  | probability
deriving DecidableEq

namespace NormalDist

variable {K : Type} [Field K] [LinearOrder K]

def invCdf (normal : NormalDist K) (p : K) : Except StatisticsError K :=
  if 0 < p ∧ p < 1 then pure (normal.quantile p) else throw .probability

/-- What the two functions of the standard normal distribution have to be. -/
structure IsStandard (normal : NormalDist K) : Prop where
  strictMono : StrictMono normal.cdf
  pos : ∀ x, 0 < normal.cdf x
  lt_one : ∀ x, normal.cdf x < 1
  cdf_quantile : ∀ {p}, 0 < p → p < 1 → normal.cdf (normal.quantile p) = p
  cdf_neg : ∀ x, normal.cdf (-x) = 1 - normal.cdf x

variable {normal : NormalDist K} {p q x : K}

theorem invCdf_ok (hPos : 0 < p) (hLess : p < 1) : normal.invCdf p = .ok (normal.quantile p) :=
  if_pos ⟨hPos, hLess⟩

namespace IsStandard

variable (h : normal.IsStandard)
include h

theorem quantile_le_iff (hPos : 0 < p) (hLess : p < 1) : normal.quantile p ≤ x ↔ p ≤ normal.cdf x := by
  rw [← h.strictMono.le_iff_le, h.cdf_quantile hPos hLess]

theorem le_quantile_iff (hPos : 0 < p) (hLess : p < 1) : x ≤ normal.quantile p ↔ normal.cdf x ≤ p := by
  rw [← h.strictMono.le_iff_le, h.cdf_quantile hPos hLess]

theorem quantile_mono (hPos : 0 < p) (hOrder : p ≤ q) (hLess : q < 1) :
    normal.quantile p ≤ normal.quantile q := by
  rw [h.quantile_le_iff hPos (hOrder.trans_lt hLess), h.cdf_quantile (hPos.trans_le hOrder) hLess]
  exact hOrder

variable [IsStrictOrderedRing K]

theorem cdf_zero : normal.cdf 0 = 1 / 2 := by
  have hTwice := h.cdf_neg 0
  rw [neg_zero] at hTwice
  linarith

theorem quantile_nonneg (hHalf : 1 / 2 ≤ p) (hLess : p < 1) : 0 ≤ normal.quantile p := by
  rw [h.le_quantile_iff (one_half_pos.trans_le hHalf) hLess, h.cdf_zero]
  exact hHalf

theorem quantile_pos (hHalf : 1 / 2 < p) (hLess : p < 1) : 0 < normal.quantile p := by
  rw [← h.strictMono.lt_iff_lt, h.cdf_zero, h.cdf_quantile (one_half_pos.trans hHalf) hLess]
  exact hHalf

theorem quantile_one_sub (hPos : 0 < p) (hLess : p < 1) : normal.quantile (1 - p) = -normal.quantile p := by
  apply h.strictMono.injective
  rw [h.cdf_quantile (sub_pos.mpr hLess) (sub_lt_self 1 hPos), h.cdf_neg, h.cdf_quantile hPos hLess]

end IsStandard

end NormalDist

/-! ## On the reals -/

section Real

open MeasureTheory ProbabilityTheory Set

noncomputable def gaussianCdf (x : ℝ) : ℝ := cdf (gaussianReal 0 1) x

instance standardNormal_null : NullSingletonClass (gaussianReal 0 1) := nullSingletonClass_gaussianReal one_ne_zero

theorem gaussianCdf_eq (x : ℝ) : gaussianCdf x = (gaussianReal 0 1).real (Iic x) := cdf_eq_real _ x

theorem gaussianCdf_strictMono : StrictMono gaussianCdf := by
  intro a b hab
  have hVolume : volume (Ioc a b) ≠ 0 := by
    rw [Real.volume_Ioc]
    exact (ENNReal.ofReal_pos.mpr (sub_pos.mpr hab)).ne'
  have hMass : (gaussianReal 0 1).real (Ioc a b) ≠ 0 := by
    rw [Ne, measureReal_eq_zero_iff]
    exact fun hNull => hVolume (gaussianReal_absolutelyContinuous' 0 one_ne_zero hNull)
  have hSplit : (gaussianReal 0 1).real (Iic b) =
      (gaussianReal 0 1).real (Iic a) + (gaussianReal 0 1).real (Ioc a b) := by
    rw [← Iic_union_Ioc_eq_Iic hab.le]
    exact measureReal_union (Iic_disjoint_Ioc le_rfl) measurableSet_Ioc
  rw [gaussianCdf_eq, gaussianCdf_eq, hSplit]
  exact lt_add_of_pos_right _ (measureReal_nonneg.lt_of_ne' hMass)

theorem gaussian_Ici (x : ℝ) : (gaussianReal 0 1).real (Ici x) = 1 - gaussianCdf x := by
  rw [← compl_Iio, probReal_compl_eq_one_sub measurableSet_Iio, measureReal_congr Iio_ae_eq_Iic, gaussianCdf_eq]

theorem gaussianCdf_neg (x : ℝ) : gaussianCdf (-x) = 1 - gaussianCdf x := by
  have hMap : (gaussianReal 0 1).map (fun y => -y) = gaussianReal 0 1 := by
    rw [gaussianReal_map_neg, neg_zero]
  have hFlip : (gaussianReal 0 1).real (Iic (-x)) = (gaussianReal 0 1).real (Ici x) := by
    conv_lhs => rw [← hMap]
    rw [map_measureReal_apply measurable_neg measurableSet_Iic]
    congr 1
    ext y
    simp
  rw [gaussianCdf_eq, hFlip, gaussian_Ici]

theorem gaussianCdf_continuous : Continuous gaussianCdf := by
  rw [continuous_iff_continuousAt]
  intro a
  have hSingle : (cdf (gaussianReal 0 1)).measure {a} = 0 := by
    rw [measure_cdf]
    exact measure_singleton a
  rw [StieltjesFunction.measure_singleton, ENNReal.ofReal_eq_zero, sub_nonpos] at hSingle
  have hMono : Monotone gaussianCdf := gaussianCdf_strictMono.monotone
  have hLeft : Function.leftLim gaussianCdf a = gaussianCdf a := le_antisymm (hMono.leftLim_le le_rfl) hSingle
  rw [hMono.continuousAt_iff_leftLim_eq_rightLim, hLeft]
  exact ((cdf (gaussianReal 0 1)).rightLim_eq a).symm

theorem gaussianCdf_pos (x : ℝ) : 0 < gaussianCdf x :=
  (cdf_nonneg _ (x - 1)).trans_lt (gaussianCdf_strictMono (sub_one_lt x))

theorem gaussianCdf_lt_one (x : ℝ) : gaussianCdf x < 1 :=
  (gaussianCdf_strictMono (lt_add_one x)).trans_le (cdf_le_one _ (x + 1))

/-- Chebyshev's inequality, for two tails that are alike. -/
theorem gaussianCdf_ge {c : ℝ} (hc : 0 < c) : 1 - 1 / (2 * c ^ 2) ≤ gaussianCdf c := by
  have hFar : (gaussianReal 0 1).real {x | c ≤ |x|} ≤ 1 / c ^ 2 := by
    have hTails := meas_ge_le_variance_div_sq (memLp_id_gaussianReal 2 : MemLp id 2 (gaussianReal 0 1)) hc
    rw [variance_id_gaussianReal] at hTails
    simp only [id_eq, integral_id_gaussianReal, sub_zero, NNReal.coe_one] at hTails
    exact ENNReal.toReal_le_of_le_ofReal (by positivity) hTails
  have hTails : {x : ℝ | c ≤ |x|} = Iic (-c) ∪ Ici c := by
    ext x
    rw [mem_ofPred_eq, le_abs', mem_union, mem_Iic, mem_Ici]
  have hApart : Disjoint (Iic (-c)) (Ici c) := Iic_disjoint_Ici.mpr (by linarith)
  rw [hTails, measureReal_union hApart measurableSet_Ici, ← gaussianCdf_eq, gaussianCdf_neg, gaussian_Ici] at hFar
  have hHalf : 1 / (2 * c ^ 2) = 1 / c ^ 2 / 2 := by
    rw [div_div, mul_comm]
  linarith

theorem exists_gaussianCdf_eq {p : ℝ} (hPos : 0 < p) (hLess : p < 1) : ∃ x, gaussianCdf x = p := by
  obtain ⟨a, ha⟩ := ((tendsto_cdf_atBot (gaussianReal 0 1)).eventually (gt_mem_nhds hPos)).exists
  obtain ⟨b, hb⟩ := ((tendsto_cdf_atTop (gaussianReal 0 1)).eventually (lt_mem_nhds hLess)).exists
  exact mem_range_of_exists_le_of_exists_ge gaussianCdf_continuous ⟨a, ha.le⟩ ⟨b, hb.le⟩

open Classical in
noncomputable def standardNormal : NormalDist ℝ where
  cdf := gaussianCdf
  quantile p := if h : 0 < p ∧ p < 1 then (exists_gaussianCdf_eq h.1 h.2).choose else 0

theorem isStandard_standardNormal : standardNormal.IsStandard where
  strictMono := gaussianCdf_strictMono
  pos := gaussianCdf_pos
  lt_one := gaussianCdf_lt_one
  cdf_quantile := by
    intro p hPos hLess
    have hQuantile : standardNormal.quantile p = (exists_gaussianCdf_eq hPos hLess).choose :=
      dif_pos ⟨hPos, hLess⟩
    rw [hQuantile]
    exact (exists_gaussianCdf_eq hPos hLess).choose_spec
  cdf_neg := gaussianCdf_neg

end Real

end Futur3.Prelude
