import Futur3.Prelude.Interpolation
import Futur3.Prelude.Method
import Futur3.Stats.TailRisk
import Mathlib.Algebra.Order.Archimedean.Real.Basic
import Mathlib.Data.List.GetD
import Mathlib.Tactic.FieldSimp

/-! # Quantile skewness is a bounded, odd and invariant asymmetry

The quantiles interpolate the sorted returns. They grow with the probability between the
least and the greatest return, follow a change of scale and origin, and change places
when the signs change.
-/

namespace Futur3.Stats

open Prelude Interpolation

section Sorted

variable {K : Type} [LinearOrder K]

theorem sortBy_id_of_perm {xs ys : List K} (h : xs.Perm ys) :
    Selection.sortBy id xs = Selection.sortBy id ys :=
  Selection.sort_eq_of_perm h

theorem sortBy_id_of_sorted {xs ys : List K} (h : xs.Perm ys) (hSorted : ys.Pairwise (· ≤ ·)) :
    Selection.sortBy id xs = ys := by
  rw [sortBy_id_of_perm h]
  exact hSorted.insertionSort_eq

theorem monotoneOn_getD [Zero K] {ordered : List K} (hNil : ordered ≠ [])
    (hSorted : ordered.Pairwise (· ≤ ·)) :
    MonotoneOn (fun i => ordered.getD i 0) (Set.Iic (ordered.length - 1)) := by
  intro i hi j hj hLe
  have hLength := List.length_pos_of_ne_nil hNil
  have hj' : j < ordered.length := by
    have := Set.mem_Iic.mp hj
    omega
  rcases hLe.eq_or_lt with rfl | hLt
  · exact le_rfl
  · have hGet := List.pairwise_iff_getElem.mp hSorted i j (hLt.trans hj') hj' hLt
    simpa [List.getD_eq_getElem?_getD, List.getElem?_eq_getElem, hj', hLt.trans hj'] using hGet

/-- The first and the last of the sorted values are the least and the greatest. -/
theorem getD_extreme [Zero K] {ordered : List K} (hNil : ordered ≠ [])
    (hSorted : ordered.Pairwise (· ≤ ·)) :
    IsLeast {x | x ∈ ordered} (ordered.getD 0 0) ∧
      IsGreatest {x | x ∈ ordered} (ordered.getD (ordered.length - 1) 0) := by
  have hMono := monotoneOn_getD hNil hSorted
  have hLength := List.length_pos_of_ne_nil hNil
  have hMem : ∀ i < ordered.length, ordered.getD i 0 ∈ ordered := by
    intro i hi
    rw [List.getD_eq_getElem _ _ hi]
    exact List.getElem_mem hi
  have hIndex : ∀ x ∈ ordered, ∃ i < ordered.length, ordered.getD i 0 = x := by
    intro x hx
    obtain ⟨i, hi, rfl⟩ := List.getElem_of_mem hx
    exact ⟨i, hi, List.getD_eq_getElem _ _ hi⟩
  refine ⟨⟨hMem 0 hLength, fun x hx => ?_⟩, ⟨hMem _ (by omega), fun x hx => ?_⟩⟩
  · obtain ⟨i, hi, rfl⟩ := hIndex x hx
    exact hMono (Set.mem_Iic.mpr (Nat.zero_le _)) (Set.mem_Iic.mpr (by omega)) (Nat.zero_le i)
  · obtain ⟨i, hi, rfl⟩ := hIndex x hx
    exact hMono (Set.mem_Iic.mpr (by omega)) (Set.mem_Iic.mpr le_rfl) (by omega)

theorem monotoneOn_sorted [Zero K] {returns : List K} (hLength : 2 ≤ returns.length) :
    MonotoneOn (fun i => (Selection.sortBy id returns).getD i 0) (Set.Iic (returns.length - 1)) := by
  have hSorted := (Selection.sortBy_perm_self id returns).length_eq
  have hMono := monotoneOn_getD (List.ne_nil_of_length_pos (by omega)) (Selection.pairwise_sortBy id returns)
  rwa [hSorted] at hMono

end Sorted

section Ordered

variable {K : Type} [Field K] [LinearOrder K] [IsStrictOrderedRing K]

theorem sorted_affine {a b : K} (ha : 0 < a) (returns : List K) :
    Selection.sortBy id (returns.map fun x => a * x + b) =
      (Selection.sortBy id returns).map fun x => a * x + b := by
  apply sortBy_id_of_sorted ((Selection.sortBy_perm_self id returns).symm.map _)
  rw [List.pairwise_map]
  refine (Selection.pairwise_sortBy id returns).imp fun hLe => ?_
  exact add_le_add_left (mul_le_mul_of_nonneg_left hLe ha.le) b

theorem sorted_neg (returns : List K) :
    Selection.sortBy id (returns.map fun x => -x) =
      ((Selection.sortBy id returns).map fun x => -x).reverse := by
  apply sortBy_id_of_sorted
  · exact ((Selection.sortBy_perm_self id returns).symm.map _).trans (List.reverse_perm _).symm
  · rw [List.pairwise_reverse, List.pairwise_map]
    exact (Selection.pairwise_sortBy id returns).imp fun hLe => neg_le_neg hLe

theorem position_bounds {p : K} (top : ℕ) (hLow : 0 ≤ p) (hHigh : p ≤ 1) :
    0 ≤ (top : K) * p ∧ (top : K) * p ≤ top :=
  ⟨mul_nonneg (Nat.cast_nonneg top) hLow, mul_le_of_le_one_right (Nat.cast_nonneg top) hHigh⟩

end Ordered

/-! ## The asymmetry of three quantiles -/

section Asymmetry

variable {K : Type} [Field K] [LinearOrder K]

/-- What `quantile_skewness` makes of the low, the middle and the high quantile. -/
def asymmetry (qLo qMid qHi : K) : Option K :=
  if qHi - qLo ≤ 0 then none else some ((qHi + qLo - (2 : ℕ) * qMid) / (qHi - qLo))

theorem asymmetry_neg (qLo qMid qHi : K) :
    asymmetry (-qHi) (-qMid) (-qLo) = (asymmetry qLo qMid qHi).map fun skew => -skew := by
  have hSpread : -qLo - -qHi = qHi - qLo := by
    ring
  have hLean : -qLo + -qHi - (2 : ℕ) * -qMid = -(qHi + qLo - (2 : ℕ) * qMid) := by
    ring
  unfold asymmetry
  rw [hSpread, hLean, neg_div]
  split <;> rfl

variable [IsStrictOrderedRing K]

theorem asymmetry_eq_none_iff {qLo qMid qHi : K} (h : qLo ≤ qHi) :
    asymmetry qLo qMid qHi = none ↔ qLo = qHi := by
  unfold asymmetry
  split
  · rename_i hSpread
    exact iff_of_true rfl (le_antisymm h (sub_nonpos.mp hSpread))
  · rename_i hSpread
    refine iff_of_false (by simp) fun hSame => hSpread ?_
    rw [hSame, sub_self]

theorem asymmetry_bounds {qLo qMid qHi skew : K} (hLow : qLo ≤ qMid) (hHigh : qMid ≤ qHi)
    (h : asymmetry qLo qMid qHi = some skew) : -1 ≤ skew ∧ skew ≤ 1 := by
  unfold asymmetry at h
  split at h
  · cases h
  · rename_i hSpread
    cases h
    have hPos := not_le.mp hSpread
    rw [le_div_iff₀ hPos, div_le_one hPos, Nat.cast_ofNat]
    constructor <;> linarith

theorem asymmetry_affine {a : K} (ha : 0 < a) (b qLo qMid qHi : K) :
    asymmetry (a * qLo + b) (a * qMid + b) (a * qHi + b) = asymmetry qLo qMid qHi := by
  have hSpread : a * qHi + b - (a * qLo + b) = a * (qHi - qLo) := by
    ring
  have hLean : a * qHi + b + (a * qLo + b) - (2 : ℕ) * (a * qMid + b) =
      a * (qHi + qLo - (2 : ℕ) * qMid) := by
    push_cast
    ring
  have hNone : a * (qHi - qLo) ≤ 0 ↔ qHi - qLo ≤ 0 := by
    rw [← not_lt, ← not_lt, mul_pos_iff_of_pos_left ha]
  unfold asymmetry
  rw [hSpread, hLean, mul_div_mul_left _ _ ha.ne']
  exact if_congr hNone rfl rfl

end Asymmetry

/-! ## Quantiles -/

variable {K : Type} [Field K] [LinearOrder K] [FloorRing K]

def sampleQuantile (returns : List K) (p : K) : K := quantile (Selection.sortBy id returns) p

theorem quantile_eq {ordered : List K} (hLength : 2 ≤ ordered.length) (p : K) :
    quantile ordered p =
      interpolate (fun i => ordered.getD i 0) (ordered.length - 1) ((ordered.length - 1 : ℕ) * p) := by
  have hCast : ((ordered.length - 1 : ℕ) : ℤ) = (ordered.length : ℤ) - 1 := by omega
  have hCast' : ((ordered.length - 1 : ℕ) : K) = (ordered.length : K) - 1 := by
    rw [Nat.cast_sub (by omega), Nat.cast_one]
  unfold quantile interpolate
  rw [if_neg (by omega), hCast, hCast']

theorem sampleQuantile_perm {xs ys : List K} (h : xs.Perm ys) (p : K) :
    sampleQuantile xs p = sampleQuantile ys p := by
  rw [sampleQuantile, sampleQuantile, sortBy_id_of_perm h]

variable {returns : List K}

theorem sampleQuantile_eq (hLength : 2 ≤ returns.length) (p : K) :
    sampleQuantile returns p = interpolate (fun i => (Selection.sortBy id returns).getD i 0)
      (returns.length - 1) ((returns.length - 1 : ℕ) * p) := by
  have hSorted := (Selection.sortBy_perm_self id returns).length_eq
  rw [sampleQuantile, quantile_eq (by omega), hSorted]

theorem half_eq {F : Type} [Field F] : (1 : F) / (2 : ℕ) = 1 / 2 := by
  rw [Nat.cast_ofNat]

theorem quantileSkewness_ok (hLength : 2 ≤ returns.length) {tail : K} (hTail : 0 < tail ∧ tail < 1 / 2) :
    quantileSkewness returns tail = .ok (asymmetry (sampleQuantile returns tail)
      (sampleQuantile returns (1 / 2)) (sampleQuantile returns (1 - tail))) := by
  rw [← half_eq] at hTail ⊢
  apply (if_neg (not_not.mpr hTail)).trans
  apply (if_neg (not_lt.mpr hLength)).trans
  unfold asymmetry
  split
  · exact if_pos ‹_›
  · exact if_neg ‹_›

theorem quantileSkewness_perm {permuted : List K} (h : permuted.Perm returns) {tail : K}
    (hLength : 2 ≤ returns.length) (hTail : 0 < tail ∧ tail < 1 / 2) :
    quantileSkewness permuted tail = quantileSkewness returns tail := by
  rw [quantileSkewness_ok (by rwa [h.length_eq]) hTail, quantileSkewness_ok hLength hTail]
  simp only [sampleQuantile_perm h]

variable [IsStrictOrderedRing K] {p q : K}

theorem sampleQuantile_mono (hLength : 2 ≤ returns.length) (hLow : 0 ≤ p) (hLe : p ≤ q) (hHigh : q ≤ 1) :
    sampleQuantile returns p ≤ sampleQuantile returns q := by
  rw [sampleQuantile_eq hLength, sampleQuantile_eq hLength]
  apply interpolate_mono (monotoneOn_sorted hLength) (by omega)
  · exact (position_bounds _ hLow (hLe.trans hHigh)).1
  · exact mul_le_mul_of_nonneg_left hLe (Nat.cast_nonneg _)
  · exact (position_bounds _ (hLow.trans hLe) hHigh).2

theorem sampleQuantile_bounds (hLength : 2 ≤ returns.length) :
    ∃ least greatest, IsLeast {x | x ∈ returns} least ∧ IsGreatest {x | x ∈ returns} greatest ∧
      ∀ p, 0 ≤ p → p ≤ 1 → least ≤ sampleQuantile returns p ∧ sampleQuantile returns p ≤ greatest := by
  have hPerm := Selection.sortBy_perm_self id returns
  have hNil : Selection.sortBy id returns ≠ [] := List.ne_nil_of_length_pos (by have := hPerm.length_eq; omega)
  have hExtreme := getD_extreme hNil (Selection.pairwise_sortBy id returns)
  simp only [hPerm.mem_iff, hPerm.length_eq] at hExtreme
  refine ⟨_, _, hExtreme.1, hExtreme.2, fun p hLow hHigh => ?_⟩
  rw [sampleQuantile_eq hLength]
  obtain ⟨hFrom, hTo⟩ := position_bounds (returns.length - 1) hLow hHigh
  exact interpolate_bounds (monotoneOn_sorted hLength) (by omega) hFrom hTo

theorem sampleQuantile_affine {a b : K} (ha : 0 < a) (hLength : 2 ≤ returns.length) (hLow : 0 ≤ p)
    (hHigh : p ≤ 1) :
    sampleQuantile (returns.map fun x => a * x + b) p = a * sampleQuantile returns p + b := by
  obtain ⟨hFrom, hTo⟩ := position_bounds (returns.length - 1) hLow hHigh
  rw [sampleQuantile_eq (by rwa [List.length_map]), sampleQuantile_eq hLength, ← interpolate_affine,
    List.length_map, sorted_affine ha]
  apply interpolate_congr (by omega) _ hFrom hTo
  intro i hi
  have hIndex : i < (Selection.sortBy id returns).length := by
    rw [(Selection.sortBy_perm_self id returns).length_eq]
    omega
  simp [List.getD_eq_getElem?_getD, List.getElem?_eq_getElem hIndex]

theorem sampleQuantile_neg (hLength : 2 ≤ returns.length) (hLow : 0 ≤ p) (hHigh : p ≤ 1) :
    sampleQuantile (returns.map fun x => -x) p = -sampleQuantile returns (1 - p) := by
  obtain ⟨hFrom, hTo⟩ := position_bounds (returns.length - 1) hLow hHigh
  have hBack : ((returns.length - 1 : ℕ) : K) * (1 - p) =
      (returns.length - 1 : ℕ) - (returns.length - 1 : ℕ) * p := by
    ring
  rw [sampleQuantile_eq (by rwa [List.length_map]), sampleQuantile_eq hLength, hBack,
    ← interpolate_reflect (by omega) hFrom hTo, List.length_map, sorted_neg]
  apply interpolate_congr (by omega) _ hFrom hTo
  intro i hi
  have hCount := (Selection.sortBy_perm_self id returns).length_eq
  have hIndex : returns.length - 1 - i < (Selection.sortBy id returns).length := by omega
  rw [List.getD_eq_getElem?_getD, List.getElem?_reverse (by rw [List.length_map]; omega), List.length_map,
    hCount]
  simp [List.getD_eq_getElem?_getD, List.getElem?_eq_getElem hIndex]

structure QuantileLaws (returns : List K) : Prop where
  mono : MonotoneOn (sampleQuantile returns) (Set.Icc 0 1)
  bounded : ∃ least greatest, IsLeast {x | x ∈ returns} least ∧ IsGreatest {x | x ∈ returns} greatest ∧
    ∀ p ∈ Set.Icc (0 : K) 1, sampleQuantile returns p ∈ Set.Icc least greatest
  reflect : ∀ p ∈ Set.Icc (0 : K) 1,
    sampleQuantile (returns.map fun x => -x) p = -sampleQuantile returns (1 - p)

theorem quantileLaws (hLength : 2 ≤ returns.length) : QuantileLaws returns where
  mono := fun _ hp _ hq hLe => sampleQuantile_mono hLength hp.1 hLe hq.2
  bounded := by
    obtain ⟨least, greatest, hLeast, hGreatest, hWithin⟩ := sampleQuantile_bounds hLength
    exact ⟨least, greatest, hLeast, hGreatest, fun p hp => hWithin p hp.1 hp.2⟩
  reflect := fun _ hp => sampleQuantile_neg hLength hp.1 hp.2

/-- A tail, the median and the opposite tail stand in order. -/
theorem tail_order {tail : K} (hTail : 0 < tail ∧ tail < 1 / 2) :
    (0 ≤ tail ∧ tail ≤ 1) ∧ tail ≤ 1 / 2 ∧ 1 / 2 ≤ 1 - tail ∧ 0 ≤ 1 - tail ∧ 1 - tail ≤ 1 := by
  obtain ⟨hPos, hHalf⟩ := hTail
  refine ⟨⟨hPos.le, ?_⟩, hHalf.le, ?_, ?_, ?_⟩ <;> linarith

theorem quantileSkewness_affine {a b tail : K} (ha : 0 < a) (hLength : 2 ≤ returns.length)
    (hTail : 0 < tail ∧ tail < 1 / 2) :
    quantileSkewness (returns.map fun x => a * x + b) tail = quantileSkewness returns tail := by
  obtain ⟨⟨hLow, hHigh⟩, hMid, hMid', hLow', hHigh'⟩ := tail_order hTail
  rw [quantileSkewness_ok (by rwa [List.length_map]) hTail, quantileSkewness_ok hLength hTail,
    sampleQuantile_affine ha hLength hLow hHigh, sampleQuantile_affine ha hLength hLow' hHigh',
    sampleQuantile_affine ha hLength (hLow.trans hMid) (hMid'.trans hHigh'), asymmetry_affine ha]

theorem quantileSkewness_neg {tail : K} (hLength : 2 ≤ returns.length)
    (hTail : 0 < tail ∧ tail < 1 / 2) {result : Option K}
    (hResult : quantileSkewness returns tail = .ok result) :
    quantileSkewness (returns.map fun x => -x) tail = .ok (result.map fun skew => -skew) := by
  obtain ⟨⟨hLow, hHigh⟩, hMid, hMid', hLow', hHigh'⟩ := tail_order hTail
  have hHalf : (1 : K) - 1 / 2 = 1 / 2 := by
    ring
  rw [quantileSkewness_ok hLength hTail] at hResult
  rw [quantileSkewness_ok (by rwa [List.length_map]) hTail, sampleQuantile_neg hLength hLow hHigh,
    sampleQuantile_neg hLength hLow' hHigh', sampleQuantile_neg hLength (hLow.trans hMid) (hMid'.trans hHigh'),
    hHalf, sub_sub_cancel, asymmetry_neg, Except.ok.inj hResult]

/-- Reals stand for floats. -/
theorem quantileSkewness_asymmetry {returns : List ℝ} (hLength : 2 ≤ returns.length) {tail : ℝ}
    (hTail : 0 < tail ∧ tail < 1 / 2) :
    QuantileLaws returns ∧ ∃ result, quantileSkewness returns tail = .ok result ∧
      (result = none ↔ sampleQuantile returns tail = sampleQuantile returns (1 - tail)) ∧
      (∀ skew, result = some skew → -1 ≤ skew ∧ skew ≤ 1) ∧
      (∀ permuted : List ℝ, permuted.Perm returns → quantileSkewness permuted tail = .ok result) ∧
      (∀ a b : ℝ, 0 < a → quantileSkewness (returns.map fun x => a * x + b) tail = .ok result) ∧
      quantileSkewness (returns.map fun x => -x) tail = .ok (result.map fun skew => -skew) := by
  obtain ⟨⟨hLow, hHigh⟩, hMid, hMid', hLow', hHigh'⟩ := tail_order hTail
  have hResult := quantileSkewness_ok hLength hTail
  have hFirst := sampleQuantile_mono hLength hLow hMid (hMid'.trans hHigh')
  have hSecond := sampleQuantile_mono hLength (hLow.trans hMid) hMid' hHigh'
  refine ⟨quantileLaws hLength, _, hResult, ?_, ?_, ?_, ?_, quantileSkewness_neg hLength hTail hResult⟩
  · exact asymmetry_eq_none_iff (hFirst.trans hSecond)
  · exact fun skew => asymmetry_bounds hFirst hSecond
  · intro permuted hPerm
    rw [quantileSkewness_perm hPerm hLength hTail, hResult]
  · intro a b ha
    rw [quantileSkewness_affine ha hLength hTail, hResult]

theorem quantileSkewness_asymmetry_pair :
    QuantileLaws [(3 : ℝ), 1] ∧ ∃ result, quantileSkewness [(3 : ℝ), 1] (1 / 4) = .ok result ∧
      (result = none ↔ sampleQuantile [(3 : ℝ), 1] (1 / 4) = sampleQuantile [3, 1] (1 - 1 / 4)) ∧
      (∀ skew, result = some skew → -1 ≤ skew ∧ skew ≤ 1) ∧
      (∀ permuted : List ℝ, permuted.Perm [3, 1] → quantileSkewness permuted (1 / 4) = .ok result) ∧
      (∀ a b : ℝ, 0 < a → quantileSkewness ([3, 1].map fun x => a * x + b) (1 / 4) = .ok result) ∧
      quantileSkewness ([(3 : ℝ), 1].map fun x => -x) (1 / 4) = .ok (result.map fun skew => -skew) :=
  quantileSkewness_asymmetry (by decide) (by norm_num)

end Futur3.Stats
