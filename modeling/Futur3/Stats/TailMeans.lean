import Futur3.Prelude.ExtendedFloat
import Futur3.Prelude.ExtremeItems
import Futur3.Prelude.NearestFloat
import Futur3.Stats.QuantileSkewness

/-! # Means of the tails

The mean of the worst returns and the mean of the best, each over the same share of the
observations: an expected shortfall on either side. Mixing two sleeves never makes the worst
tail worse than the mixture of their worst tails.
-/

namespace Futur3.Stats

open Prelude Prelude.ExtremeItems

section Model

variable {K : Type} [Field K] [LinearOrder K]

structure TailMeans (K : Type) where
  leftMean : K
  rightMean : K
  nTail : ℕ

def TailMeans.ratio (means : TailMeans K) : Extended K :=
  let denom := |means.leftMean|
  if denom = 0 then (if 0 < means.rightMean then .posInf else .nan) else .num (means.rightMean / denom)

variable [FloorRing K]

def roundNine (x : K) : K := (roundHalfEven (x * (10 : ℕ) ^ 9) : K) / (10 : ℕ) ^ 9

def tailCount (tail : K) (n : ℕ) : ℕ := max 1 ⌈roundNine (tail * n)⌉.toNat

def tailMeans (returns : List K) (tail : K) : Except (TailRiskError K) (Option (TailMeans K)) :=
  if ¬(0 < tail ∧ tail < maxTail) then throw (.tail tail)
  else
    let n := returns.length
    if n < minReturns then pure none
    else
      let ordered := Selection.sortBy id returns
      let k := tailCount tail n
      pure (some { leftMean := Deviations.mean (ordered.take k)
                   rightMean := Deviations.mean (ordered.drop (ordered.length - k))
                   nTail := k })

end Model

/-! ## The number of observations in a tail -/

section Count

variable {K : Type} [Field K] [LinearOrder K] [IsStrictOrderedRing K] [FloorRing K] {tail : K} {n : ℕ}

theorem roundNine_le {m : ℕ} {x : K} (h : x ≤ m / 2) : roundNine x ≤ m / 2 := by
  have hScaled : x * (10 : ℕ) ^ 9 ≤ ((m * 500000000 : ℤ) : K) := by
    push_cast
    linarith
  have hRounded : (roundHalfEven (x * (10 : ℕ) ^ 9) : K) ≤ ((m * 500000000 : ℤ) : K) :=
    Int.cast_le.mpr (roundHalfEven_le hScaled)
  have hBack : (m : K) / 2 * (10 : ℕ) ^ 9 = ((m * 500000000 : ℤ) : K) := by
    push_cast
    ring
  rw [roundNine, div_le_iff₀ (by positivity), hBack]
  exact hRounded

/-- The two tails have an observation each, and at most the middle one in common. -/
theorem tailCount_bounds (n : ℕ) (hTail : tail < 1 / 2) :
    1 ≤ tailCount tail n ∧ (2 ≤ n → 2 * tailCount tail n ≤ n + 1) := by
  refine ⟨le_max_left _ _, fun hLength => ?_⟩
  have hHalf : tail * n ≤ n / 2 := by
    have := mul_le_mul_of_nonneg_right hTail.le (Nat.cast_nonneg (α := K) n)
    linarith
  have hCeil : ⌈roundNine (tail * n)⌉ ≤ ((n + 1) / 2 : ℕ) := by
    have hUp : ((n : ℕ) : K) ≤ ((2 * ((n + 1) / 2) : ℕ) : K) := Nat.cast_le.mpr (by omega)
    rw [Nat.cast_mul, Nat.cast_ofNat] at hUp
    rw [Int.ceil_le, Int.cast_natCast]
    exact (roundNine_le hHalf).trans (by linarith)
  have hCount : tailCount tail n ≤ (n + 1) / 2 := max_le (by omega) (by omega)
  omega

theorem tailCount_le (hTail : tail < 1 / 2) (hLength : 2 ≤ n) : tailCount tail n ≤ n := by
  have hHalf := (tailCount_bounds n hTail).2 hLength
  omega

end Count

/-! ## Means of so many extreme returns -/

section Means

variable {K : Type} [Field K] [LinearOrder K]

def TailMeans.ofCount (count : ℕ) (returns : List K) : TailMeans K where
  leftMean := (least count returns).sum / count
  rightMean := (greatest count returns).sum / count
  nTail := count

variable {count : ℕ} {returns : List K}

theorem TailMeans.ofCount_perm {permuted : List K} (h : permuted.Perm returns) :
    TailMeans.ofCount count permuted = TailMeans.ofCount count returns := by
  rw [ofCount, ofCount, least_perm h, greatest_perm h]

variable [IsStrictOrderedRing K]

theorem TailMeans.ofCount_bounds (hPos : 1 ≤ count) (h : count ≤ returns.length) :
    (ofCount count returns).leftMean ≤ Deviations.mean returns ∧
      Deviations.mean returns ≤ (ofCount count returns).rightMean := by
  have hCount : (0 : K) < count := Nat.cast_pos.mpr hPos
  have hLength : (0 : K) < returns.length := Nat.cast_pos.mpr (hPos.trans h)
  have hLeast := length_nsmul_sum_least h
  have hGreatest := nsmul_sum_le_greatest h
  rw [nsmul_eq_mul, nsmul_eq_mul] at hLeast hGreatest
  constructor
  · exact (div_le_div_iff₀ hCount hLength).mpr (by linarith)
  · exact (div_le_div_iff₀ hLength hCount).mpr (by linarith)

/-- Pooling two sleeves day by day does not make a worst tail worse, nor a best one better. -/
theorem TailMeans.ofCount_add {others : List K} (hLength : others.length = returns.length)
    (h : count ≤ returns.length) :
    (ofCount count returns).leftMean + (ofCount count others).leftMean ≤
        (ofCount count (List.zipWith (· + ·) returns others)).leftMean ∧
      (ofCount count (List.zipWith (· + ·) returns others)).rightMean ≤
        (ofCount count returns).rightMean + (ofCount count others).rightMean := by
  have hDays : count ≤ (returns.zip others).length := by
    rw [List.length_zip]
    omega
  have hLeast := sum_least_add Prod.fst Prod.snd hDays
  have hGreatest := sum_greatest_add Prod.fst Prod.snd hDays
  rw [List.map_fst_zip hLength.ge, List.map_snd_zip hLength.le, List.map_zip_eq_zipWith] at hLeast hGreatest
  simp only [ofCount, ← add_div]
  exact ⟨div_le_div_of_nonneg_right hLeast count.cast_nonneg, div_le_div_of_nonneg_right hGreatest count.cast_nonneg⟩

theorem TailMeans.ofCount_mono {others : List K} (hBetter : List.Forall₂ (· ≤ ·) returns others)
    (h : count ≤ returns.length) :
    (ofCount count returns).leftMean ≤ (ofCount count others).leftMean ∧
      (ofCount count returns).rightMean ≤ (ofCount count others).rightMean := by
  have hLength := hBetter.length_eq
  have hDays : count ≤ (returns.zip others).length := by
    rw [List.length_zip]
    omega
  have hLe : ∀ day ∈ returns.zip others, day.1 ≤ day.2 := fun day hDay =>
    (List.forall₂_iff_zip.mp hBetter).2 hDay
  have hLeast := sum_least_mono hLe hDays
  have hGreatest := sum_greatest_mono hLe hDays
  rw [List.map_fst_zip hLength.le, List.map_snd_zip hLength.ge] at hLeast hGreatest
  exact ⟨div_le_div_of_nonneg_right hLeast count.cast_nonneg, div_le_div_of_nonneg_right hGreatest count.cast_nonneg⟩

omit [LinearOrder K] [IsStrictOrderedRing K] in
theorem sum_affine (a b : K) (xs : List K) : (xs.map fun x => a * x + b).sum = a * xs.sum + xs.length * b := by
  rw [List.sum_map_add, List.sum_map_mul_left, List.map_id', List.map_const', List.sum_replicate, nsmul_eq_mul]

theorem TailMeans.ofCount_affine {a : K} (ha : 0 < a) (b : K) (hPos : 1 ≤ count) (h : count ≤ returns.length) :
    ofCount count (returns.map fun r => a * r + b) =
      { leftMean := a * (ofCount count returns).leftMean + b
        rightMean := a * (ofCount count returns).rightMean + b
        nTail := count } := by
  have hCount : (count : K) ≠ 0 := Nat.cast_ne_zero.mpr (Nat.one_le_iff_ne_zero.mp hPos)
  have hLeast : least count (returns.map fun r => a * r + b) = (least count returns).map fun r => a * r + b := by
    rw [least, sorted_affine ha, least, List.map_take]
  have hGreatest : greatest count (returns.map fun r => a * r + b) =
      (greatest count returns).map fun r => a * r + b := by
    rw [greatest, sorted_affine ha, greatest, List.map_drop, List.length_map]
  have hMean (total : K) : (a * total + count * b) / count = a * (total / count) + b := by
    field_simp
  rw [ofCount, hLeast, hGreatest, sum_affine, sum_affine, length_least h, length_greatest h, hMean, hMean]
  rfl

/-- Selling what was bought changes the tails round. -/
theorem TailMeans.ofCount_neg (h : count ≤ returns.length) :
    ofCount count (returns.map fun r => -r) =
      { leftMean := -(ofCount count returns).rightMean
        rightMean := -(ofCount count returns).leftMean
        nTail := count } := by
  have hSum (part : List K) : (part.map fun r => -r).reverse.sum = -part.sum := by
    rw [List.sum_reverse, ← List.sum_neg]
  have hLeast : (least count (returns.map fun r => -r)).sum = -(greatest count returns).sum := by
    rw [least, sorted_neg, List.take_reverse, List.length_map, length_sorted, ← List.map_drop, hSum, greatest]
  have hGreatest : (greatest count (returns.map fun r => -r)).sum = -(least count returns).sum := by
    rw [greatest, sorted_neg, List.drop_reverse, List.length_map, List.length_map, length_sorted,
      Nat.sub_sub_self h, ← List.map_take, hSum, least]
  rw [ofCount, hLeast, hGreatest, neg_div, neg_div]
  rfl

theorem TailMeans.ratio_scaled {a : K} (ha : 0 < a) (means : TailMeans K) (count : ℕ) :
    TailMeans.ratio { leftMean := a * means.leftMean, rightMean := a * means.rightMean, nTail := count } =
      means.ratio := by
  simp only [ratio, abs_mul, abs_of_pos ha, mul_eq_zero, ha.ne', false_or, mul_pos_iff_of_pos_left ha,
    mul_div_mul_left _ _ ha.ne']

variable [FloorRing K] {tail : K}

/-- Past the checks the result is the pair of means at the count of the tail. -/
theorem tailMeans_eq (hTail : 0 < tail ∧ tail < 1 / 2) (hLength : 2 ≤ returns.length) :
    tailMeans returns tail = .ok (some (.ofCount (tailCount tail returns.length) returns)) := by
  have hCount := tailCount_le hTail.2 hLength
  have hLeft : Deviations.mean (least (tailCount tail returns.length) returns) =
      (TailMeans.ofCount (tailCount tail returns.length) returns).leftMean := by
    rw [Deviations.mean, length_least hCount, TailMeans.ofCount]
  have hRight : Deviations.mean ((Selection.sortBy id returns).drop
      ((Selection.sortBy id returns).length - tailCount tail returns.length)) =
        (TailMeans.ofCount (tailCount tail returns.length) returns).rightMean := by
    rw [length_sorted, ← greatest, Deviations.mean, length_greatest hCount, TailMeans.ofCount]
  rw [← half_eq] at hTail
  apply (if_neg (not_not.mpr hTail)).trans
  apply (if_neg (not_lt.mpr hLength)).trans
  exact congrArg₂ (fun left right => Except.ok (some (TailMeans.mk left right (tailCount tail returns.length))))
    hLeft hRight

end Means

/-! ## Coherence -/

/-- The pair is a coherent measure of either tail: the mean lies between, pooling with any other sleeve makes
neither tail more extreme, better returns make no tail worse, cash and leverage act as on the returns, a short
position swaps the tails, and the order of the days does not matter. -/
theorem tailMeans_coherent {tail : ℝ} (hTail : 0 < tail ∧ tail < 1 / 2) {returns : List ℝ}
    (hLength : 2 ≤ returns.length) : ∃ means, tailMeans returns tail = .ok (some means) ∧
      (means.leftMean ≤ Deviations.mean returns ∧ Deviations.mean returns ≤ means.rightMean) ∧
      (∀ others, others.length = returns.length → ∃ means' pooled, tailMeans others tail = .ok (some means') ∧
        tailMeans (List.zipWith (· + ·) returns others) tail = .ok (some pooled) ∧
        means.leftMean + means'.leftMean ≤ pooled.leftMean ∧ pooled.rightMean ≤ means.rightMean + means'.rightMean) ∧
      (∀ others, List.Forall₂ (· ≤ ·) returns others → ∃ means', tailMeans others tail = .ok (some means') ∧
        means.leftMean ≤ means'.leftMean ∧ means.rightMean ≤ means'.rightMean) ∧
      (∀ a b : ℝ, 0 < a → ∃ means', tailMeans (returns.map fun r => a * r + b) tail = .ok (some means') ∧
        means'.leftMean = a * means.leftMean + b ∧ means'.rightMean = a * means.rightMean + b ∧
        (b = 0 → means'.ratio = means.ratio)) ∧
      (∃ means', tailMeans (returns.map fun r => -r) tail = .ok (some means') ∧
        means'.leftMean = -means.rightMean ∧ means'.rightMean = -means.leftMean) ∧
      ∀ permuted : List ℝ, permuted.Perm returns → tailMeans permuted tail = tailMeans returns tail := by
  have hPos := (tailCount_bounds returns.length hTail.2).1
  have hCount := tailCount_le hTail.2 hLength
  have hSame {others : List ℝ} (h : others.length = returns.length) :
      tailMeans others tail = .ok (some (.ofCount (tailCount tail returns.length) others)) := by
    rw [tailMeans_eq hTail (h ▸ hLength), h]
  refine ⟨_, hSame rfl, TailMeans.ofCount_bounds hPos hCount, ?_, ?_, ?_, ?_, ?_⟩
  · intro others h
    refine ⟨_, _, hSame h, hSame ?_, TailMeans.ofCount_add h hCount⟩
    rw [List.length_zipWith, h, Nat.min_self]
  · intro others hBetter
    exact ⟨_, hSame hBetter.length_eq.symm, TailMeans.ofCount_mono hBetter hCount⟩
  · intro a b ha
    refine ⟨_, hSame (List.length_map _), ?_⟩
    rw [TailMeans.ofCount_affine ha b hPos hCount]
    refine ⟨rfl, rfl, ?_⟩
    rintro rfl
    simpa only [add_zero] using TailMeans.ratio_scaled ha (.ofCount _ returns) _
  · refine ⟨_, hSame (List.length_map _), ?_⟩
    rw [TailMeans.ofCount_neg hCount]
    exact ⟨rfl, rfl⟩
  · intro permuted h
    rw [hSame h.length_eq, hSame rfl, TailMeans.ofCount_perm h]

theorem tailMeans_coherent_pair : ∃ means pooled, tailMeans [-2, 1, 3] (1 / 4 : ℝ) = .ok (some means) ∧
    tailMeans (List.zipWith (· + ·) [-2, 1, 3] [1, -1, 1]) (1 / 4 : ℝ) = .ok (some pooled) ∧
    means.leftMean ≤ Deviations.mean [-2, 1, 3] ∧ ∃ means', tailMeans [1, -1, 1] (1 / 4 : ℝ) = .ok (some means') ∧
      means.leftMean + means'.leftMean ≤ pooled.leftMean := by
  obtain ⟨means, hMeans, hBounds, hPooled, -⟩ :=
    tailMeans_coherent (show 0 < (1 / 4 : ℝ) ∧ (1 / 4 : ℝ) < 1 / 2 by norm_num) (show 2 ≤ [-2, 1, 3].length by decide)
  obtain ⟨means', pooled, hOthers, hTogether, hLeft, -⟩ := hPooled [1, -1, 1] rfl
  exact ⟨means, pooled, hMeans, hTogether, hBounds.1, means', hOthers, hLeft⟩

end Futur3.Stats
