import Futur3.Prelude.Method
import Futur3.Stats.StepdownCoherence
import Futur3.Stats.StudentizedRows

/-! # The superior-ability test is never weaker than the first step

On every path the recentered best of the one gate is at most the best of the other. A
positive factor, another order, a copy or a strategy that never moves leave the set of
studentized values as it is.
-/

namespace Futur3.Stats

open Execution Prelude Deviations

/-! ## The gates over the drawn paths -/

section Gates

variable {K : Type} [Field K] [LinearOrder K] {γ : Type} (gen : Generator γ) (x : Differentials K)
  (nBootstrap : ℕ) (blockLength : ℤ) (seed : Option ℤ)

def spaTau (math : Cv.MathModule K) (nObs : ℕ) : K :=
  math.sqrt ((2 : ℕ) * math.log (math.log (max nObs minObsForTau : ℕ)))

theorem spaOf_eq (math : Cv.MathModule K) :
    have := x.neZero
    (spaOf math gen x nBootstrap blockLength seed).testStatistic =
        bestOf (x.d.map (rowT math.sqrt (gatePaths gen x.nObs nBootstrap blockLength seed) nBootstrap)) ∧
      (spaOf math gen x nBootstrap blockLength seed).pValue =
        spaShare math.sqrt (gatePaths gen x.nObs nBootstrap blockLength seed) nBootstrap
          (spaTau math x.nObs) x.d := by
  have := x.neZero
  have := x.neZeroStrategies
  have hDbar : x.dbar = x.d.map (rowMean x.nObs) := rfl
  have hBest := max_maxIdx_eq (d := x.d)
    (rowT math.sqrt (gatePaths gen x.nObs nBootstrap blockLength seed) nBootstrap)
  have hBoot := fun idx => bootStat_eq x.d
    (rowOmega math.sqrt (gatePaths gen x.nObs nBootstrap blockLength seed) nBootstrap)
    fun row => rowVal math.sqrt (gatePaths gen x.nObs nBootstrap blockLength seed) nBootstrap
      (spaTau math x.nObs) row idx
  unfold spaOf spaShare
  simp only [dstar_eq, hDbar, omega_eq, getD_map_get, List.countP_map, Function.comp_def, ← hBoot, ← hBest]
  exact ⟨rfl, rfl⟩

theorem romanoWolfOf_adjusted (sqrt : K → K) (alpha : K) :
    have := x.neZero
    let paths := gatePaths gen x.nObs nBootstrap blockLength seed
    (romanoWolfOf sqrt gen x alpha nBootstrap blockLength seed).adjustedPvalues =
      List.ofFn (stepdown (fun k => rowT sqrt paths nBootstrap (x.d.get k))
        (fun k => decide (0 < rowOmega sqrt paths nBootstrap (x.d.get k)))
        (paths.map fun idx k => rowStar sqrt paths nBootstrap (x.d.get k) idx) nBootstrap alpha).adjusted := by
  have := x.neZero
  have hDbar : x.dbar = x.d.map (rowMean x.nObs) := rfl
  unfold romanoWolfOf
  simp only [dstar_eq, hDbar, omega_eq, getD_map_get, List.map_map, Function.comp_def]
  rfl

end Gates

/-! ## The comparison -/

section Compare

variable {K : Type} [Field K] [LinearOrder K] [IsStrictOrderedRing K] {nObs : ℕ} {sqrt : K → K}
  {paths : List (List (Fin nObs))} {nBootstrap : ℕ} {tau : K}

/-- Without its recentering a clearly inferior strategy reaches less far. -/
theorem rowVal_le_rowStar (hTau : 0 ≤ tau) {row : List K} (hValid : 0 < rowOmega sqrt paths nBootstrap row)
    (idx : List (Fin nObs)) :
    rowVal sqrt paths nBootstrap tau row idx ≤ rowStar sqrt paths nBootstrap row idx := by
  have hStar : rowStar sqrt paths nBootstrap row idx =
      sqrt nObs * (pathMean row idx - rowMean nObs row) / rowOmega sqrt paths nBootstrap row := if_pos hValid
  have hT : rowT sqrt paths nBootstrap row =
      sqrt nObs * rowMean nObs row / rowOmega sqrt paths nBootstrap row := if_pos hValid
  rw [rowVal, hStar]
  split
  · exact le_rfl
  · rename_i hInferior
    have hLow : rowT sqrt paths nBootstrap row < -tau := not_le.mp fun hKeep => hInferior ⟨hValid, hKeep⟩
    rw [hT] at hLow
    rw [mul_sub, mul_sub, sub_div, sub_div, mul_zero, zero_div, sub_zero]
    linarith

theorem spaShare_le_stepPvalue (hTau : 0 ≤ tau) (d : List (List K))
    (hBest : 0 < bestOf (d.map (rowT sqrt paths nBootstrap))) (head : Fin d.length) :
    spaShare sqrt paths nBootstrap tau d ≤
      stepPvalue (fun k => decide (0 < rowOmega sqrt paths nBootstrap (d.get k)))
        (paths.map fun idx k => rowStar sqrt paths nBootstrap (d.get k) idx) nBootstrap Finset.univ
        (rowT sqrt paths nBootstrap (d.get head)) := by
  apply div_le_div_of_nonneg_right _ (add_nonneg (Nat.cast_nonneg _) zero_le_one)
  apply add_le_add_left
  rw [exceedances, List.countP_map]
  apply Nat.cast_le.mpr
  apply List.countP_mono_left
  intro idx _ hReach
  simp only [decide_eq_true_eq, Function.comp_apply] at hReach ⊢
  have hHead : rowT sqrt paths nBootstrap (d.get head) ≤ bestOf (d.map (rowT sqrt paths nBootstrap)) :=
    le_bestOf_iff.mpr (.inr ⟨_, List.mem_map_of_mem (List.get_mem d head), le_rfl⟩)
  rcases le_bestOf_iff.mp hReach with hZero | ⟨v, hv, hAbove⟩
  · exact absurd hBest (not_lt.mpr hZero)
  · obtain ⟨row, hRow, rfl⟩ := List.mem_map.mp hv
    obtain ⟨hMem, hValid⟩ := List.mem_filter.mp hRow
    obtain ⟨k, rfl⟩ := List.get_of_mem hMem
    have hStar := rowVal_le_rowStar hTau (of_decide_eq_true hValid) idx
    have hIn : rowStar sqrt paths nBootstrap (d.get k) idx ∈ (Finset.univ.filter fun k =>
        0 < rowOmega sqrt paths nBootstrap (d.get k)).image
          fun k => rowStar sqrt paths nBootstrap (d.get k) idx :=
      Finset.mem_image_of_mem _ (Finset.mem_filter.mpr ⟨Finset.mem_univ k, of_decide_eq_true hValid⟩)
    apply (hHead.trans (hAbove.trans hStar)).trans
    exact (WithBot.le_unbotD_iff (Finset.max_eq_bot.not.mpr (Finset.ne_empty_of_mem hIn))).mpr (Finset.le_max hIn)

end Compare

/-! ## Accepted families -/

section Accepted

variable {K : Type} [Field K] {rows : List (List K)}

theorem sub_zeros {n : ℕ} {row : List K} (h : row.length = n) :
    List.zipWith (· - ·) row (List.replicate n 0) = row := by
  subst h
  induction row with
  | nil => rfl
  | cons r rest ih => simp [List.replicate_succ, ih]

/-- Against the zero benchmark the differentials are the returns. -/
theorem prepareDifferentials_none (hStrategies : minStrategies ≤ rows.length) {n : ℕ} (hObs : minObs ≤ n)
    (hRows : ∀ row ∈ rows, row.length = n) :
    prepareDifferentials rows none = .ok ⟨rows, n, hStrategies, hObs, hRows⟩ := by
  have hHead : (rows.headD []).length = n := by
    cases rows with
    | nil => cases hStrategies
    | cons row rest => exact hRows row List.mem_cons_self
  subst hHead
  have hBench : (none.getD (List.replicate (rows.headD []).length (0 : K))).length = (rows.headD []).length :=
    List.length_replicate
  apply (dif_neg (not_lt.mpr hStrategies)).trans
  apply (dif_neg (not_lt.mpr hObs)).trans
  apply (dif_neg (by push Not; exact hRows)).trans
  apply (dif_neg (not_not.mpr hBench)).trans
  have hSame : (rows.map fun s => List.zipWith (· - ·) s (List.replicate (rows.headD []).length 0)) = rows := by
    rw [List.map_congr_left fun s hs => sub_zeros (hRows s hs), List.map_id']
  exact congrArg Except.ok (Differentials.ext hSame rfl)

theorem prepareDifferentials_none_ok {x : Differentials K} (h : prepareDifferentials rows none = .ok x) :
    x.d = rows := by
  have hUnfolded := h
  unfold prepareDifferentials at hUnfolded
  dsimp only at hUnfolded
  split_ifs at hUnfolded with hStrategies hObs hRagged
  push Not at hRagged
  rw [prepareDifferentials_none (not_lt.mp hStrategies) (not_lt.mp hObs) hRagged] at h
  cases h
  rfl

variable [LinearOrder K] {γ : Type} {gen : Generator γ} {nBootstrap : ℕ} {blockLength : ℤ} {seed : Option ℤ}

theorem spaTest_ok {math : Cv.MathModule K} {result : SPAResult K}
    (h : spaTest math gen rows none nBootstrap blockLength seed = .ok result) :
    minBootstrap ≤ nBootstrap ∧ 1 ≤ blockLength ∧ ∃ x, prepareDifferentials rows none = .ok x ∧
      result = spaOf math gen x nBootstrap blockLength seed := by
  unfold spaTest at h
  split_ifs at h with hBootstrap hBlock
  obtain ⟨x, hPrepared, h⟩ := except_bind_ok_iff.mp h
  cases h
  exact ⟨not_lt.mp hBootstrap, not_lt.mp hBlock, x, mapError_ok_iff.mp hPrepared, rfl⟩

theorem spaTest_of_prepared {math : Cv.MathModule K} {x : Differentials K}
    (hBootstrap : minBootstrap ≤ nBootstrap) (hBlock : 1 ≤ blockLength)
    (hPrepared : prepareDifferentials rows none = .ok x) :
    spaTest math gen rows none nBootstrap blockLength seed =
      .ok (spaOf math gen x nBootstrap blockLength seed) := by
  unfold spaTest
  rw [if_neg (not_lt.mpr hBootstrap), if_neg (not_lt.mpr hBlock), hPrepared]
  rfl

theorem romanoWolfStepdown_ok {sqrt : K → K} {alpha : K} {result : RomanoWolfResult K} {x : Differentials K}
    (hPrepared : prepareDifferentials rows none = .ok x)
    (h : romanoWolfStepdown sqrt gen rows none alpha nBootstrap blockLength seed = .ok result) :
    result = romanoWolfOf sqrt gen x alpha nBootstrap blockLength seed := by
  unfold romanoWolfStepdown at h
  rw [hPrepared] at h
  split_ifs at h
  cases h
  rfl

theorem romanoWolfStepdown_of_prepared {sqrt : K → K} {alpha : K} {x : Differentials K}
    (hAlpha : 0 < alpha ∧ alpha < 1) (hBootstrap : minBootstrap ≤ nBootstrap) (hBlock : 1 ≤ blockLength)
    (hPrepared : prepareDifferentials rows none = .ok x) :
    romanoWolfStepdown sqrt gen rows none alpha nBootstrap blockLength seed =
      .ok (romanoWolfOf sqrt gen x alpha nBootstrap blockLength seed) := by
  unfold romanoWolfStepdown
  rw [if_neg (not_not.mpr hAlpha), if_neg (not_lt.mpr hBootstrap), if_neg (not_lt.mpr hBlock), hPrepared]
  rfl

end Accepted

/-! ## The claims of the two gates -/

section Main

variable {K : Type} [Field K] [LinearOrder K] {γ : Type} {gen : Generator γ} {math : Cv.MathModule K}
  {rows : List (List K)} {nBootstrap : ℕ} {blockLength : ℤ} {seed : Option ℤ} {result : SPAResult K}

def HasPValue (math : Cv.MathModule K) (gen : Generator γ) (nBootstrap : ℕ) (blockLength : ℤ)
    (seed : Option ℤ) (p : K) (family : List (List K)) : Prop :=
  ∃ result, spaTest math gen family none nBootstrap blockLength seed = .ok result ∧ result.pValue = p

theorem hasPValue_of_covers (h : spaTest math gen rows none nBootstrap blockLength seed = .ok result) :
    ∃ paths : List (List (Fin result.nObs)), rows ≠ [] ∧ (∀ row ∈ rows, row.length = result.nObs) ∧
      ∀ family, family ≠ [] → (∀ row ∈ family, row.length = result.nObs) →
        Covers math.sqrt paths nBootstrap (spaTau math result.nObs) rows family →
        Covers math.sqrt paths nBootstrap (spaTau math result.nObs) family rows →
        HasPValue math gen nBootstrap blockLength seed result.pValue family := by
  obtain ⟨hBootstrap, hBlock, x, hPrepared, rfl⟩ := spaTest_ok h
  have hSame := prepareDifferentials_none_ok hPrepared
  obtain ⟨d, n, hStrategies, hObs, hRows⟩ := x
  obtain rfl : d = rows := hSame
  have hPValue := (spaOf_eq gen ⟨d, n, hStrategies, hObs, hRows⟩ nBootstrap blockLength seed math).2
  have : NeZero n := ⟨(zero_lt_two.trans_le hObs).ne'⟩
  refine ⟨gatePaths gen n nBootstrap blockLength seed, List.ne_nil_of_length_pos hStrategies, hRows,
    fun family hNil hFamily hCovers hCovers' => ?_⟩
  have hPrepared' := prepareDifferentials_none (List.length_pos_of_ne_nil hNil) hObs hFamily
  refine ⟨_, spaTest_of_prepared hBootstrap hBlock hPrepared', ?_⟩
  rw [(spaOf_eq gen _ nBootstrap blockLength seed math).2, hPValue]
  exact spaShare_eq_of_covers hCovers' hCovers

theorem hasPValue_of_same_members (h : spaTest math gen rows none nBootstrap blockLength seed = .ok result)
    {family : List (List K)} (hIn : family ⊆ rows) (hOut : rows ⊆ family) :
    HasPValue math gen nBootstrap blockLength seed result.pValue family := by
  obtain ⟨paths, hNil, hRows, hCovered⟩ := hasPValue_of_covers h
  refine hCovered family ?_ (fun row hRow => hRows row (hIn hRow)) (covers_of_subset hOut) (covers_of_subset hIn)
  rintro rfl
  exact hNil (List.subset_nil.mp hOut)

variable [IsStrictOrderedRing K]

theorem hasPValue_of_scaled (hSqrt : IsSqrt math.sqrt)
    (h : spaTest math gen rows none nBootstrap blockLength seed = .ok result) {family : List (List K)}
    (hFamily : List.Forall₂ (fun row row' => ∃ c : K, 0 < c ∧ row' = row.map fun r => c * r) rows family) :
    HasPValue math gen nBootstrap blockLength seed result.pValue family := by
  obtain ⟨paths, hNil, hRows, hCovered⟩ := hasPValue_of_covers h
  have hIn : ∀ row ∈ rows, ∃ row' ∈ family, Alike math.sqrt paths nBootstrap (spaTau math result.nObs) row row' := by
    intro row hRow
    obtain ⟨_, hRow', c, hc, rfl⟩ := exists_of_forall₂ hFamily hRow
    exact ⟨_, hRow', alike_scaled hSqrt hc row⟩
  have hOut : ∀ row' ∈ family, row'.length = result.nObs ∧
      ∃ row ∈ rows, Alike math.sqrt paths nBootstrap (spaTau math result.nObs) row' row := by
    intro row' hRow'
    obtain ⟨row, hRow, c, hc, rfl⟩ := exists_of_forall₂ hFamily.flip hRow'
    exact ⟨by rw [List.length_map, hRows row hRow], row, hRow, (alike_scaled hSqrt hc row).symm⟩
  refine hCovered family ?_ (fun row' hRow' => (hOut row' hRow').1) (fun row hRow _ => hIn row hRow)
    fun row' hRow' _ => (hOut row' hRow').2
  rintro rfl
  cases hFamily
  exact hNil rfl

theorem hasPValue_of_idle (hSqrt : IsSqrt math.sqrt)
    (h : spaTest math gen rows none nBootstrap blockLength seed = .ok result) {family : List (List K)}
    (hFamily : family.Perm (List.replicate result.nObs 0 :: rows)) :
    HasPValue math gen nBootstrap blockLength seed result.pValue family := by
  obtain ⟨paths, -, hRows, hCovered⟩ := hasPValue_of_covers h
  refine hCovered family ?_ ?_ ?_ ?_
  · rintro rfl
    exact absurd hFamily.length_eq (by simp)
  · intro row hRow
    rcases List.mem_cons.mp (hFamily.subset hRow) with rfl | hOld
    · exact List.length_replicate
    · exact hRows row hOld
  · exact covers_of_subset fun row hRow => hFamily.symm.subset (List.mem_cons_of_mem _ hRow)
  · exact fun row hRow => covers_cons (rowOmega_idle hSqrt) row (hFamily.subset hRow)

/-- The best statistic is positive once some strategy with a positive mean moves on some path. -/
theorem maxTStat_pos (hSqrt : IsSqrt math.sqrt) (hBootstrap : 0 < nBootstrap) (x : Differentials K) {row : List K}
    (hRow : row ∈ x.d) (hMean : 0 < rowMean x.nObs row) :
    have := x.neZero
    (∃ idx ∈ gatePaths gen x.nObs nBootstrap blockLength seed, pathMean row idx ≠ rowMean x.nObs row) →
      0 < (spaOf math gen x nBootstrap blockLength seed).maxTStat := by
  rintro _ ⟨idx, hIdx, hMoves⟩
  have hObs : 0 < x.nObs := Nat.pos_of_ne_zero (NeZero.ne x.nObs)
  have hValid := rowOmega_pos hSqrt hObs hBootstrap hIdx hMoves
  have hT := rowT_pos hSqrt hObs hValid hMean
  have hBest := hT.trans_le (le_bestOf_iff.mpr (.inr ⟨_, List.mem_map_of_mem hRow, le_rfl⟩))
  rw [← (spaOf_eq gen x nBootstrap blockLength seed math).1] at hBest
  exact (lt_max_iff.mp hBest).resolve_left (lt_irrefl 0)

/-- The best strategy is adjusted to no less than the p-value of the test, and so is every other. -/
theorem pValue_le_adjusted (hTau : 0 ≤ spaTau math result.nObs)
    (h : spaTest math gen rows none nBootstrap blockLength seed = .ok result) (hBest : 0 < result.maxTStat)
    {alpha : K} {stepdown : RomanoWolfResult K}
    (hStepdown : romanoWolfStepdown math.sqrt gen rows none alpha nBootstrap blockLength seed = .ok stepdown) :
    result.maxStrategyIdx < stepdown.adjustedPvalues.length ∧
      ∀ p ∈ stepdown.adjustedPvalues, result.pValue ≤ p := by
  obtain ⟨-, -, x, hPrepared, rfl⟩ := spaTest_ok h
  obtain rfl := romanoWolfStepdown_ok hPrepared hStepdown
  have := x.neZero
  obtain ⟨hStatistic, hPValue⟩ := spaOf_eq gen x nBootstrap blockLength seed math
  have hPositive : 0 < bestOf (x.d.map (rowT math.sqrt (gatePaths gen x.nObs nBootstrap blockLength seed)
      nBootstrap)) := hStatistic ▸ lt_max_of_lt_right hBest
  rw [romanoWolfOf_adjusted, hPValue]
  refine ⟨by rw [List.length_ofFn]; exact Fin.is_lt _, fun p hp => ?_⟩
  obtain ⟨k, rfl⟩ := (List.mem_ofFn' _ _).mp hp
  obtain ⟨head, hFirst⟩ := exists_stepPvalue_le_adjusted _ _ _ nBootstrap alpha k
  exact (spaShare_le_stepPvalue hTau x.d hPositive head).trans hFirst

end Main

noncomputable def realMath : Cv.MathModule ℝ := ⟨Real.log, Real.sqrt⟩

theorem spaTest_invariant_dominating {γ : Type} (gen : Generator γ) {strategies : List (List ℝ)}
    {nBootstrap : ℕ} {blockLength : ℤ} {seed : Option ℤ} {result : SPAResult ℝ}
    (h : spaTest realMath gen strategies none nBootstrap blockLength seed = .ok result) :
    (∀ family, List.Forall₂ (fun s s' => ∃ c : ℝ, 0 < c ∧ s' = s.map fun r => c * r) strategies family →
      HasPValue realMath gen nBootstrap blockLength seed result.pValue family) ∧
    (∀ family, family.Perm strategies →
      HasPValue realMath gen nBootstrap blockLength seed result.pValue family) ∧
    (∀ copied ∈ strategies, ∀ family, family.Perm (copied :: strategies) →
      HasPValue realMath gen nBootstrap blockLength seed result.pValue family) ∧
    (∀ family, family.Perm (List.replicate result.nObs 0 :: strategies) →
      HasPValue realMath gen nBootstrap blockLength seed result.pValue family) ∧
    (0 < result.maxTStat → ∀ alpha stepdown,
      romanoWolfStepdown Real.sqrt gen strategies none alpha nBootstrap blockLength seed = .ok stepdown →
        (∃ best, stepdown.adjustedPvalues[result.maxStrategyIdx]? = some best ∧ result.pValue ≤ best) ∧
        ((∃ (k : ℕ) (p : ℝ), stepdown.reject[k]? = some true ∧ stepdown.adjustedPvalues[k]? = some p ∧ p < alpha) →
          result.rejectNullAt alpha = true)) := by
  refine ⟨fun family => hasPValue_of_scaled isSqrt_real h, fun family hPerm => ?_,
    fun copied hCopied family hPerm => ?_, fun family => hasPValue_of_idle isSqrt_real h,
    fun hBest alpha stepdown hStepdown => ?_⟩
  · exact hasPValue_of_same_members h hPerm.subset hPerm.symm.subset
  · apply hasPValue_of_same_members h
    · exact List.Subset.trans hPerm.subset (List.cons_subset.mpr ⟨hCopied, List.Subset.refl _⟩)
    · exact List.Subset.trans (List.subset_cons_self _ _) hPerm.symm.subset
  · obtain ⟨hIdx, hLe⟩ := pValue_le_adjusted (Real.sqrt_nonneg _) h hBest hStepdown
    refine ⟨⟨_, List.getElem?_eq_getElem hIdx, hLe _ (List.getElem_mem hIdx)⟩, ?_⟩
    rintro ⟨k, p, -, hAdjusted, hLess⟩
    exact decide_eq_true ((hLe p (List.mem_of_getElem? hAdjusted)).trans_lt hLess)

/-- Two days of two strategies. -/
theorem spaTest_invariant_dominating_pair : ∃ result stepdown best,
    spaTest realMath counting [[1, 2], [2, -1]] none 1000 1 (some 7) = .ok result ∧
      HasPValue realMath counting 1000 1 (some 7) result.pValue [[2, -1], [1, 2]] ∧
      HasPValue realMath counting 1000 1 (some 7) result.pValue [[0, 0], [1, 2], [2, -1]] ∧
      romanoWolfStepdown Real.sqrt counting [[1, 2], [2, -1]] none (1 / 20) 1000 1 (some 7) = .ok stepdown ∧
      stepdown.adjustedPvalues[result.maxStrategyIdx]? = some best ∧ result.pValue ≤ best := by
  have hRows : ∀ row ∈ [[(1 : ℝ), 2], [2, -1]], row.length = 2 := by
    simp
  have hPrepared := prepareDifferentials_none (by decide) (by decide) hRows
  have hOk : spaTest realMath counting [[1, 2], [2, -1]] none 1000 1 (some 7) = .ok _ :=
    spaTest_of_prepared (by decide) (by decide) hPrepared
  have hStepdown : romanoWolfStepdown Real.sqrt counting [[1, 2], [2, -1]] none (1 / 20) 1000 1 (some 7) = .ok _ :=
    romanoWolfStepdown_of_prepared (by norm_num) (by decide) (by decide) hPrepared
  obtain ⟨-, hPerm, -, hIdle, hDominates⟩ := spaTest_invariant_dominating counting hOk
  -- the first path is the second day twice
  have hPath : ([1, 1] : List (Fin 2)) ∈ gatePaths counting 2 1000 1 (some 7) := by
    rw [gatePaths, drawnPaths_succ]
    exact List.mem_cons.mpr (.inl (by decide +kernel))
  have hBest : 0 < (spaOf realMath counting _ 1000 1 (some 7)).maxTStat :=
    maxTStat_pos isSqrt_real (by decide) ⟨[[1, 2], [2, -1]], 2, by decide, by decide, hRows⟩ List.mem_cons_self
      (by norm_num [rowMean]) ⟨[1, 1], hPath, by norm_num [pathMean, rowMean]⟩
  obtain ⟨⟨best, hAt, hLe⟩, -⟩ := hDominates hBest _ _ hStepdown
  exact ⟨_, _, best, hOk, hPerm _ (.swap _ _ _), hIdle _ (.refl _), hStepdown, hAt, hLe⟩

end Futur3.Stats
