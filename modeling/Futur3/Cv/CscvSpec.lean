import Futur3.Cv.Cscv
import Futur3.Prelude.StableSort
import Mathlib.Analysis.SpecialFunctions.Log.Basic
import Mathlib.Data.List.GetD

/-! # Overfitting depends on ranks

With a finite metric every split counts. The winner and its rank are read off
comparisons of metrics, so a strictly increasing function of the metric changes
nothing; where the winner is the only best one, neither does the order of the
strategies.
-/

namespace Futur3.Cv

open Prelude

section Order

variable {K : Type} [LinearOrder K]

/-! ## The winner -/

theorem argmaxFrom_map {s : Set K} {g : K → K} (hg : StrictMonoOn g s) {values : List K}
    {bestV : K} (hBest : bestV ∈ s) (hValues : ∀ v ∈ values, v ∈ s) (bestI i : ℕ) :
    argmaxFrom bestI (g bestV) i (values.map g) = argmaxFrom bestI bestV i values := by
  induction values generalizing bestI bestV i with
  | nil => rfl
  | cons v rest ih =>
    obtain ⟨hv, hRest⟩ := List.forall_mem_cons.mp hValues
    rw [List.map_cons, argmaxFrom, argmaxFrom]
    simp only [hg.lt_iff_lt hBest hv]
    split_ifs
    · exact ih hv hRest i (i + 1)
    · exact ih hBest hRest bestI (i + 1)

theorem argmax_map {s : Set K} {g : K → K} (hg : StrictMonoOn g s) {values : List K}
    (hValues : ∀ v ∈ values, v ∈ s) : argmax (values.map g) = argmax values := by
  cases values with
  | nil => rfl
  | cons v rest =>
    obtain ⟨hv, hRest⟩ := List.forall_mem_cons.mp hValues
    exact argmaxFrom_map hg hv hRest 0 1

variable [Field K]

/-- The loop over the values behind the best so far. -/
theorem argmaxFrom_spec {values before rest : List K} {bestI : ℕ}
    (hSplit : values = before ++ rest) (hBest : bestI < before.length)
    (hBefore : ∀ v ∈ before, v ≤ values.getD bestI 0) :
    argmaxFrom bestI (values.getD bestI 0) before.length rest < values.length ∧
    ∀ v ∈ values,
      v ≤ values.getD (argmaxFrom bestI (values.getD bestI 0) before.length rest) 0 := by
  induction rest generalizing before bestI with
  | nil =>
    rw [List.append_nil] at hSplit
    exact ⟨hSplit ▸ hBest, fun v hv => hBefore v (hSplit ▸ hv)⟩
  | cons v rest ih =>
    have hNext : values = (before ++ [v]) ++ rest := by
      rw [hSplit, List.append_assoc, List.singleton_append]
    have hHere : values.getD before.length 0 = v := by
      rw [hSplit, List.getD_append_right _ _ _ _ le_rfl, Nat.sub_self]
      rfl
    have hLength : (before ++ [v]).length = before.length + 1 := by simp
    rw [argmaxFrom, ← hLength]
    split_ifs with hLess
    · have hBehind : ∀ u ∈ before ++ [v], u ≤ values.getD before.length 0 := by
        intro u hu
        rw [hHere]
        rcases List.mem_append.mp hu with hu | hu
        · exact (hBefore u hu).trans hLess.le
        · rw [List.mem_singleton.mp hu]
      have hStep := ih hNext (by omega) hBehind
      rwa [hHere] at hStep
    · refine ih hNext (by omega) ?_
      intro u hu
      rcases List.mem_append.mp hu with hu | hu
      · exact hBefore u hu
      · rw [List.mem_singleton.mp hu]
        exact not_lt.mp hLess

theorem argmax_spec {values : List K} (h : values ≠ []) :
    argmax values < values.length ∧ ∀ v ∈ values, v ≤ values.getD (argmax values) 0 := by
  cases values with
  | nil => exact absurd rfl h
  | cons v rest =>
    exact @argmaxFrom_spec _ _ _ (v :: rest) [v] rest 0 rfl Nat.one_pos
      (fun u hu => (List.mem_singleton.mp hu).le)

def UniqueMax (values : List K) : Prop :=
  ∃! i, i < values.length ∧ ∀ v ∈ values, v ≤ values.getD i 0

/-! ## The rank -/

theorem relativeRank_map {s : Set K} {g : K → K} (hg : StrictMonoOn g s) {metrics : List K}
    (hMetrics : ∀ v ∈ metrics, v ∈ s) {target : ℕ} (hTarget : target < metrics.length) (m : ℕ) :
    relativeRank (metrics.map g) target m = relativeRank metrics target m := by
  have hValue : (metrics.map g).getD target 0 = g (metrics.getD target 0) := by
    simp [List.getD_eq_getElem?_getD, List.getElem?_eq_getElem hTarget]
  have hMem : metrics.getD target 0 ∈ s := by
    apply hMetrics
    rw [List.getD_eq_getElem _ _ hTarget]
    exact List.getElem_mem hTarget
  have hBelow : (metrics.map g).countP (· < g (metrics.getD target 0)) =
      metrics.countP (· < metrics.getD target 0) := by
    rw [List.countP_map]
    refine List.countP_congr fun v hv => ?_
    simp only [Function.comp_apply, decide_eq_true_eq]
    exact hg.lt_iff_lt (hMetrics v hv) hMem
  have hEqual : (metrics.map g).countP (· = g (metrics.getD target 0)) =
      metrics.countP (· = metrics.getD target 0) := by
    rw [List.countP_map]
    refine List.countP_congr fun v hv => ?_
    simp only [Function.comp_apply, decide_eq_true_eq]
    exact hg.injOn.eq_iff (hMetrics v hv) hMem
  unfold relativeRank
  simp only [hValue, hBelow, hEqual]

theorem relativeRank_perm {xs ys : List K} (h : xs.Perm ys) {i j : ℕ}
    (hValue : xs.getD i 0 = ys.getD j 0) (m : ℕ) : relativeRank xs i m = relativeRank ys j m := by
  unfold relativeRank
  simp only [hValue, h.countP_eq]

variable [IsStrictOrderedRing K]

/-- A weakly best value ranks in the upper half. -/
theorem half_le_relativeRank {metrics : List K} {target : ℕ}
    (hBest : ∀ v ∈ metrics, v ≤ metrics.getD target 0) :
    1 / 2 ≤ relativeRank metrics target metrics.length := by
  have hCount := List.length_eq_countP_add_countP (· < metrics.getD target 0) (l := metrics)
  have hEqual : metrics.countP (fun v => ¬decide (v < metrics.getD target 0)) =
      metrics.countP (· = metrics.getD target 0) := by
    refine List.countP_congr fun v hv => ?_
    simp only [decide_eq_true_eq, not_lt]
    exact ⟨fun h => le_antisymm (hBest v hv) h, fun h => h.ge⟩
  rw [hEqual] at hCount
  have hNonneg : (0 : K) ≤ (metrics.countP (· < metrics.getD target 0) : ℕ) := Nat.cast_nonneg _
  have hLength : (metrics.length : K) = (metrics.countP (· < metrics.getD target 0) : ℕ) +
      (metrics.countP (· = metrics.getD target 0) : ℕ) := by
    rw [← Nat.cast_add, ← hCount]
  unfold relativeRank
  rw [div_le_div_iff₀ two_pos (by positivity), hLength]
  linarith

/-- The logit of the upper half, which the clamp leaves. -/
theorem safeLogit_nonneg {math : MathModule K} (hLog : ∀ x, 1 ≤ x → 0 ≤ math.log x) {w : K}
    (hw : 1 / 2 ≤ w) : 0 ≤ safeLogit math w := by
  have hEps : (0 : K) < logitEps := by
    unfold logitEps
    positivity
  have hSmall : (logitEps : K) ≤ 1 / 2 := by
    unfold logitEps
    norm_num
  have hLow : 1 / 2 ≤ min (max w logitEps) (1 - logitEps) :=
    le_min (hw.trans (le_max_left _ _)) (by linarith)
  have hHigh : min (max w logitEps) (1 - logitEps) < 1 := (min_le_right _ _).trans_lt (by linarith)
  apply hLog
  rw [le_div_iff₀ (by linarith)]
  linarith

end Order

/-! ## The splits -/

section Splits

variable {K : Type}

def metricOn (metric : List K → K) (segSize nSegments : ℕ) (combo : List ℕ) (row : List K) : K :=
  metric (combo.flatMap fun j => (segmentsOf segSize nSegments row).getD j [])

def halves (metric : List K → K) (segSize nSegments : ℕ) (rows : List (List K)) (combo : List ℕ) :
    List K × List K :=
  (rows.map (metricOn metric segSize nSegments combo),
    rows.map (metricOn metric segSize nSegments (oosCombo nSegments combo)))

theorem splitMetrics_total (metric : List K → K) (segSize nSegments : ℕ) (rows : List (List K))
    (combo : List ℕ) :
    splitMetrics (fun xs => some (metric xs)) nSegments (rows.map (segmentsOf segSize nSegments))
      combo = some (halves metric segSize nSegments rows combo) := by
  have hHalf : ∀ combo, (rows.map (segmentsOf segSize nSegments)).mapM
      (fun s => metricOver (fun xs => some (metric xs)) s combo) =
        some (rows.map (metricOn metric segSize nSegments combo)) := by
    intro combo
    unfold metricOver
    rw [List.mapM_map]
    exact List.mapM_pure
  unfold splitMetrics
  rw [hHalf, hHalf]
  rfl

theorem oosCombo_mem {nSegments : ℕ} (hEven : nSegments % 2 = 0) {combo : List ℕ}
    (h : combo ∈ isCombos nSegments) : oosCombo nSegments combo ∈ isCombos nSegments := by
  obtain ⟨hSub, hLength⟩ := mem_combinations.mp h
  refine mem_combinations.mpr ⟨List.filter_sublist, ?_⟩
  have hNodup : combo.Nodup := hSub.nodup List.nodup_range
  have hInside : ((List.range nSegments).filter (· ∈ combo)).Perm combo := by
    rw [List.perm_ext_iff_of_nodup (List.nodup_range.filter _) hNodup]
    intro j
    simpa using fun hj => List.mem_range.mp (hSub.subset hj)
  have hCount := List.length_eq_length_filter_add (l := List.range nSegments) (· ∈ combo)
  rw [hInside.length_eq, hLength, List.length_range] at hCount
  unfold oosCombo
  simp only [decide_not]
  omega

variable [Field K] [LinearOrder K]

structure Accepted (strategyReturns : List (List K)) (nSegments minObsPerSegment : ℤ) : Prop where
  two_le : 2 ≤ strategyReturns.length
  segments_ge : 2 ≤ nSegments
  even : nSegments % 2 = 0
  minObs_pos : 1 ≤ minObsPerSegment
  same : ∀ row ∈ strategyReturns, row.length = (strategyReturns.headD []).length
  enough : minObsPerSegment ≤ ((strategyReturns.headD []).length / nSegments.toNat : ℕ)

def totalResult (math : MathModule K) (strategyReturns : List (List K)) (metric : List K → K)
    (nSegments : ℕ) : CSCVResult K :=
  let segSize := (strategyReturns.headD []).length / nSegments
  cscvResult math strategyReturns.length segSize nSegments
    ((isCombos nSegments).map (halves metric segSize nSegments strategyReturns))

theorem isCombos_ne_nil (nSegments : ℕ) : isCombos nSegments ≠ [] := by
  rw [← List.length_pos_iff_ne_nil]
  unfold isCombos
  rw [length_combinations, List.length_range]
  exact Nat.choose_pos (Nat.div_le_self _ _)

theorem cscvPbo_ok_iff {math : MathModule K} {strategyReturns : List (List K)} {metric : List K → K}
    {nSegments minObsPerSegment : ℤ} {result : CSCVResult K} :
    cscvPbo math strategyReturns (fun xs => some (metric xs)) nSegments minObsPerSegment =
        .ok result ↔
      Accepted strategyReturns nSegments minObsPerSegment ∧
        totalResult math strategyReturns metric nSegments.toNat = result := by
  have hSplits : ∀ segSize, (isCombos nSegments.toNat).filterMap
      (splitMetrics (fun xs => some (metric xs)) nSegments.toNat
        (strategyReturns.map (segmentsOf segSize nSegments.toNat))) =
      (isCombos nSegments.toNat).map (halves metric segSize nSegments.toNat strategyReturns) := by
    intro segSize
    refine Eq.trans (List.filterMap_congr fun combo _ =>
      splitMetrics_total metric segSize nSegments.toNat strategyReturns combo) ?_
    exact congrFun List.filterMap_eq_map _
  unfold cscvPbo
  simp only [except_raise_guard_ok_iff, except_pure_ok_iff, hSplits, List.isEmpty_iff,
    List.map_eq_nil_iff, isCombos_ne_nil, not_false_eq_true, true_and]
  constructor
  · rintro ⟨hCount, hSegments, hMin, hSame, hEnough, rfl⟩
    refine ⟨⟨by omega, by omega, by omega, by omega, ?_, by omega⟩, rfl⟩
    simpa using hSame
  · rintro ⟨⟨hCount, hSegments, hEven, hMin, hSame, hEnough⟩, rfl⟩
    refine ⟨by omega, by omega, by omega, ?_, by omega, rfl⟩
    simpa using hSame

/-! ## What leaves the logits as they are -/

def SameLogits (result result' : CSCVResult K) : Prop :=
  result'.pbo = result.pbo ∧ result'.logits = result.logits

theorem sameLogits_of_splits {math : MathModule K} {strategyReturns strategyReturns' : List (List K)}
    {metric metric' : List K → K} {nSegments : ℕ}
    (h : ∀ combo ∈ isCombos nSegments,
      splitLogit math (halves metric' ((strategyReturns'.headD []).length / nSegments) nSegments
        strategyReturns' combo) =
      splitLogit math (halves metric ((strategyReturns.headD []).length / nSegments) nSegments
        strategyReturns combo)) :
    SameLogits (totalResult math strategyReturns metric nSegments)
      (totalResult math strategyReturns' metric' nSegments) := by
  have hLogits : (totalResult math strategyReturns' metric' nSegments).logits =
      (totalResult math strategyReturns metric nSegments).logits := by
    unfold totalResult cscvResult
    simp only [List.map_map]
    exact List.map_congr_left h
  refine ⟨?_, hLogits⟩
  change (_ : K) / _ = _ / _
  exact congrArg (fun logits : List K => (logits.countP (· < 0) : K) / logits.length) hLogits

/-- A strictly increasing function of the metric has the same winner at the same rank. -/
theorem splitLogit_mono (math : MathModule K) {metric : List K → K} {g : K → K}
    (hg : StrictMonoOn g (Set.range metric)) (segSize nSegments : ℕ) {rows : List (List K)}
    (hRows : rows ≠ []) (combo : List ℕ) :
    splitLogit math (halves (fun xs => g (metric xs)) segSize nSegments rows combo) =
      splitLogit math (halves metric segSize nSegments rows combo) := by
  have hMap : ∀ combo, rows.map (metricOn (fun xs => g (metric xs)) segSize nSegments combo) =
      (rows.map (metricOn metric segSize nSegments combo)).map g := by
    intro combo
    rw [List.map_map]
    rfl
  have hRange : ∀ combo, ∀ v ∈ rows.map (metricOn metric segSize nSegments combo),
      v ∈ Set.range metric := by
    intro combo v hv
    obtain ⟨row, -, rfl⟩ := List.mem_map.mp hv
    exact ⟨_, rfl⟩
  have hValues : rows.map (metricOn metric segSize nSegments combo) ≠ [] := by simpa using hRows
  have hWinner := (argmax_spec hValues).1
  unfold splitLogit halves
  simp only [hMap, argmax_map hg (hRange combo), List.length_map]
  rw [relativeRank_map hg (hRange _) (by simpa using hWinner)]

omit [LinearOrder K] in
theorem getD_map {α : Type} (f : α → K) {xs : List α} {i : ℕ} (hi : i < xs.length) :
    (xs.map f).getD i 0 = f xs[i] := by
  rw [List.getD_eq_getElem _ _ (by simpa using hi), List.getElem_map]

/-- The only best strategy is the winner in any order. -/
theorem winner_perm {α : Type} {f : α → K} {rows rows' : List α} (hPerm : rows.Perm rows')
    (hRows : rows ≠ []) (hUnique : UniqueMax (rows.map f)) :
    ∃ row, rows[argmax (rows.map f)]? = some row ∧ rows'[argmax (rows'.map f)]? = some row := by
  have hRows' : rows' ≠ [] := fun h => hRows (List.nil_perm.mp (h ▸ hPerm.symm))
  obtain ⟨hWinner, hMax⟩ := argmax_spec (show rows.map f ≠ [] by simpa using hRows)
  obtain ⟨hWinner', hMax'⟩ := argmax_spec (show rows'.map f ≠ [] by simpa using hRows')
  generalize argmax (rows.map f) = i at *
  generalize argmax (rows'.map f) = i' at *
  have hi : i < rows.length := by simpa using hWinner
  have hi' : i' < rows'.length := by simpa using hWinner'
  obtain ⟨j, hj, hRow⟩ := List.getElem_of_mem (hPerm.symm.subset (List.getElem_mem hi'))
  have hBest : ∀ v ∈ rows.map f, v ≤ (rows.map f).getD j 0 := by
    intro v hv
    rw [getD_map f hj, hRow, ← getD_map f hi']
    exact hMax' v ((hPerm.map f).subset hv)
  have hSame : j = i := hUnique.unique ⟨by simpa using hj, hBest⟩ ⟨hWinner, hMax⟩
  subst hSame
  exact ⟨rows[j], List.getElem?_eq_getElem hj, by rw [hRow, List.getElem?_eq_getElem hi']⟩

theorem splitLogit_perm (math : MathModule K) {metric : List K → K} {segSize nSegments : ℕ}
    {rows rows' : List (List K)} (hPerm : rows.Perm rows') (hRows : rows ≠ []) {combo : List ℕ}
    (hUnique : UniqueMax (halves metric segSize nSegments rows combo).1) :
    splitLogit math (halves metric segSize nSegments rows' combo) =
      splitLogit math (halves metric segSize nSegments rows combo) := by
  obtain ⟨row, hRow, hRow'⟩ := winner_perm hPerm hRows hUnique
  have hLength := hPerm.length_eq
  unfold splitLogit halves
  simp only [List.length_map, hLength]
  congr 1
  refine relativeRank_perm (hPerm.symm.map _) ?_ _
  simp [List.getD_eq_getElem?_getD, hRow, hRow']

variable [IsStrictOrderedRing K]

/-! ## A strategy that is best everywhere -/

/-- Best in-sample, alone, and at least as good as any out-of-sample. -/
def BestEverywhere (best : ℕ) (metrics : List K × List K) : Prop :=
  (best < metrics.1.length ∧ ∀ i < metrics.1.length, i ≠ best →
    metrics.1.getD i 0 < metrics.1.getD best 0) ∧
  ∀ v ∈ metrics.2, v ≤ metrics.2.getD best 0

theorem splitLogit_best {math : MathModule K} (hLog : ∀ x, 1 ≤ x → 0 ≤ math.log x)
    {metrics : List K × List K} (hLength : metrics.2.length = metrics.1.length) {best : ℕ}
    (h : BestEverywhere best metrics) : 0 ≤ splitLogit math metrics := by
  obtain ⟨⟨hBest, hAlone⟩, hOut⟩ := h
  obtain ⟨hWinner, hMax⟩ := argmax_spec (List.ne_nil_of_length_pos (Nat.zero_lt_of_lt hBest))
  have hSame : argmax metrics.1 = best := by
    by_contra hOther
    have hLess := hAlone _ hWinner hOther
    refine absurd (hMax (metrics.1.getD best 0) ?_) (not_le.mpr hLess)
    rw [List.getD_eq_getElem _ _ hBest]
    exact List.getElem_mem hBest
  unfold splitLogit
  rw [hSame, ← hLength]
  exact safeLogit_nonneg hLog (half_le_relativeRank hOut)

theorem pbo_eq_zero {math : MathModule K} (hLog : ∀ x, 1 ≤ x → 0 ≤ math.log x)
    {strategyReturns : List (List K)} {metric : List K → K} {nSegments best : ℕ}
    (h : ∀ combo ∈ isCombos nSegments, BestEverywhere best
      (halves metric ((strategyReturns.headD []).length / nSegments) nSegments strategyReturns
        combo)) :
    (totalResult math strategyReturns metric nSegments).pbo = 0 := by
  unfold totalResult cscvResult
  simp only [List.map_map]
  rw [List.countP_eq_zero.mpr, Nat.cast_zero, zero_div]
  intro lam hLam
  obtain ⟨combo, hCombo, rfl⟩ := List.mem_map.mp hLam
  have hLength : ∀ combo, (halves metric ((strategyReturns.headD []).length / nSegments) nSegments
      strategyReturns combo).2.length = (halves metric ((strategyReturns.headD []).length / nSegments)
        nSegments strategyReturns combo).1.length := by
    intro combo
    unfold halves
    simp
  simpa using splitLogit_best hLog (hLength combo) (h combo hCombo)

end Splits

/-! ## Overfitting over the reals -/

theorem Accepted.headD_length_perm {K : Type} {strategyReturns strategyReturns' : List (List K)}
    {nSegments minObsPerSegment : ℤ}
    (h : Accepted strategyReturns nSegments minObsPerSegment)
    (hPerm : strategyReturns.Perm strategyReturns') :
    (strategyReturns'.headD []).length = (strategyReturns.headD []).length := by
  have hCount := h.two_le
  rw [hPerm.length_eq] at hCount
  cases strategyReturns' with
  | nil => cases hCount
  | cons row rest => exact h.same row (hPerm.symm.subset List.mem_cons_self)

theorem Accepted.perm {K : Type} {strategyReturns strategyReturns' : List (List K)}
    {nSegments minObsPerSegment : ℤ} (h : Accepted strategyReturns nSegments minObsPerSegment)
    (hPerm : strategyReturns.Perm strategyReturns') :
    Accepted strategyReturns' nSegments minObsPerSegment where
  two_le := hPerm.length_eq ▸ h.two_le
  segments_ge := h.segments_ge
  even := h.even
  minObs_pos := h.minObs_pos
  same := by
    intro row hRow
    rw [h.headD_length_perm hPerm]
    exact h.same row (hPerm.symm.subset hRow)
  enough := by
    rw [h.headD_length_perm hPerm]
    exact h.enough

noncomputable def realMath : MathModule ℝ := ⟨Real.log, Real.sqrt⟩

def familyHalves (strategyReturns : List (List ℝ)) (metric : List ℝ → ℝ) (nSegments : ℤ)
    (combo : List ℕ) : List ℝ × List ℝ :=
  halves metric ((strategyReturns.headD []).length / nSegments.toNat) nSegments.toNat
    strategyReturns combo

/-- An accepted family with a finite metric: strictly increasing functions of the metric keep the
logits, so do permutations where the winners are alone, a strategy that is best everywhere is
not overfit, and the splits are all choices of half the segments, closed under complement. -/
theorem cscvPbo_ranks {strategyReturns : List (List ℝ)} {metric : List ℝ → ℝ}
    {nSegments minObsPerSegment : ℤ} {result : CSCVResult ℝ}
    (h : cscvPbo realMath strategyReturns (fun xs => some (metric xs)) nSegments minObsPerSegment =
      .ok result) :
    (∀ g : ℝ → ℝ, StrictMonoOn g (Set.range metric) → ∃ result',
      cscvPbo realMath strategyReturns (fun xs => some (g (metric xs))) nSegments
        minObsPerSegment = .ok result' ∧ SameLogits result result') ∧
    (∀ strategyReturns', strategyReturns.Perm strategyReturns' →
      (∀ combo ∈ isCombos nSegments.toNat,
        UniqueMax (familyHalves strategyReturns metric nSegments combo).1) → ∃ result',
      cscvPbo realMath strategyReturns' (fun xs => some (metric xs)) nSegments
        minObsPerSegment = .ok result' ∧ SameLogits result result') ∧
    (∀ best, (∀ combo ∈ isCombos nSegments.toNat,
        BestEverywhere best (familyHalves strategyReturns metric nSegments combo)) →
      result.pbo = 0) ∧
    result.logits = (isCombos nSegments.toNat).map (fun combo =>
      splitLogit realMath (familyHalves strategyReturns metric nSegments combo)) ∧
    result.logits.length = nSegments.toNat.choose (nSegments.toNat / 2) ∧
    ∀ combo ∈ isCombos nSegments.toNat,
      oosCombo nSegments.toNat combo ∈ isCombos nSegments.toNat := by
  obtain ⟨hAccepted, rfl⟩ := cscvPbo_ok_iff.mp h
  have hRows : strategyReturns ≠ [] := by
    rintro rfl
    exact absurd hAccepted.two_le (by decide)
  have hLogits : (totalResult realMath strategyReturns metric nSegments.toNat).logits =
      (isCombos nSegments.toNat).map (fun combo =>
        splitLogit realMath (familyHalves strategyReturns metric nSegments combo)) :=
    List.map_map
  refine ⟨?_, ?_, ?_, hLogits, ?_, ?_⟩
  · intro g hg
    exact ⟨_, cscvPbo_ok_iff.mpr ⟨hAccepted, rfl⟩, sameLogits_of_splits fun combo _ =>
      splitLogit_mono realMath hg _ _ hRows combo⟩
  · intro strategyReturns' hPerm hUnique
    refine ⟨_, cscvPbo_ok_iff.mpr ⟨hAccepted.perm hPerm, rfl⟩, sameLogits_of_splits ?_⟩
    intro combo hCombo
    rw [hAccepted.headD_length_perm hPerm]
    exact splitLogit_perm realMath hPerm hRows (hUnique combo hCombo)
  · intro best hBest
    exact pbo_eq_zero (fun x hx => Real.log_nonneg hx) hBest
  · rw [hLogits, List.length_map]
    unfold isCombos
    rw [length_combinations, List.length_range]
  · intro combo hCombo
    refine oosCombo_mem ?_ hCombo
    have hEven := hAccepted.even
    have hSegments := hAccepted.segments_ge
    omega

/-! ## Two strategies -/

def gainAndNone : List (List ℝ) := [[1, 1], [0, 0]]

theorem halves_gainAndNone {combo : List ℕ} (h : combo ∈ isCombos 2) :
    familyHalves gainAndNone List.sum 2 combo = ([1, 0], [1, 0]) := by
  have hCombos : isCombos 2 = [[0], [1]] := by decide
  rw [hCombos] at h
  simp only [List.mem_cons, List.not_mem_nil, or_false] at h
  rcases h with rfl | rfl <;>
    simp [familyHalves, halves, metricOn, oosCombo, segmentsOf, gainAndNone, List.range_succ]

theorem uniqueMax_one_zero : UniqueMax ([1, 0] : List ℝ) := by
  refine ⟨0, by simp, ?_⟩
  rintro i ⟨hi, hMax⟩
  have hOne := hMax 1 List.mem_cons_self
  obtain rfl | rfl : i = 0 ∨ i = 1 := Nat.le_one_iff_eq_zero_or_eq_one.mp (Nat.lt_succ_iff.mp hi)
  · rfl
  · norm_num at hOne

theorem bestEverywhere_one_zero : BestEverywhere 0 (([1, 0], [1, 0]) : List ℝ × List ℝ) := by
  refine ⟨⟨by simp, ?_⟩, by simp⟩
  intro i hi hne
  obtain rfl | rfl : i = 0 ∨ i = 1 := Nat.le_one_iff_eq_zero_or_eq_one.mp (Nat.lt_succ_iff.mp hi)
  · exact absurd rfl hne
  · norm_num

/-- The gain is never overfit, doubled or in second place. -/
theorem cscvPbo_ranks_gain :
    ∃ result doubled swapped,
      cscvPbo realMath gainAndNone (fun xs => some xs.sum) 2 1 = .ok result ∧
      cscvPbo realMath gainAndNone (fun xs => some (2 * xs.sum)) 2 1 = .ok doubled ∧
      cscvPbo realMath gainAndNone.reverse (fun xs => some xs.sum) 2 1 = .ok swapped ∧
      result.pbo = 0 ∧ result.logits.length = 2 ∧ SameLogits result doubled ∧
      SameLogits result swapped := by
  have hAccepted : Accepted gainAndNone 2 1 := by
    constructor <;> simp [gainAndNone]
  obtain ⟨result, hResult⟩ : ∃ result,
      cscvPbo realMath gainAndNone (fun xs => some xs.sum) 2 1 = .ok result :=
    ⟨_, cscvPbo_ok_iff.mpr ⟨hAccepted, rfl⟩⟩
  obtain ⟨hMono, hPerm, hBest, -, hCount, -⟩ := cscvPbo_ranks hResult
  obtain ⟨doubled, hDoubled, hSame⟩ := hMono (fun x => 2 * x)
    ((strictMono_mul_left_of_pos two_pos).strictMonoOn _)
  have hUnique : ∀ combo ∈ isCombos 2, UniqueMax (familyHalves gainAndNone List.sum 2 combo).1 := by
    intro combo hCombo
    rw [halves_gainAndNone hCombo]
    exact uniqueMax_one_zero
  obtain ⟨swapped, hSwapped, hSame'⟩ :=
    hPerm gainAndNone.reverse (List.reverse_perm _).symm hUnique
  refine ⟨result, doubled, swapped, hResult, hDoubled, hSwapped, hBest 0 ?_, hCount, hSame, hSame'⟩
  intro combo hCombo
  rw [halves_gainAndNone hCombo]
  exact bestEverywhere_one_zero

end Futur3.Cv
