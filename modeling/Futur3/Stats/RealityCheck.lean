import Futur3.Stats.SpaDominance

/-! # White's reality check

The best mean differential is compared with the best recentered one of each bootstrap
draw. The p-value reads the family as a set, so order and copies do not matter, and a
strategy no better than the best of the family can only raise it.
-/

namespace Futur3.Stats

open Prelude Execution Deviations

inductive RealityCheckFailure where
  -- "n_bootstrap must be >= {_MIN_BOOTSTRAP}; got {n_bootstrap}"
  | nBootstrap (nBootstrap : ℕ)
  -- "block_length must be >= 1; got {block_length}"
  | blockLength (blockLength : ℤ)
  | multiStrategy (error : MultiStrategyError)
deriving DecidableEq

structure RealityCheckResult (K : Type) where
  pValue : K
  maxStrategyIdx : ℕ
  maxDifferential : K
  nStrategies : ℕ
  nObs : ℕ
  blockLength : ℤ
  nBootstrap : ℕ
  seed : Option ℤ
deriving DecidableEq

section Test

variable {K : Type} [Field K] [LinearOrder K]

def wrcAlpha : K := (5 : ℕ) / (100 : ℕ)

def RealityCheckResult.rejectNullAt (result : RealityCheckResult K) (alpha : K) : Bool := result.pValue < alpha

def RealityCheckResult.significant (result : RealityCheckResult K) : Bool := result.rejectNullAt wrcAlpha

/-- `max(values)`. -/
def maxOf {n : ℕ} [NeZero n] (values : Fin n → K) : K := values (maxIdx values)

def realityCheckOf {γ : Type} (sqrt : K → K) (gen : Generator γ) (x : Differentials K) (nBootstrap : ℕ)
    (blockLength : ℤ) (seed : Option ℤ) : RealityCheckResult K :=
  have := x.neZero
  have := x.neZeroStrategies
  let dbar := fun k : Fin x.nStrategies => x.dbar.getD k 0
  let rootT := sqrt x.nObs
  let observed := rootT * maxOf dbar
  let maxIdx := maxIdx dbar
  let dstar := bootstrapDifferentialMeans gen x.d x.nObs nBootstrap blockLength seed
  let count := dstar.countP fun row =>
    observed ≤ maxOf fun k : Fin x.nStrategies => rootT * (row.getD k 0 - dbar k)
  { pValue := (count + 1) / (nBootstrap + 1), maxStrategyIdx := maxIdx, maxDifferential := dbar maxIdx,
    nStrategies := x.nStrategies, nObs := x.nObs, blockLength := blockLength, nBootstrap := nBootstrap,
    seed := seed }

def realityCheck {γ : Type} (sqrt : K → K) (gen : Generator γ) (strategyReturns : List (List K))
    (benchReturns : Option (List K)) (nBootstrap : ℕ) (blockLength : ℤ) (seed : Option ℤ) :
    Except RealityCheckFailure (RealityCheckResult K) :=
  if nBootstrap < minBootstrap then throw (.nBootstrap nBootstrap)
  else if blockLength < 1 then throw (.blockLength blockLength)
  else do
    let x ← (prepareDifferentials strategyReturns benchReturns).mapError .multiStrategy
    return realityCheckOf sqrt gen x nBootstrap blockLength seed

end Test

/-! ## Families against a benchmark -/

section Families

variable {K : Type} [Field K]

def differential (bench : Option (List K)) (n : ℕ) (s : List K) : List K :=
  List.zipWith (· - ·) s (bench.getD (List.replicate n 0))

/-- What `prepare_differentials` accepts. -/
structure Family (strategies : List (List K)) (bench : Option (List K)) (n : ℕ) : Prop where
  enough : minStrategies ≤ strategies.length
  observed : minObs ≤ n
  rows : ∀ s ∈ strategies, s.length = n
  benchRow : ∀ b ∈ bench, b.length = n

variable {strategies : List (List K)} {bench : Option (List K)} {n : ℕ}

theorem Family.bench_length (h : Family strategies bench n) : (bench.getD (List.replicate n 0)).length = n := by
  cases hBench : bench with
  | none => exact List.length_replicate
  | some b => exact h.benchRow b hBench

omit [Field K] in
theorem Family.nObs (h : Family strategies bench n) : (strategies.headD []).length = n := by
  cases strategies with
  | nil => nomatch h.enough
  | cons s rest => exact h.rows s List.mem_cons_self

theorem Family.prepared (h : Family strategies bench n) : ∃ x, prepareDifferentials strategies bench = .ok x ∧
    x.nObs = n ∧ x.d = strategies.map (differential bench n) := by
  obtain rfl := h.nObs
  have hRagged : ¬∃ s ∈ strategies, s.length ≠ (strategies.headD []).length := by
    push Not
    exact h.rows
  unfold prepareDifferentials
  dsimp only
  rw [dif_neg (not_lt.mpr h.enough), dif_neg (not_lt.mpr h.observed), dif_neg hRagged,
    dif_neg (not_not.mpr h.bench_length)]
  exact ⟨_, rfl, rfl, rfl⟩

theorem family_of_prepared {x : Differentials K} (h : prepareDifferentials strategies bench = .ok x) :
    Family strategies bench x.nObs ∧ x.d = strategies.map (differential bench x.nObs) := by
  unfold prepareDifferentials at h
  dsimp only at h
  split_ifs at h with hStrategies hObs hRagged hBench
  cases h
  push Not at hRagged
  refine ⟨⟨not_lt.mp hStrategies, not_lt.mp hObs, hRagged, ?_⟩, rfl⟩
  rintro b ⟨rfl⟩
  exact not_not.mp hBench

end Families

/-! ## The p-value -/

section Share

variable {K : Type} [Field K] [LinearOrder K]

omit [Field K] in
theorem le_maxOf_iff {n : ℕ} [NeZero n] {values : Fin n → K} {c : K} : c ≤ maxOf values ↔ ∃ k, c ≤ values k :=
  ⟨fun h => ⟨_, h⟩, fun ⟨k, h⟩ => h.trans (le_maxIdx values k)⟩

/-- Some strategy's draw is above its mean by the best mean of all. -/
def Reaches {nObs : ℕ} (rootT : K) (rows : List (List K)) (idx : List (Fin nObs)) : Prop :=
  ∃ row ∈ rows, ∀ best ∈ rows, rootT * rowMean nObs best ≤ rootT * (pathMean row idx - rowMean nObs row)

instance {nObs : ℕ} (rootT : K) (rows : List (List K)) (idx : List (Fin nObs)) : Decidable (Reaches rootT rows idx) :=
  inferInstanceAs (Decidable (∃ row ∈ rows, ∀ best ∈ rows, _ ≤ _))

def wrcShare {nObs : ℕ} (rootT : K) (paths : List (List (Fin nObs))) (nBootstrap : ℕ) (rows : List (List K)) : K :=
  ((paths.countP fun idx => Reaches rootT rows idx) + 1) / (nBootstrap + 1)

variable [IsStrictOrderedRing K] {nObs : ℕ} {rootT : K} {paths : List (List (Fin nObs))} {nBootstrap : ℕ}
  {rows rows' : List (List K)}

/-- The best mean is at most a value when every mean is. -/
theorem reaches_iff (hRoot : 0 ≤ rootT) [NeZero rows.length] (idx : List (Fin nObs)) :
    (∃ k : Fin rows.length, rootT * maxOf (fun k : Fin rows.length => rowMean nObs (rows.get k)) ≤
      rootT * (pathMean (rows.get k) idx - rowMean nObs (rows.get k))) ↔ Reaches rootT rows idx := by
  constructor
  · rintro ⟨k, hReach⟩
    refine ⟨_, List.get_mem rows k, fun best hBest => ?_⟩
    obtain ⟨j, rfl⟩ := List.get_of_mem hBest
    exact (mul_le_mul_of_nonneg_left (le_maxOf_iff.mpr ⟨j, le_rfl⟩) hRoot).trans hReach
  · rintro ⟨row, hRow, hReach⟩
    obtain ⟨k, rfl⟩ := List.get_of_mem hRow
    exact ⟨k, hReach _ (List.get_mem rows _)⟩

/-- A greater family whose new strategies have no greater means is reached by more draws. -/
theorem Reaches.padded (hRoot : 0 ≤ rootT) (hSub : rows ⊆ rows')
    (hBelow : ∀ row' ∈ rows', ∃ row ∈ rows, rowMean nObs row' ≤ rowMean nObs row) {idx : List (Fin nObs)}
    (h : Reaches rootT rows idx) : Reaches rootT rows' idx := by
  obtain ⟨row, hRow, hReach⟩ := h
  refine ⟨row, hSub hRow, fun best hBest => ?_⟩
  obtain ⟨better, hBetter, hMean⟩ := hBelow best hBest
  exact (mul_le_mul_of_nonneg_left hMean hRoot).trans (hReach better hBetter)

theorem wrcShare_padded (hRoot : 0 ≤ rootT) (hSub : rows ⊆ rows')
    (hBelow : ∀ row' ∈ rows', ∃ row ∈ rows, rowMean nObs row' ≤ rowMean nObs row) :
    wrcShare rootT paths nBootstrap rows ≤ wrcShare rootT paths nBootstrap rows' := by
  apply div_le_div_of_nonneg_right _ (add_nonneg (Nat.cast_nonneg _) zero_le_one)
  refine add_le_add_left (Nat.cast_le.mpr (List.countP_mono_left fun idx _ hReach => ?_)) 1
  exact decide_eq_true ((of_decide_eq_true hReach).padded hRoot hSub hBelow)

theorem wrcShare_scaled {c : K} (hc : 0 < c) :
    wrcShare rootT paths nBootstrap (rows.map fun row => row.map fun r => c * r) =
      wrcShare rootT paths nBootstrap rows := by
  have hReach : ∀ idx : List (Fin nObs),
      Reaches rootT (rows.map fun row => row.map fun r => c * r) idx ↔ Reaches rootT rows idx := by
    intro idx
    have hEach : ∀ row best : List K, rootT * (c * rowMean nObs best) ≤
        rootT * (c * pathMean row idx - c * rowMean nObs row) ↔
          rootT * rowMean nObs best ≤ rootT * (pathMean row idx - rowMean nObs row) := by
      intro row best
      rw [← mul_sub, mul_left_comm, mul_left_comm rootT c, mul_le_mul_iff_right₀ hc]
    simp only [Reaches, List.mem_map, exists_exists_and_eq_and, forall_exists_index, and_imp, forall_apply_eq_imp_iff₂,
      pathMean_scaled, rowMean_scaled, hEach]
  simp only [wrcShare, hReach]

end Share

section Link

variable {K : Type} [Field K] [LinearOrder K] [IsStrictOrderedRing K] {γ : Type}

theorem realityCheckOf_pValue {sqrt : K → K} (hSqrt : IsSqrt sqrt) (gen : Generator γ) (x : Differentials K)
    (nBootstrap : ℕ) (blockLength : ℤ) (seed : Option ℤ) :
    have := x.neZero
    (realityCheckOf sqrt gen x nBootstrap blockLength seed).pValue =
      wrcShare (sqrt x.nObs) (gatePaths gen x.nObs nBootstrap blockLength seed) nBootstrap x.d := by
  have := x.neZero
  have := x.neZeroStrategies
  have hDbar : x.dbar = x.d.map (rowMean x.nObs) := rfl
  have hRoot : 0 ≤ sqrt (x.nObs : K) := hSqrt.nonneg _ (Nat.cast_nonneg _)
  unfold realityCheckOf wrcShare
  simp only [dstar_eq, hDbar, getD_map_get, List.countP_map, Function.comp_def]
  congr 3
  apply List.countP_congr
  intro idx _
  rw [decide_eq_true_iff, decide_eq_true_iff, le_maxOf_iff]
  exact reaches_iff hRoot idx

omit [LinearOrder K] [IsStrictOrderedRing K] in
theorem Family.scaled {strategies : List (List K)} {bench : Option (List K)} {n : ℕ}
    (h : Family strategies bench n) (c : K) :
    Family (strategies.map fun s => s.map fun r => c * r) (bench.map fun b => b.map fun r => c * r) n where
  enough := by
    rw [List.length_map]
    exact h.enough
  observed := h.observed
  rows := by
    rw [List.forall_mem_map]
    intro s hs
    rw [List.length_map, h.rows s hs]
  benchRow := by
    intro _ hScaled
    obtain ⟨b, hb, rfl⟩ := Option.map_eq_some_iff.mp hScaled
    rw [List.length_map, h.benchRow b hb]

variable {sqrt : K → K} (gen : Generator γ) {strategies : List (List K)} {bench : Option (List K)}
  {nBootstrap : ℕ} {blockLength : ℤ} (seed : Option ℤ) {result : RealityCheckResult K}

variable {gen seed} in
omit [IsStrictOrderedRing K] in
theorem realityCheck_ok (h : realityCheck sqrt gen strategies bench nBootstrap blockLength seed = .ok result) :
    minBootstrap ≤ nBootstrap ∧ 1 ≤ blockLength ∧ Family strategies bench result.nObs := by
  unfold realityCheck at h
  split_ifs at h with hBootstrap hBlock
  obtain ⟨x, hPrepared, h⟩ := except_bind_ok_iff.mp h
  cases h
  exact ⟨not_lt.mp hBootstrap, not_lt.mp hBlock, (family_of_prepared (mapError_ok_iff.mp hPrepared)).1⟩

theorem realityCheck_of_family (hSqrt : IsSqrt sqrt) (hBootstrap : minBootstrap ≤ nBootstrap)
    (hBlock : 1 ≤ blockLength) {n : ℕ} [NeZero n] (hFamily : Family strategies bench n) :
    ∃ result, realityCheck sqrt gen strategies bench nBootstrap blockLength seed = .ok result ∧
      result.pValue = wrcShare (sqrt n) (gatePaths gen n nBootstrap blockLength seed) nBootstrap
        (strategies.map (differential bench n)) := by
  obtain ⟨x, hPrepared, rfl, hRows⟩ := hFamily.prepared
  refine ⟨realityCheckOf sqrt gen x nBootstrap blockLength seed, ?_, ?_⟩
  · unfold realityCheck
    rw [if_neg (not_lt.mpr hBootstrap), if_neg (not_lt.mpr hBlock), hPrepared]
    rfl
  · rw [realityCheckOf_pValue hSqrt, hRows]

omit [LinearOrder K] [IsStrictOrderedRing K] in
theorem differential_scaled (c : K) (bench : Option (List K)) (n : ℕ) (s : List K) :
    differential (bench.map fun b => b.map fun r => c * r) n (s.map fun r => c * r) =
      (differential bench n s).map fun r => c * r := by
  have hBench : (bench.map fun b => b.map fun r => c * r).getD (List.replicate n 0) =
      (bench.getD (List.replicate n 0)).map fun r => c * r := by
    cases bench <;> simp
  rw [differential, differential, hBench, List.zipWith_map, List.map_zipWith]
  simp only [mul_sub]

omit [LinearOrder K] [IsStrictOrderedRing K] in
theorem differentials_scaled (c : K) (bench : Option (List K)) (n : ℕ) (strategies : List (List K)) :
    (strategies.map fun s => s.map fun r => c * r).map
        (differential (bench.map fun b => b.map fun r => c * r) n) =
      (strategies.map (differential bench n)).map fun row => row.map fun r => c * r := by
  rw [List.map_map, List.map_map]
  exact List.map_congr_left fun s _ => differential_scaled c bench n s

omit [LinearOrder K] [IsStrictOrderedRing K] in
theorem sum_differential {n : ℕ} {s : List K} (h : s.length = (bench.getD (List.replicate n 0)).length) :
    (differential bench n s).sum = s.sum - (bench.getD (List.replicate n 0)).sum := by
  rw [differential]
  generalize bench.getD (List.replicate n 0) = b at h ⊢
  induction s generalizing b with
  | nil =>
    obtain rfl := List.length_eq_zero_iff.mp h.symm
    simp
  | cons x rest ih =>
    obtain ⟨y, b, rfl⟩ := List.exists_cons_of_length_eq_add_one h.symm
    have hRest := ih b (Nat.succ.inj h)
    simp only [List.zipWith_cons_cons, List.sum_cons, hRest]
    ring

end Link

/-- The p-value is that of the family as a set, whatever the unit of the returns; more strategies that are
no better than the best can only raise it. -/
theorem realityCheck_padded {γ : Type} {gen : Generator γ} {strategies : List (List ℝ)} {bench : Option (List ℝ)}
    {nBootstrap : ℕ} {blockLength : ℤ} {seed : Option ℤ} {result : RealityCheckResult ℝ}
    (h : realityCheck Real.sqrt gen strategies bench nBootstrap blockLength seed = .ok result) :
    (∀ family, strategies ⊆ family →
      (∀ s ∈ family, s.length = result.nObs ∧ ∃ best ∈ strategies, s.sum ≤ best.sum) →
      ∃ result', realityCheck Real.sqrt gen family bench nBootstrap blockLength seed = .ok result' ∧
        result.pValue ≤ result'.pValue ∧ (family ⊆ strategies → result'.pValue = result.pValue)) ∧
    ∀ c : ℝ, 0 < c → ∃ result',
      realityCheck Real.sqrt gen (strategies.map fun s => s.map fun r => c * r)
        (bench.map fun b => b.map fun r => c * r) nBootstrap blockLength seed = .ok result' ∧
      result'.pValue = result.pValue := by
  obtain ⟨hBootstrap, hBlock, hFamily⟩ := realityCheck_ok h
  have : NeZero result.nObs := ⟨(zero_lt_two.trans_le hFamily.observed).ne'⟩
  obtain ⟨_, hSame, hPValue⟩ := realityCheck_of_family gen seed isSqrt_real hBootstrap hBlock hFamily
  obtain rfl := Except.ok.inj (h.symm.trans hSame)
  have hRoot : 0 ≤ Real.sqrt result.nObs := Real.sqrt_nonneg _
  rw [hPValue]
  constructor
  · intro family hSub hBelow
    have hFamily' : Family family bench result.nObs :=
      ⟨List.length_pos_of_mem (hSub (List.getElem_mem hFamily.enough)), hFamily.observed,
        fun s hs => (hBelow s hs).1, hFamily.benchRow⟩
    obtain ⟨result', hOk', hPValue'⟩ := realityCheck_of_family gen seed isSqrt_real hBootstrap hBlock hFamily'
    have hSum : ∀ s ∈ family, rowMean result.nObs (differential bench result.nObs s) =
        (s.sum - (bench.getD (List.replicate result.nObs 0)).sum) / result.nObs := by
      intro s hs
      rw [rowMean, sum_differential ((hBelow s hs).1.trans hFamily.bench_length.symm)]
    have hMeans : ∀ row' ∈ family.map (differential bench result.nObs),
        ∃ row ∈ strategies.map (differential bench result.nObs),
          rowMean result.nObs row' ≤ rowMean result.nObs row := by
      rw [List.forall_mem_map]
      intro s hs
      obtain ⟨best, hBest, hLe⟩ := (hBelow s hs).2
      refine ⟨_, List.mem_map_of_mem hBest, ?_⟩
      rw [hSum s hs, hSum best (hSub hBest)]
      exact div_le_div_of_nonneg_right (sub_le_sub_right hLe _) (Nat.cast_nonneg _)
    have hSubset := List.map_subset (differential bench result.nObs) hSub
    refine ⟨result', hOk', hPValue' ▸ wrcShare_padded hRoot hSubset hMeans, fun hBack => ?_⟩
    rw [hPValue']
    refine le_antisymm (wrcShare_padded hRoot (List.map_subset _ hBack) fun row hRow => ?_)
      (wrcShare_padded hRoot hSubset hMeans)
    exact ⟨row, hSubset hRow, le_rfl⟩
  · intro c hc
    have hScaled : Family (strategies.map fun s => s.map fun r => c * r) (bench.map fun b => b.map fun r => c * r)
        result.nObs := hFamily.scaled c
    obtain ⟨result', hOk', hPValue'⟩ := realityCheck_of_family gen seed isSqrt_real hBootstrap hBlock hScaled
    refine ⟨result', hOk', ?_⟩
    rw [hPValue', differentials_scaled, wrcShare_scaled hc]

/-- A strategy that earns is checked with a second one that loses. -/
theorem realityCheck_padded_pair : ∃ result result',
    realityCheck Real.sqrt counting [[1, 2]] none 1000 1 (some 7) = .ok result ∧
      realityCheck Real.sqrt counting [[1, 2], [-5, 4]] none 1000 1 (some 7) = .ok result' ∧
      result.pValue ≤ result'.pValue := by
  have hFamily : Family [[(1 : ℝ), 2]] none 2 := ⟨by decide, by decide, by simp, by simp⟩
  have : NeZero 2 := ⟨two_ne_zero⟩
  obtain ⟨result, hOk, -⟩ := realityCheck_of_family counting (some 7) isSqrt_real (show minBootstrap ≤ 1000 by decide)
    (show (1 : ℤ) ≤ 1 by decide) hFamily
  have hObs : result.nObs = 2 := by
    have hSame := (realityCheck_ok hOk).2.2.nObs
    simpa using hSame.symm
  obtain ⟨result', hOk', hLe, -⟩ := (realityCheck_padded hOk).1 [[1, 2], [-5, 4]] (by simp) (by
    rw [hObs]
    norm_num)
  exact ⟨result, result', hOk, hOk', hLe⟩

end Futur3.Stats
