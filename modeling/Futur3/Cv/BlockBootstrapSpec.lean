import Futur3.Cv.BlockBootstrap
import Futur3.Stats.BootstrapSpec
import Futur3.Stats.ScaleFree
import Mathlib.Analysis.SpecialFunctions.Log.Base

/-! # Resamples made of blocks

A resample is as long as the data and put together from runs of successive observations.
The length chosen for the blocks fits the data and depends on their autocorrelations
alone, so the interval moves with the units of the data.
-/

namespace Futur3.Cv

open Prelude Execution Deviations Stats

/-! ## Indices -/

section Indices

variable {γ : Type} (gen : Generator γ) {n : ℕ} [NeZero n]

omit [NeZero n] in
/-- A turn adds an index at least, so `n` turns are enough. -/
theorem extendTo_spec {α : Type} (block : γ → List (Fin n) × γ) (blockOf : α → List (Fin n)) (Valid : α → Prop)
    (hBlock : ∀ rng, (block rng).1 ≠ [] ∧ ∃ a, Valid a ∧ (block rng).1 = blockOf a) (turns : ℕ)
    (idx : List (Fin n)) (rng : γ) (hTurns : n ≤ idx.length + turns) :
    n ≤ (extendTo n block turns idx rng).1.length ∧ ∃ labels : List α, (∀ a ∈ labels, Valid a) ∧
      (extendTo n block turns idx rng).1 = idx ++ labels.flatMap blockOf := by
  induction turns generalizing idx rng with
  | zero => exact ⟨hTurns, [], by simp, by simp [extendTo]⟩
  | succ turns ih =>
    unfold extendTo
    split_ifs with hShort
    · obtain ⟨hSome, a, hValid, hDrawn⟩ := hBlock rng
      have hMore := List.length_pos_of_ne_nil hSome
      obtain ⟨hLong, labels, hLabels, hAll⟩ := ih (idx ++ (block rng).1) (block rng).2 (by
        rw [List.length_append]
        omega)
      refine ⟨hLong, a :: labels, List.forall_mem_cons.mpr ⟨hValid, hLabels⟩, ?_⟩
      rw [List.flatMap_cons, ← List.append_assoc, ← hDrawn]
      exact hAll
    · exact ⟨not_lt.mp hShort, [], by simp, by simp⟩

omit [NeZero n] in
theorem extendTo_trimmed {α : Type} (block : γ → List (Fin n) × γ) (blockOf : α → List (Fin n)) (Valid : α → Prop)
    (hBlock : ∀ rng, (block rng).1 ≠ [] ∧ ∃ a, Valid a ∧ (block rng).1 = blockOf a) (rng : γ) :
    ((extendTo n block n [] rng).1.take n).length = n ∧ ∃ labels : List α, (∀ a ∈ labels, Valid a) ∧
      (extendTo n block n [] rng).1.take n = (labels.flatMap blockOf).take n := by
  obtain ⟨hLong, labels, hLabels, hAll⟩ := extendTo_spec block blockOf Valid hBlock n [] rng (by simp)
  exact ⟨by rw [List.length_take, Nat.min_eq_left hLong], labels, hLabels, congrArg (List.take n) hAll⟩

variable (n) in
theorem movingBlockIndices_spec {blockLen : ℕ} (hBlock : 1 ≤ blockLen) (rng : γ) :
    (movingBlockIndices gen n blockLen rng).1.length = n ∧ ∃ starts : List (Fin n),
      (movingBlockIndices gen n blockLen rng).1 = (starts.flatMap (movingBlock n blockLen)).take n := by
  obtain ⟨hLength, starts, -, hAll⟩ := extendTo_trimmed
    (fun rng => (movingBlock n blockLen (gen.randrange n rng).1, (gen.randrange n rng).2))
    (movingBlock n blockLen) (fun _ => True) (fun rng => ⟨List.ne_nil_of_length_pos (by
      rw [movingBlock, List.length_map, List.length_range]
      omega), _, trivial, rfl⟩) rng
  exact ⟨hLength, starts, hAll⟩

variable (n) in
/-- The blocks are the aligned ones, each of which begins in the data. -/
theorem fixedBlockIndices_spec {blockLen : ℕ} (hBlock : 1 ≤ blockLen) (rng : γ) :
    (fixedBlockIndices gen n blockLen rng).1.length = n ∧ ∃ numbers : List ℕ,
      (∀ number ∈ numbers, number * blockLen < n) ∧
      (fixedBlockIndices gen n blockLen rng).1 = (numbers.flatMap (fixedBlock n blockLen)).take n := by
  have hPos : 0 < n := Nat.pos_of_ne_zero (NeZero.ne n)
  refine extendTo_trimmed
    (fun rng => (fixedBlock n blockLen (gen.randrange ((n - 1) / blockLen + 1) rng).1,
      (gen.randrange ((n - 1) / blockLen + 1) rng).2))
    (fixedBlock n blockLen) (fun number => number * blockLen < n) (fun rng => ?_) rng
  have hNumber : ((gen.randrange ((n - 1) / blockLen + 1) rng).1 : ℕ) * blockLen < n := by
    have hWithin := Nat.mul_le_of_le_div blockLen _ _
      (Nat.le_of_lt_succ (gen.randrange ((n - 1) / blockLen + 1) rng).1.isLt)
    omega
  refine ⟨List.ne_nil_of_length_pos ?_, _, hNumber, rfl⟩
  rw [fixedBlock, List.length_map, List.length_range']
  omega

theorem length_blockIndices (mode : BlockMode) {blockLen : ℕ} (hBlock : 1 ≤ blockLen) (rng : γ) :
    (blockIndices gen n mode blockLen rng).1.length = n := by
  have hPos : 0 < n := Nat.pos_of_ne_zero (NeZero.ne n)
  cases mode with
  | stationary =>
    simp only [blockIndices, stationaryBootstrapIndices, stationaryPath, List.length_cons, length_stationarySteps]
    omega
  | moving => exact (movingBlockIndices_spec gen n hBlock rng).1
  | fixed => exact (fixedBlockIndices_spec gen n hBlock rng).1

end Indices

/-! ## Resamples -/

section Resamples

variable {K : Type} {γ : Type} (gen : Generator γ) (data : List K) [NeZero data.length]

/-- What a scheme makes of the data: circular runs from any start, or the aligned blocks. -/
def IsResample (blockLen : ℕ) : BlockMode → List K → Prop
  | .stationary, drawn => drawn ⊆ data
  | .moving, drawn => ∃ starts : List ℕ, (∀ start ∈ starts, start < data.length) ∧
      drawn = (starts.flatMap fun start => (data.rotate start).take blockLen).take data.length
  | .fixed, drawn => ∃ numbers : List ℕ, (∀ number ∈ numbers, number * blockLen < data.length) ∧
      drawn = (numbers.flatMap fun number => (data.drop (number * blockLen)).take blockLen).take data.length

theorem map_movingBlock {blockLen : ℕ} (hBlock : blockLen ≤ data.length) (start : Fin data.length) :
    (movingBlock data.length blockLen start).map data.get = (data.rotate start).take blockLen := by
  apply List.ext_getElem
  · simp [movingBlock, hBlock]
  · intro i hLeft hRight
    simp [movingBlock, List.getElem_rotate, Fin.ofNat, Nat.add_comm]

theorem map_fixedBlock (blockLen number : ℕ) :
    (fixedBlock data.length blockLen number).map data.get = (data.drop (number * blockLen)).take blockLen := by
  apply List.ext_getElem
  · simp only [fixedBlock, List.length_map, List.length_range', List.length_take, List.length_drop]
    omega
  · intro i hLeft hRight
    simp only [fixedBlock, List.length_map, List.length_range'] at hLeft
    have hIndex : (number * blockLen + i) % data.length = number * blockLen + i := Nat.mod_eq_of_lt (by omega)
    simp [fixedBlock, Fin.ofNat, hIndex]

theorem isResample_blockIndices (mode : BlockMode) {blockLen : ℕ} (hBlock : 1 ≤ blockLen)
    (hFits : blockLen ≤ data.length) (rng : γ) :
    IsResample data blockLen mode ((blockIndices gen data.length mode blockLen rng).1.map data.get) := by
  cases mode with
  | stationary =>
    intro x hx
    obtain ⟨i, -, rfl⟩ := List.mem_map.mp hx
    exact List.get_mem data i
  | moving =>
    obtain ⟨-, starts, hAll⟩ := movingBlockIndices_spec gen data.length hBlock rng
    refine ⟨starts.map Fin.val, by simp, ?_⟩
    rw [blockIndices, hAll, List.map_take, List.map_flatMap, List.flatMap_map]
    simp only [map_movingBlock data hFits]
  | fixed =>
    obtain ⟨-, numbers, hNumbers, hAll⟩ := fixedBlockIndices_spec gen data.length hBlock rng
    refine ⟨numbers, hNumbers, ?_⟩
    rw [blockIndices, hAll, List.map_take, List.map_flatMap]
    simp only [map_fixedBlock]

theorem IsResample.subset {data} {blockLen : ℕ} {mode : BlockMode} {drawn : List K}
    (h : IsResample data blockLen mode drawn) : drawn ⊆ data := by
  cases mode with
  | stationary => exact h
  | moving =>
    obtain ⟨starts, -, rfl⟩ := h
    intro x hx
    obtain ⟨start, -, hRun⟩ := List.mem_flatMap.mp (List.mem_of_mem_take hx)
    exact List.mem_rotate.mp (List.mem_of_mem_take hRun)
  | fixed =>
    obtain ⟨numbers, -, rfl⟩ := h
    intro x hx
    obtain ⟨number, -, hRun⟩ := List.mem_flatMap.mp (List.mem_of_mem_take hx)
    exact List.mem_of_mem_drop (List.mem_of_mem_take hRun)

omit [NeZero data.length] in
/-- The one aligned block that is as long as the data. -/
theorem IsResample.eq_data {data} {drawn : List K} (hLength : drawn.length = data.length) (hSome : data ≠ [])
    (h : IsResample data data.length .fixed drawn) : drawn = data := by
  obtain ⟨numbers, hNumbers, rfl⟩ := h
  cases numbers with
  | nil =>
    rw [List.flatMap_nil, List.take_nil, List.length_nil] at hLength
    exact absurd (List.length_eq_zero_iff.mp hLength.symm) hSome
  | cons number rest =>
    have hFirst : number = 0 := by
      have hBegins := (List.forall_mem_cons.mp hNumbers).1
      by_contra hLater
      exact absurd (Nat.le_mul_of_pos_left data.length (Nat.pos_of_ne_zero hLater)) (not_le.mpr hBegins)
    rw [List.flatMap_cons, hFirst, Nat.zero_mul, List.drop_zero, List.take_length, List.take_left]

theorem blockResamples_spec (mode : BlockMode) {blockLen : ℕ} (hBlock : 1 ≤ blockLen) (hFits : blockLen ≤ data.length)
    (draws : ℕ) (rng : γ) : (blockResamples gen data mode blockLen draws rng).length = draws ∧
      ∀ drawn ∈ blockResamples gen data mode blockLen draws rng,
        drawn.length = data.length ∧ IsResample data blockLen mode drawn := by
  induction draws generalizing rng with
  | zero => exact ⟨rfl, by simp [blockResamples]⟩
  | succ draws ih =>
    obtain ⟨hLength, hEach⟩ := ih (blockIndices gen data.length mode blockLen rng).2
    refine ⟨congrArg Nat.succ hLength, List.forall_mem_cons.mpr ⟨⟨?_, ?_⟩, hEach⟩⟩
    · exact (List.length_map _).trans (length_blockIndices gen mode hBlock rng)
    · exact isResample_blockIndices gen data mode hBlock hFits rng

end Resamples

/-! ## The block length -/

section Selection

variable {K : Type} [Field K] [LinearOrder K] [IsStrictOrderedRing K] [FloorRing K] (math : SelectionModule K)

theorem optimalBlockLength_bounds {data : List K} (hData : minData ≤ data.length) :
    1 ≤ optimalBlockLength math data ∧ optimalBlockLength math data ≤ data.length := by
  have hOne : (1 : ℤ) ≤ data.length := by
    have hTwo : 2 ≤ data.length := hData
    omega
  have hThird : ⌈min ((3 : ℕ) * math.sqrt data.length) (data.length / (3 : ℕ))⌉ ≤ (data.length : ℤ) := by
    refine Int.ceil_le.mpr ((min_le_right _ _).trans ?_)
    rw [Int.cast_natCast]
    exact div_le_self (Nat.cast_nonneg _) (by norm_num)
  unfold optimalBlockLength
  dsimp only
  split_ifs
  · exact ⟨le_rfl, hOne⟩
  · exact ⟨le_rfl, hOne⟩
  · exact ⟨le_rfl, hOne⟩
  · exact ⟨le_max_left _ _, max_le hOne ((min_le_right _ _).trans hThird)⟩

def affine (a b : K) (data : List K) : List K := data.map fun x => a * x + b

omit [LinearOrder K] [IsStrictOrderedRing K] [FloorRing K] in
@[simp]
theorem length_affine (a b : K) (data : List K) : (affine a b data).length = data.length := List.length_map _

omit [LinearOrder K] [IsStrictOrderedRing K] [FloorRing K] in
theorem mean_affine [CharZero K] (a b : K) {data : List K} (hData : data ≠ []) :
    Deviations.mean (affine a b data) = a * Deviations.mean data + b := by
  have hCount : (data.length : K) ≠ 0 := Nat.cast_ne_zero.mpr (List.length_pos_of_ne_nil hData).ne'
  unfold Deviations.mean affine
  rw [List.length_map, List.sum_map_add, List.sum_map_mul_left, List.map_id', List.map_const', List.sum_replicate,
    nsmul_eq_mul]
  field_simp

omit [LinearOrder K] [IsStrictOrderedRing K] [FloorRing K] in
theorem lagCovariance_affine [CharZero K] (a b : K) (data : List K) (k : ℕ) :
    lagCovariance (affine a b data) k = a ^ 2 * lagCovariance data k := by
  rcases eq_or_ne data [] with rfl | hData
  · simp [lagCovariance, affine]
  · have hEach : ∀ x y, (a * x + b - (a * Deviations.mean data + b)) * (a * y + b - (a * Deviations.mean data + b)) =
        a ^ 2 * ((x - Deviations.mean data) * (y - Deviations.mean data)) := by
      intro x y
      ring
    have hFactor : (List.zipWith (fun x y => (x - Deviations.mean data) * (y - Deviations.mean data)) (data.drop k)
          data).map (fun z => a ^ 2 * z) =
        List.zipWith (fun x y => a ^ 2 * ((x - Deviations.mean data) * (y - Deviations.mean data)))
          (data.drop k) data := List.map_zipWith
    unfold lagCovariance
    rw [mean_affine a b hData, length_affine, affine, ← List.map_drop, List.zipWith_map]
    simp only [hEach]
    rw [← hFactor, List.sum_map_mul_left, List.map_id', mul_div_assoc]

omit [LinearOrder K] [IsStrictOrderedRing K] [FloorRing K] in
theorem getD_scaled (c : K) (gamma : List K) (k : ℕ) :
    (gamma.map fun g => c * g).getD k 0 = c * gamma.getD k 0 := by
  rw [List.getD_eq_getElem?_getD, List.getD_eq_getElem?_getD, List.getElem?_map]
  cases gamma[k]? <;> simp

omit [IsStrictOrderedRing K] [FloorRing K] in
theorem gHat_scaled (c : K) (gamma : List K) (bigM : ℕ) :
    gHat (gamma.map fun g => c * g) bigM = c * gHat gamma bigM := by
  unfold gHat
  rw [← List.sum_map_mul_left]
  refine congrArg List.sum (List.map_congr_left fun k _ => ?_)
  rw [getD_scaled, mul_left_comm]

omit [IsStrictOrderedRing K] [FloorRing K] in
theorem dInner_scaled (c : K) (gamma : List K) (bigM : ℕ) :
    dInner (gamma.map fun g => c * g) bigM = c * dInner gamma bigM := by
  unfold dInner
  rw [← List.sum_map_mul_left]
  refine congrArg List.sum (List.map_congr_left fun k _ => ?_)
  rw [getD_scaled, mul_left_comm]

/-- The autocorrelations are those of the data, and the two sums scale together. -/
theorem optimalBlockLength_affine {a : K} (ha : a ≠ 0) (b : K) (data : List K) :
    optimalBlockLength math (affine a b data) = optimalBlockLength math data := by
  have hSquare : 0 < a ^ 2 := by positivity
  have hGamma : ∀ maxLag, autocovariances (affine a b data) maxLag =
      (autocovariances data maxLag).map fun g => a ^ 2 * g := by
    intro maxLag
    rw [autocovariances, autocovariances, List.map_map]
    exact List.map_congr_left fun k _ => lagCovariance_affine a b data k
  have hRho : ∀ (gamma : List K) (g0 : K), (gamma.map fun g => a ^ 2 * g).map (fun g => g / (a ^ 2 * g0)) =
      gamma.map fun g => g / g0 := by
    intro gamma g0
    rw [List.map_map]
    exact List.map_congr_left fun g _ => mul_div_mul_left g g0 hSquare.ne'
  have hSign : ∀ {c : K}, 0 < c → ∀ x, c * x ≤ 0 ↔ x ≤ 0 := by
    intro c hc x
    rw [← not_lt, mul_pos_iff_of_pos_left hc, not_lt]
  have hDenominator : ∀ x : K, (2 : ℕ) * (a ^ 2 * x) ^ 2 = (a ^ 2) ^ 2 * ((2 : ℕ) * x ^ 2) := by
    intro x
    ring
  unfold optimalBlockLength
  simp only [length_affine, hGamma, getD_scaled, hRho, hSign hSquare, gHat_scaled, dInner_scaled, hDenominator,
    hSign (pow_pos hSquare 2), mul_div_mul_left _ _ (pow_pos hSquare 2).ne']

end Selection

/-! ## The interval -/

section Interval

variable {K : Type} [Field K] [LinearOrder K] [FloorRing K] {γ : Type} {math : SelectionModule K}
  {gen : Generator γ} {data : List K} {statistic : List K → Extended K} {nResamples : ℕ} {blockMean : Option ℤ}
  {mode : BlockMode} {confidence : K} {seed : Option ℤ}

def blockDraws (gen : Generator γ) (data : List K) [NeZero data.length] (statistic : List K → Extended K)
    (mode : BlockMode) (blockLen : ℤ) (nResamples : ℕ) (seed : Option ℤ) : List (Extended K) :=
  ((blockResamples gen data mode blockLen.toNat nResamples (gen.seeded seed)).map statistic).filter
    fun t => !t.isNan

structure BootstrapAccepted (data : List K) (nResamples : ℕ) (blockMean : Option ℤ) (confidence : K) : Prop where
  confidence : 0 < confidence ∧ confidence < 1
  resamples : minResamples ≤ nResamples
  observations : minData ≤ data.length
  block : ∀ blockLen ∈ blockMean, 1 ≤ blockLen ∧ blockLen ≤ data.length

omit [FloorRing K] in
theorem BootstrapAccepted.neZero (h : BootstrapAccepted data nResamples blockMean confidence) : NeZero data.length :=
  ⟨(zero_lt_two.trans_le h.observations).ne'⟩

variable [IsStrictOrderedRing K]

theorem BootstrapAccepted.blockLen (h : BootstrapAccepted data nResamples blockMean confidence)
    (math : SelectionModule K) :
    1 ≤ blockMean.getD (optimalBlockLength math data) ∧
      blockMean.getD (optimalBlockLength math data) ≤ data.length := by
  cases blockMean with
  | none => exact optimalBlockLength_bounds math h.observations
  | some blockLen => exact h.block blockLen rfl

def pointResult (math : SelectionModule K) (data : List K) (statistic : List K → Extended K) (nResamples : ℕ)
    (blockMean : Option ℤ) (mode : BlockMode) (confidence : K) (seed : Option ℤ) : BlockBootstrapResult K :=
  { point := statistic data, lower := .nan, upper := .nan, confidence := confidence,
    blockMean := blockMean.getD (optimalBlockLength math data), blockMeanEstimated := blockMean.isNone, mode := mode,
    nResamples := nResamples, n := data.length, seed := seed, bootstrapDistribution := [], reason := none }

theorem blockBootstrap_of_accepted [NeZero data.length] (h : BootstrapAccepted data nResamples blockMean confidence) :
    blockBootstrap math gen data statistic nResamples blockMean mode confidence seed =
      if !(statistic data).isFinite then
        .ok { pointResult math data statistic nResamples blockMean mode confidence seed with
              reason := some "point statistic is not finite (e.g. profit factor with no losses)" }
      else
        blockInterval (pointResult math data statistic nResamples blockMean mode confidence seed)
          (blockDraws gen data statistic mode (blockMean.getD (optimalBlockLength math data)) nResamples seed) := by
  obtain ⟨hLow, hHigh⟩ := h.blockLen math
  unfold blockBootstrap
  dsimp only
  rw [if_neg (not_not.mpr h.confidence), if_neg (not_lt.mpr h.resamples), dif_neg (not_lt.mpr h.observations),
    if_neg (not_or.mpr ⟨not_lt.mpr hLow, not_lt.mpr hHigh⟩)]
  rfl

def refusal (n nResamples : ℕ) (blockLen : ℤ) (confidence : K) : BlockBootstrapError K :=
  if ¬(0 < confidence ∧ confidence < 1) then .confidence confidence
  else if nResamples < minResamples then .nResamples nResamples
  else if n < minData then .tooFewData n
  else .blockMean n blockLen

omit [IsStrictOrderedRing K] in
theorem blockBootstrap_of_refused (h : ¬BootstrapAccepted data nResamples blockMean confidence) :
    blockBootstrap math gen data statistic nResamples blockMean mode confidence seed =
      .error (refusal data.length nResamples (blockMean.getD (optimalBlockLength math data)) confidence) := by
  unfold blockBootstrap refusal
  dsimp only
  by_cases hConfidence : ¬(0 < confidence ∧ confidence < 1)
  · rw [if_pos hConfidence, if_pos hConfidence]
    rfl
  rw [if_neg hConfidence, if_neg hConfidence]
  by_cases hResamples : nResamples < minResamples
  · rw [if_pos hResamples, if_pos hResamples]
    rfl
  rw [if_neg hResamples, if_neg hResamples]
  by_cases hData : data.length < minData
  · rw [dif_pos hData, if_pos hData]
    rfl
  rw [dif_neg hData, if_neg hData]
  have hBlock : blockMean.getD (optimalBlockLength math data) < 1 ∨
      (data.length : ℤ) < blockMean.getD (optimalBlockLength math data) := by
    by_contra hFits
    push Not at hFits
    refine h ⟨not_not.mp hConfidence, not_lt.mp hResamples, not_lt.mp hData, fun blockLen hGiven => ?_⟩
    rw [Option.mem_def.mp hGiven] at hFits
    exact hFits
  rw [if_pos hBlock]
  rfl

omit [IsStrictOrderedRing K] in
theorem accepted_of_ok {result : BlockBootstrapResult K}
    (h : blockBootstrap math gen data statistic nResamples blockMean mode confidence seed = .ok result) :
    BootstrapAccepted data nResamples blockMean confidence := by
  by_contra hRefused
  rw [blockBootstrap_of_refused hRefused] at h
  cases h

theorem blockInterval_ok {result : BlockBootstrapResult K} {boot : List (Extended K)}
    (hConfidence : 0 < result.confidence ∧ result.confidence < 1) (hResamples : minResamples ≤ result.nResamples) :
    ∃ interval, blockInterval result boot = .ok interval := by
  unfold blockInterval
  split_ifs with hFew
  · exact ⟨_, rfl⟩
  · obtain ⟨hPos, hHalf⟩ := half_alpha hConfidence
    have hSome : 500 ≤ result.nResamples / 2 := (Nat.le_div_iff_mul_le two_pos).mpr hResamples
    have hSorted : Extended.sorted boot ≠ [] := by
      refine List.ne_nil_of_length_pos ?_
      rw [(Extended.sorted_perm boot).length_eq]
      omega
    obtain ⟨lower, hLower⟩ := exists_quantileExtended hSorted hPos.le (by linarith)
    obtain ⟨upper, hUpper⟩ := exists_quantileExtended hSorted
      (show 0 ≤ 1 - (1 - result.confidence) / (2 : ℕ) by linarith) (by linarith)
    dsimp only
    rw [hLower, hUpper]
    exact ⟨_, rfl⟩

/-- The chosen length never fails the check, and no quantile fails. -/
theorem blockBootstrap_ok_iff :
    (∃ result, blockBootstrap math gen data statistic nResamples blockMean mode confidence seed = .ok result) ↔
      BootstrapAccepted data nResamples blockMean confidence := by
  refine ⟨fun ⟨result, h⟩ => accepted_of_ok h, fun h => ?_⟩
  have := h.neZero
  rw [blockBootstrap_of_accepted h]
  split_ifs
  · exact ⟨_, rfl⟩
  · exact blockInterval_ok h.confidence h.resamples

theorem ok_cases {result : BlockBootstrapResult K}
    (h : blockBootstrap math gen data statistic nResamples blockMean mode confidence seed = .ok result) :
    result.point = statistic data ∧ result.blockMean = blockMean.getD (optimalBlockLength math data) ∧
      (result.point.isFinite = false ∧ result.bootstrapDistribution = [] ∨
        ∃ _ : NeZero data.length, result.point.isFinite = true ∧
          result.bootstrapDistribution = blockDraws gen data statistic mode result.blockMean nResamples seed) := by
  have hAccepted := accepted_of_ok h
  have := hAccepted.neZero
  rw [blockBootstrap_of_accepted hAccepted] at h
  split_ifs at h with hFinite
  · cases h
    exact ⟨rfl, rfl, .inl ⟨by simpa [pointResult] using hFinite, rfl⟩⟩
  · unfold blockInterval at h
    dsimp only at h
    have hPoint : (statistic data).isFinite = true := by simpa using hFinite
    split_ifs at h with hFew
    · cases h
      exact ⟨rfl, rfl, .inr ⟨this, hPoint, rfl⟩⟩
    · split at h
      · cases h
        exact ⟨rfl, rfl, .inr ⟨this, hPoint, rfl⟩⟩
      · cases h

/-- Where every resample has a number, the bounds are quantiles of these numbers. -/
theorem blockBootstrap_of_num {result : BlockBootstrapResult K}
    (h : blockBootstrap math gen data statistic nResamples blockMean mode confidence seed = .ok result)
    {point : K} (hPoint : statistic data = .num point) {values : List K} (hCount : values.length = nResamples)
    (hDraws : ∀ _ : NeZero data.length, blockDraws gen data statistic mode
      (blockMean.getD (optimalBlockLength math data)) nResamples seed = values.map .num) :
    result.bootstrapDistribution = values.map .num ∧
      result.lower = .num (sampleQuantile values ((1 - confidence) / 2)) ∧
      result.upper = .num (sampleQuantile values (1 - (1 - confidence) / 2)) := by
  have hAccepted := accepted_of_ok h
  have := hAccepted.neZero
  have hMany : 1000 ≤ values.length := hCount ▸ hAccepted.resamples
  obtain ⟨hPos, hHalf⟩ := half_alpha hAccepted.confidence
  have hSorted : ∀ p : K, 0 ≤ p → p ≤ 1 →
      quantileExtended ((values.insertionSort (· ≤ ·)).map .num) p = some (.num (sampleQuantile values p)) :=
    fun p => quantileExtended_num (by rw [List.length_insertionSort]; omega)
  rw [blockBootstrap_of_accepted hAccepted, hDraws, hPoint, if_neg (by simp [Extended.isFinite]), blockInterval,
    if_neg (by
      rw [List.length_map, hCount]
      exact not_lt.mpr (Nat.div_le_self _ _))] at h
  dsimp only [pointResult] at h
  rw [Extended.sorted_num, hSorted _ hPos.le (by linarith), hSorted _ (by linarith) (by linarith)] at h
  cases h
  rw [Nat.cast_ofNat]
  exact ⟨rfl, rfl, rfl⟩

omit [Field K] [LinearOrder K] [FloorRing K] [IsStrictOrderedRing K] in
variable (gen nResamples seed) in
/-- The numbers of the resamples, where every resample has one. -/
theorem blockDraws_num [NeZero data.length] {blockLen : ℤ} (hBlock : 1 ≤ blockLen) (hFits : blockLen ≤ data.length)
    (Good : K → Prop) (hGood : ∀ drawn, drawn.length = data.length → IsResample data blockLen.toNat mode drawn →
      ∃ v, statistic drawn = .num v ∧ Good v) :
    ∃ values : List K, values.length = nResamples ∧ (∀ v ∈ values, Good v) ∧
      blockDraws gen data statistic mode blockLen nResamples seed = values.map .num := by
  obtain ⟨hLength, hEach⟩ := blockResamples_spec gen data mode (show 1 ≤ blockLen.toNat by omega) (by omega)
    nResamples (gen.seeded seed)
  unfold blockDraws
  generalize blockResamples gen data mode blockLen.toNat nResamples (gen.seeded seed) = draws at hLength hEach ⊢
  induction draws generalizing nResamples with
  | nil => exact ⟨[], hLength, by simp, rfl⟩
  | cons drawn rest ih =>
    obtain ⟨hFirst, hRest⟩ := List.forall_mem_cons.mp hEach
    have hOthers : rest.length = nResamples - 1 := by
      rw [← hLength]
      rfl
    obtain ⟨values, hCount, hValues, hAll⟩ := ih (nResamples - 1) hOthers hRest
    obtain ⟨v, hv, hIs⟩ := hGood drawn hFirst.1 hFirst.2
    refine ⟨v :: values, ?_, List.forall_mem_cons.mpr ⟨hIs, hValues⟩, ?_⟩
    · rw [List.length_cons, hCount, ← hLength, List.length_cons, Nat.add_sub_cancel]
    · rw [List.map_cons, hv, List.filter_cons_of_pos rfl, hAll, List.map_cons]

end Interval

/-! ## Units -/

section Units

variable {K : Type} [Field K] [LinearOrder K] [IsStrictOrderedRing K] [FloorRing K] {γ : Type}
  {math : SelectionModule K} {gen : Generator γ} {data : List K} {statistic : List K → Extended K}
  {nResamples : ℕ} {blockMean : Option ℤ} {mode : BlockMode} {confidence : K} {seed : Option ℤ} {a b : K}

def affineFloat (a b : K) : Extended K → Extended K
  | .num x => .num (a * x + b)
  | other => other

omit [LinearOrder K] [IsStrictOrderedRing K] [FloorRing K] in
theorem isNan_affineFloat (x : Extended K) : (affineFloat a b x).isNan = x.isNan := by
  cases x <;> rfl

omit [LinearOrder K] [IsStrictOrderedRing K] [FloorRing K] in
theorem isFinite_affineFloat (x : Extended K) : (affineFloat a b x).isFinite = x.isFinite := by
  cases x <;> rfl

omit [FloorRing K] in
theorem sorted_affineFloat (ha : 0 < a) (xs : List (Extended K)) :
    Extended.sorted (xs.map (affineFloat a b)) = (Extended.sorted xs).map (affineFloat a b) := by
  refine (List.map_insertionSort _ _ _ xs ?_).symm
  intro x _ y _
  cases x <;> cases y <;> simp [affineFloat, Extended.le, ha]

omit [IsStrictOrderedRing K] in
theorem quantileExtended_affineFloat (xs : List (Extended K)) (p : K) :
    quantileExtended (xs.map (affineFloat a b)) p = (quantileExtended xs p).map (affineFloat a b) := by
  have hBetween : ∀ (lo hi : Extended K) (frac : K),
      (affineFloat a b lo).add (((affineFloat a b hi).sub (affineFloat a b lo)).scale frac) =
        affineFloat a b (lo.add ((hi.sub lo).scale frac)) := by
    intro lo hi frac
    cases lo <;> cases hi <;> simp only [affineFloat, Extended.sub, Extended.neg, Extended.add, Extended.scale]
    case num.num lo hi =>
      congr 1
      ring
    all_goals split_ifs <;> rfl
  unfold quantileExtended
  dsimp only
  rw [List.length_map]
  split_ifs
  · rw [List.getElem?_map]
  · rw [List.getElem?_map, List.getElem?_map]
    cases xs[⌊((xs.length : K) - 1) * p⌋.toNat]? with
    | none => rfl
    | some atLo =>
      cases xs[(min (⌊((xs.length : K) - 1) * p⌋ + 1) ((xs.length : ℤ) - 1)).toNat]? with
      | none => rfl
      | some atHi => exact congrArg some (hBetween atLo atHi _)

omit [FloorRing K] in
theorem blockIndices_cast {m n : ℕ} [NeZero m] [NeZero n] (h : m = n) (blockLen : ℕ) (rng : γ) :
    blockIndices gen m mode blockLen rng = ((blockIndices gen n mode blockLen rng).1.map (Fin.cast h.symm),
      (blockIndices gen n mode blockLen rng).2) := by
  subst h
  simp

omit [LinearOrder K] [IsStrictOrderedRing K] [FloorRing K] in
theorem blockResamples_affine [NeZero data.length] [NeZero (affine a b data).length] (blockLen draws : ℕ) (rng : γ) :
    blockResamples gen (affine a b data) mode blockLen draws rng =
      (blockResamples gen data mode blockLen draws rng).map (affine a b) := by
  induction draws generalizing rng with
  | zero => rfl
  | succ draws ih =>
    unfold blockResamples
    rw [blockIndices_cast (length_affine a b data)]
    dsimp only
    have hUnits : affine a b ((blockIndices gen data.length mode blockLen rng).1.map data.get) =
        (blockIndices gen data.length mode blockLen rng).1.map fun i => a * data.get i + b := List.map_map
    rw [ih, List.map_cons, List.map_map, hUnits]
    exact congrArg (· :: _) (List.map_congr_left fun i _ => List.getElem_map fun x => a * x + b)

omit [LinearOrder K] [IsStrictOrderedRing K] [FloorRing K] in
theorem blockDraws_affine [NeZero data.length] [NeZero (affine a b data).length]
    (hStatistic : ∀ xs, xs.length = data.length → statistic (affine a b xs) = affineFloat a b (statistic xs))
    {blockLen : ℤ} (hBlock : 1 ≤ blockLen) (hFits : blockLen ≤ data.length) :
    blockDraws gen (affine a b data) statistic mode blockLen nResamples seed =
      (blockDraws gen data statistic mode blockLen nResamples seed).map (affineFloat a b) := by
  obtain ⟨-, hEach⟩ := blockResamples_spec gen data mode (show 1 ≤ blockLen.toNat by omega) (by omega) nResamples
    (gen.seeded seed)
  have hDrawn : ((blockResamples gen data mode blockLen.toNat nResamples (gen.seeded seed)).map (affine a b)).map
      statistic = ((blockResamples gen data mode blockLen.toNat nResamples (gen.seeded seed)).map statistic).map
        (affineFloat a b) := by
    rw [List.map_map, List.map_map]
    exact List.map_congr_left fun drawn hDrawn => hStatistic drawn (hEach drawn hDrawn).1
  unfold blockDraws
  rw [blockResamples_affine, hDrawn, List.filter_map]
  exact congrArg (List.map _) (List.filter_congr fun t _ => congrArg not (isNan_affineFloat t))

def BlockBootstrapResult.inUnits (a b : K) (result : BlockBootstrapResult K) : BlockBootstrapResult K :=
  { result with
    point := affineFloat a b result.point
    lower := affineFloat a b result.lower
    upper := affineFloat a b result.upper
    bootstrapDistribution := result.bootstrapDistribution.map (affineFloat a b) }

theorem blockInterval_inUnits (ha : 0 < a) (result : BlockBootstrapResult K) (boot : List (Extended K)) :
    blockInterval (result.inUnits a b) (boot.map (affineFloat a b)) =
      (blockInterval result boot).map (BlockBootstrapResult.inUnits a b) := by
  have hCount : (result.inUnits a b).nResamples = result.nResamples := rfl
  have hConfidence : (result.inUnits a b).confidence = result.confidence := rfl
  unfold blockInterval
  dsimp only
  rw [hCount, hConfidence, List.length_map, sorted_affineFloat ha, quantileExtended_affineFloat,
    quantileExtended_affineFloat]
  by_cases hFew : boot.length < result.nResamples / 2
  · rw [if_pos hFew, if_pos hFew]
    rfl
  · rw [if_neg hFew, if_neg hFew]
    cases quantileExtended (Extended.sorted boot) ((1 - result.confidence) / (2 : ℕ)) <;>
      cases quantileExtended (Extended.sorted boot) (1 - (1 - result.confidence) / (2 : ℕ)) <;> rfl

/-- The data in other units give the interval in these units, also where the length of the blocks is chosen. -/
theorem blockBootstrap_units (ha : 0 < a) (b : K)
    (hStatistic : ∀ xs, xs.length = data.length → statistic (affine a b xs) = affineFloat a b (statistic xs)) :
    blockBootstrap math gen (affine a b data) statistic nResamples blockMean mode confidence seed =
      (blockBootstrap math gen data statistic nResamples blockMean mode confidence seed).map
        (BlockBootstrapResult.inUnits a b) := by
  by_cases hAccepted : BootstrapAccepted data nResamples blockMean confidence
  · have hMoved : BootstrapAccepted (affine a b data) nResamples blockMean confidence :=
      { hAccepted with
        observations := (length_affine a b data).symm ▸ hAccepted.observations
        block := (length_affine a b data).symm ▸ hAccepted.block }
    have := hAccepted.neZero
    have := hMoved.neZero
    obtain ⟨hLow, hHigh⟩ := hAccepted.blockLen math
    rw [blockBootstrap_of_accepted hMoved, blockBootstrap_of_accepted hAccepted, hStatistic data rfl,
      isFinite_affineFloat, optimalBlockLength_affine math ha.ne', blockDraws_affine hStatistic hLow hHigh]
    have hPoint : pointResult math (affine a b data) statistic nResamples blockMean mode confidence seed =
        (pointResult math data statistic nResamples blockMean mode confidence seed).inUnits a b := by
      simp only [pointResult, hStatistic data rfl, optimalBlockLength_affine math ha.ne', length_affine]
      rfl
    rw [hPoint, blockInterval_inUnits ha]
    split_ifs
    · rfl
    · rfl
  · have hRefused : ¬BootstrapAccepted (affine a b data) nResamples blockMean confidence := fun hMoved => hAccepted
      { hMoved with
        observations := length_affine a b data ▸ hMoved.observations
        block := length_affine a b data ▸ hMoved.block }
    rw [blockBootstrap_of_refused hRefused, blockBootstrap_of_refused hAccepted, length_affine,
      optimalBlockLength_affine math ha.ne']
    rfl

/-- From fractions to percent. -/
theorem blockBootstrap_units_percent :
    blockBootstrap realSelection counting (affine (100 : ℝ) 0 [0, 1]) (fun xs => .num (Deviations.mean xs)) 1000 none
        .stationary (19 / 20) (some 7) =
      (blockBootstrap realSelection counting [0, 1] (fun xs => .num (Deviations.mean xs)) 1000 none .stationary
        (19 / 20) (some 7)).map (BlockBootstrapResult.inUnits 100 0) :=
  blockBootstrap_units (by norm_num) 0 fun xs hLength =>
    congrArg Extended.num (mean_affine 100 0 (List.ne_nil_of_length_pos (by rw [hLength]; exact two_pos)))

end Units

/-! ## Of real numbers -/

section Results

variable {γ : Type} {math : SelectionModule ℝ} {gen : Generator γ} {data : List ℝ} {statistic : List ℝ → Extended ℝ}
  {nResamples : ℕ} {blockMean : Option ℤ} {mode : BlockMode} {confidence : ℝ} {seed : Option ℤ}

/-- Only the checks of the arguments fail: a length that is chosen passes its own check. -/
theorem blockBootstrap_total (math : SelectionModule ℝ) (gen : Generator γ) (data : List ℝ)
    (statistic : List ℝ → Extended ℝ) (nResamples : ℕ) (blockMean : Option ℤ) (mode : BlockMode) (confidence : ℝ)
    (seed : Option ℤ) :
    (∃ result, blockBootstrap math gen data statistic nResamples blockMean mode confidence seed = .ok result) ↔
      BootstrapAccepted data nResamples blockMean confidence :=
  blockBootstrap_ok_iff

/-- The distribution is that of the statistic over resamples that are made of blocks. -/
theorem blockBootstrap_draws {result : BlockBootstrapResult ℝ}
    (h : blockBootstrap math gen data statistic nResamples blockMean mode confidence seed = .ok result) :
    (1 ≤ result.blockMean ∧ result.blockMean ≤ data.length) ∧ ((statistic data).isFinite = true →
      ∃ draws : List (List ℝ), draws.length = nResamples ∧
        (∀ drawn ∈ draws, drawn.length = data.length ∧ IsResample data result.blockMean.toNat mode drawn) ∧
        result.bootstrapDistribution = (draws.map statistic).filter fun t => !t.isNan) := by
  have hBlock := (accepted_of_ok h).blockLen math
  obtain ⟨hPoint, hMean, hCases⟩ := ok_cases h
  refine ⟨hMean ▸ hBlock, fun hFinite => ?_⟩
  rcases hCases with ⟨hUndefined, -⟩ | ⟨_, -, hDraws⟩
  · rw [hPoint, hFinite] at hUndefined
    cases hUndefined
  · obtain ⟨hLength, hEach⟩ := blockResamples_spec gen data mode (show 1 ≤ result.blockMean.toNat by omega)
      (by omega) nResamples (gen.seeded seed)
    exact ⟨_, hLength, hEach, hDraws⟩

/-- The days from zero to one, in blocks of two. -/
theorem blockBootstrap_draws_mean : ∃ (result : BlockBootstrapResult ℝ) (draws : List (List ℝ)),
    blockBootstrap realSelection counting [0, 1, 1] (fun xs => .num (Deviations.mean xs)) 1000 (some 2) .moving
      (19 / 20) (some 7) = .ok result ∧ draws.length = 1000 ∧
      ∀ drawn ∈ draws, drawn.length = 3 ∧ IsResample [0, 1, 1] result.blockMean.toNat .moving drawn := by
  obtain ⟨result, hOk⟩ : ∃ result, blockBootstrap realSelection counting [0, 1, 1] (fun xs => .num (Deviations.mean xs))
      1000 (some 2) .moving (19 / 20) (some 7) = .ok result :=
    blockBootstrap_ok_iff.mpr ⟨by norm_num, le_rfl, by simp [minData], by simp⟩
  obtain ⟨draws, hLength, hEach, -⟩ := (blockBootstrap_draws hOk).2 rfl
  exact ⟨result, draws, hOk, hLength, hEach⟩

/-- An interval of more confidence contains the other, and both lie among the values of the statistic. -/
theorem blockBootstrap_nested {wide : ℝ} {result resultWide : BlockBootstrapResult ℝ}
    (h : blockBootstrap math gen data statistic nResamples blockMean mode confidence seed = .ok result)
    (hWide : blockBootstrap math gen data statistic nResamples blockMean mode wide seed = .ok resultWide)
    (hLe : confidence ≤ wide) (a b : ℝ)
    (hWithin : ∀ drawn, drawn.length = data.length → IsResample data result.blockMean.toNat mode drawn →
      ∃ v, statistic drawn = .num v ∧ a ≤ v ∧ v ≤ b) {point : ℝ} (hPoint : statistic data = .num point) :
    ∃ lower upper lowerWide upperWide : ℝ, result.lower = .num lower ∧ result.upper = .num upper ∧
      resultWide.lower = .num lowerWide ∧ resultWide.upper = .num upperWide ∧
      result.bootstrapDistribution = resultWide.bootstrapDistribution ∧
      a ≤ lowerWide ∧ lowerWide ≤ lower ∧ lower ≤ upper ∧ upper ≤ upperWide ∧ upperWide ≤ b := by
  have hAccepted := accepted_of_ok h
  have := hAccepted.neZero
  obtain ⟨hLow, hHigh⟩ := hAccepted.blockLen math
  rw [(ok_cases h).2.1] at hWithin
  obtain ⟨values, hCount, hValues, hDraws⟩ := blockDraws_num gen nResamples seed hLow hHigh _ hWithin
  obtain ⟨hAll, hLower, hUpper⟩ := blockBootstrap_of_num h hPoint hCount fun _ => hDraws
  obtain ⟨hAllWide, hLowerWide, hUpperWide⟩ := blockBootstrap_of_num hWide hPoint hCount fun _ => hDraws
  have hTwo : 2 ≤ values.length := by
    have hMany : 1000 ≤ values.length := hCount ▸ hAccepted.resamples
    omega
  obtain ⟨least, greatest, hLeast, hGreatest, hBounds⟩ := sampleQuantile_bounds hTwo
  obtain ⟨hPos, hHalf⟩ := half_alpha hAccepted.confidence
  obtain ⟨hPosWide, -⟩ := half_alpha (accepted_of_ok hWide).confidence
  rw [Nat.cast_ofNat] at hPos hHalf hPosWide
  refine ⟨_, _, _, _, hLower, hUpper, hLowerWide, hUpperWide, hAll.trans hAllWide.symm, ?_, ?_, ?_, ?_, ?_⟩
  · exact (hValues least hLeast.1).1.trans (hBounds _ hPosWide.le (by linarith)).1
  · exact sampleQuantile_mono hTwo hPosWide.le (by linarith) (by linarith)
  · exact sampleQuantile_mono hTwo hPos.le (by linarith) (by linarith)
  · exact sampleQuantile_mono hTwo (by linarith) (by linarith) (by linarith)
  · exact (hBounds _ (by linarith) (by linarith)).2.trans (hValues greatest hGreatest.1).2

/-- Half and nineteen in twenty, of the mean of two days. -/
theorem blockBootstrap_nested_mean : ∃ (result : BlockBootstrapResult ℝ) (lower upper lowerWide upperWide : ℝ),
    blockBootstrap realSelection counting [0, 1] (fun xs => .num (Deviations.mean xs)) 1000 none .stationary (1 / 2)
      (some 7) = .ok result ∧ result.lower = .num lower ∧ result.upper = .num upper ∧
      0 ≤ lowerWide ∧ lowerWide ≤ lower ∧ lower ≤ upper ∧ upper ≤ upperWide ∧ upperWide ≤ 1 := by
  have hOk : ∀ confidence : ℝ, 0 < confidence ∧ confidence < 1 → ∃ result, blockBootstrap realSelection counting
      [0, 1] (fun xs => .num (Deviations.mean xs)) 1000 none .stationary confidence (some 7) = .ok result :=
    fun confidence hConfidence => blockBootstrap_ok_iff.mpr ⟨hConfidence, le_rfl, le_rfl, by simp⟩
  obtain ⟨result, h⟩ := hOk (1 / 2) (by norm_num)
  obtain ⟨resultWide, hWide⟩ := hOk (19 / 20) (by norm_num)
  obtain ⟨lower, upper, lowerWide, upperWide, hLower, hUpper, -, -, -, hOrder⟩ :=
    blockBootstrap_nested h hWide (by norm_num) 0 1 (fun drawn hLength hDrawn => by
      obtain ⟨u, v, rfl⟩ := List.length_eq_two.mp hLength
      have hu : u = 0 ∨ u = 1 := by simpa using hDrawn List.mem_cons_self
      have hv : v = 0 ∨ v = 1 := by simpa using hDrawn (List.mem_cons_of_mem u List.mem_cons_self)
      refine ⟨_, rfl, ?_⟩
      rcases hu with rfl | rfl <;> rcases hv with rfl | rfl <;> norm_num [Deviations.mean]) rfl
  exact ⟨result, lower, upper, lowerWide, upperWide, h, hLower, hUpper, hOrder⟩

/-- Aligned blocks as long as the data give the point back. -/
theorem blockBootstrap_whole {result : BlockBootstrapResult ℝ}
    (h : blockBootstrap math gen data statistic nResamples (some data.length) .fixed confidence seed = .ok result)
    {point : ℝ} (hPoint : statistic data = .num point) :
    result.lower = .num point ∧ result.upper = .num point ∧
      result.bootstrapDistribution = List.replicate nResamples (.num point) := by
  have hAccepted := accepted_of_ok h
  have := hAccepted.neZero
  obtain ⟨hLow, hHigh⟩ := hAccepted.blockLen math
  have hNil : data ≠ [] := List.ne_nil_of_length_pos (Nat.pos_of_ne_zero this.ne)
  have hEvery : ∀ drawn : List ℝ, drawn.length = data.length → IsResample data (data.length : ℤ).toNat .fixed drawn →
      ∃ v, statistic drawn = .num v ∧ v = point := fun drawn hLength hFixed =>
    ⟨point, hFixed.eq_data hLength hNil ▸ hPoint, rfl⟩
  obtain ⟨values, hCount, hValues, hDraws⟩ := blockDraws_num gen nResamples seed hLow hHigh _ hEvery
  obtain ⟨hAll, hLower, hUpper⟩ := blockBootstrap_of_num h hPoint hCount fun _ => hDraws
  have hTwo : 2 ≤ values.length := by
    have hMany : 1000 ≤ values.length := hCount ▸ hAccepted.resamples
    omega
  obtain ⟨least, greatest, hLeast, hGreatest, hBounds⟩ := sampleQuantile_bounds hTwo
  obtain rfl := hValues least hLeast.1
  obtain rfl := hValues greatest hGreatest.1
  have hConstant : ∀ p, 0 ≤ p → p ≤ 1 → sampleQuantile values p = greatest := fun p hFrom hTo =>
    le_antisymm (hBounds p hFrom hTo).2 (hBounds p hFrom hTo).1
  obtain ⟨hPos, hHalf⟩ := half_alpha hAccepted.confidence
  rw [Nat.cast_ofNat] at hPos hHalf
  rw [hConstant _ hPos.le (by linarith)] at hLower
  rw [hConstant _ (by linarith) (by linarith)] at hUpper
  refine ⟨hLower, hUpper, hAll.trans ?_⟩
  rw [List.eq_replicate_iff.mpr ⟨hCount, hValues⟩, List.map_replicate]

theorem blockBootstrap_whole_mean : ∃ result : BlockBootstrapResult ℝ,
    blockBootstrap realSelection counting [0, 1] (fun xs => .num (Deviations.mean xs)) 1000 (some 2) .fixed (19 / 20)
      (some 7) = .ok result ∧ result.lower = .num (Deviations.mean [0, 1]) ∧
      result.upper = .num (Deviations.mean [0, 1]) := by
  obtain ⟨result, hOk⟩ : ∃ result, blockBootstrap realSelection counting [0, 1] (fun xs => .num (Deviations.mean xs))
      1000 (some 2) .fixed (19 / 20) (some 7) = .ok result :=
    blockBootstrap_ok_iff.mpr ⟨by norm_num, le_rfl, le_rfl, by simp⟩
  obtain ⟨hLower, hUpper, -⟩ := blockBootstrap_whole hOk rfl
  exact ⟨result, hOk, hLower, hUpper⟩

end Results

end Futur3.Cv
