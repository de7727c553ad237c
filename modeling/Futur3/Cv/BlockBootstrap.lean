import Futur3.Cv.BlockLength
import Futur3.Stats.BootstrapCi
import Futur3.Stats.MultiStrategy

/-! # Block bootstrap intervals

Runs of successive observations are resampled, so that the dependence within a block is
kept, and the bounds are percentiles of the statistic over the resamples. The length of
the blocks is given, or chosen from the autocorrelations of the data.
-/

namespace Futur3.Cv

open Prelude Execution Deviations Stats

/-- `BlockMode`; the values checked against `_VALID_MODES` are all there are. -/
inductive BlockMode where
  | stationary
  | moving
  | fixed
deriving DecidableEq

inductive BlockBootstrapError (K : Type) where
  -- "confidence must be in (0, 1); got {confidence}"
  | confidence (confidence : K)
  -- "n_resamples must be >= {_MIN_RESAMPLES}; got {n_resamples}"
  | nResamples (nResamples : ℕ)
  -- "need >= {_MIN_DATA} data points; got {n}"
  | tooFewData (n : ℕ)
  -- "block_mean must be in [1, {n}]; got {block_len}"
  | blockMean (n : ℕ) (blockLen : ℤ)
  -- `IndexError`
  | index
deriving DecidableEq

structure BlockBootstrapResult (K : Type) where
  point : Extended K
  lower : Extended K
  upper : Extended K
  confidence : K
  blockMean : ℤ
  blockMeanEstimated : Bool
  mode : BlockMode
  nResamples : ℕ
  n : ℕ
  seed : Option ℤ
  bootstrapDistribution : List (Extended K)
  reason : Option String
deriving DecidableEq

/-! ## Indices -/

section Indices

variable {γ : Type} (gen : Generator γ) (n : ℕ) [NeZero n]

/-- `while len(idx) < n: idx.extend(...)`, for so many turns. -/
def extendTo (block : γ → List (Fin n) × γ) : ℕ → List (Fin n) → γ → List (Fin n) × γ
  | 0, idx, rng => (idx, rng)
  | turns + 1, idx, rng =>
    if idx.length < n then
      let (next, rng) := block rng
      extendTo block turns (idx ++ next) rng
    else (idx, rng)

/-- `((start + j) % n for j in range(block_len))`. -/
def movingBlock (blockLen : ℕ) (start : Fin n) : List (Fin n) :=
  (List.range blockLen).map fun j => Fin.ofNat n (start + j)

def movingBlockIndices (blockLen : ℕ) (rng : γ) : List (Fin n) × γ :=
  let drawBlock := fun rng =>
    let (start, rng) := gen.randrange n rng
    (movingBlock n blockLen start, rng)
  let (idx, rng) := extendTo n drawBlock n [] rng
  (idx.take n, rng)

/-- `range(s, min(s + block_len, n))`, of the block with this number. -/
def fixedBlock (blockLen number : ℕ) : List (Fin n) :=
  (List.range' (number * blockLen) (min (number * blockLen + blockLen) n - number * blockLen)).map (Fin.ofNat n)

def fixedBlockIndices (blockLen : ℕ) (rng : γ) : List (Fin n) × γ :=
  let drawBlock := fun rng =>
    -- the length of `range(0, n, block_len)`
    let (number, rng) := gen.randrange ((n - 1) / blockLen + 1) rng
    (fixedBlock n blockLen number, rng)
  let (idx, rng) := extendTo n drawBlock n [] rng
  (idx.take n, rng)

def blockIndices (mode : BlockMode) (blockLen : ℕ) (rng : γ) : List (Fin n) × γ :=
  match mode with
  | .stationary => stationaryBootstrapIndices gen n blockLen rng
  | .moving => movingBlockIndices gen n blockLen rng
  | .fixed => fixedBlockIndices gen n blockLen rng

end Indices

/-! ## The interval -/

section Interval

variable {K : Type} [Field K] [LinearOrder K] [FloorRing K] {γ : Type}

def blockResamples (gen : Generator γ) (data : List K) [NeZero data.length] (mode : BlockMode) (blockLen : ℕ) :
    ℕ → γ → List (List K)
  | 0, _ => []
  | draws + 1, rng =>
    let (idx, rng) := blockIndices gen data.length mode blockLen rng
    idx.map data.get :: blockResamples gen data mode blockLen draws rng

/-- The rest of `block_bootstrap`, from the draws that have a value. -/
def blockInterval (result : BlockBootstrapResult K) (boot : List (Extended K)) :
    Except (BlockBootstrapError K) (BlockBootstrapResult K) :=
  if boot.length < result.nResamples / 2 then
    -- "too many degenerate resamples ({n_bad} of {n_resamples} were NaN)"
    pure { result with
           bootstrapDistribution := boot
           reason := some ("too many degenerate resamples (" ++ toString (result.nResamples - boot.length) ++
             " of " ++ toString result.nResamples ++ " were NaN)") }
  else
    let alpha := 1 - result.confidence
    let bootSorted := Extended.sorted boot
    match quantileExtended bootSorted (alpha / (2 : ℕ)), quantileExtended bootSorted (1 - alpha / (2 : ℕ)) with
    | some lower, some upper => pure { result with lower := lower, upper := upper, bootstrapDistribution := boot }
    | _, _ => throw .index

omit [Field K] [LinearOrder K] [FloorRing K] in
theorem neZero_of_minData {data : List K} (h : ¬data.length < minData) : NeZero data.length :=
  ⟨(zero_lt_two.trans_le (not_lt.mp h)).ne'⟩

def blockBootstrap (math : SelectionModule K) (gen : Generator γ) (data : List K) (statistic : List K → Extended K)
    (nResamples : ℕ) (blockMean : Option ℤ) (mode : BlockMode) (confidence : K) (seed : Option ℤ) :
    Except (BlockBootstrapError K) (BlockBootstrapResult K) :=
  if ¬(0 < confidence ∧ confidence < 1) then throw (.confidence confidence)
  else if nResamples < minResamples then throw (.nResamples nResamples)
  else
    let n := data.length
    if hData : n < minData then throw (.tooFewData n)
    else
      have : NeZero data.length := neZero_of_minData hData
      let blockLen := blockMean.getD (optimalBlockLength math data)
      if blockLen < 1 ∨ n < blockLen then throw (.blockMean n blockLen)
      else
        let point := statistic data
        let result : BlockBootstrapResult K :=
          { point := point, lower := .nan, upper := .nan, confidence := confidence, blockMean := blockLen,
            blockMeanEstimated := blockMean.isNone, mode := mode, nResamples := nResamples, n := n, seed := seed,
            bootstrapDistribution := [], reason := none }
        if !point.isFinite then
          pure { result with reason := some "point statistic is not finite (e.g. profit factor with no losses)" }
        else
          blockInterval result (((blockResamples gen data mode blockLen.toNat nResamples (gen.seeded seed)).map
            statistic).filter fun t => !t.isNan)

def BlockBootstrapResult.lowerExceeds (result : BlockBootstrapResult K) (threshold : K) : Bool :=
  result.lower.toNum.any fun lower => threshold < lower

end Interval

end Futur3.Cv
