import Futur3.Prelude.Combinations
import Futur3.Prelude.Method
import Futur3.Prelude.Selection
import Mathlib.Algebra.BigOperators.Group.List.Basic
import Mathlib.Algebra.Field.Defs

/-! # Combinatorially symmetric cross-validation

The time axis is split into an even number of segments. For each choice of half
of them the strategy with the best metric there is ranked among all by the
metric on the other half. The probability of backtest overfitting is the share
of the choices in which it falls below the median.
-/

namespace Futur3.Cv

open Prelude

variable {K : Type}

inductive CSCVError where
  -- "need >= 2 strategies; got {n_strategies}"
  | nStrategies (nStrategies : ℕ)
  -- "n_segments must be an even integer >= 2; got {n_segments}"
  | nSegments (nSegments : ℤ)
  -- "min_obs_per_segment must be >= 1; got {min_obs_per_segment}"
  | minObsPerSegment (minObsPerSegment : ℤ)
  -- "all strategies must have the same number of observations"
  | ragged
  -- "each of the {n_segments} segments needs >= {min_obs_per_segment} obs; T={t_obs} gives ..."
  | tooFewObservations (nSegments minObsPerSegment : ℤ) (tObs segSize : ℕ)
  -- "no split produced a finite metric (check the metric and the data)"
  | noFiniteMetric
deriving DecidableEq

structure CSCVResult (K : Type) where
  pbo : K
  nStrategies : ℕ
  nObservations : ℕ
  nSegments : ℕ
  nCombinations : ℕ
  meanLogit : K
  medianLogit : K
  isOosCorrelation : K
  logits : List K

/-- `math.log` and `math.sqrt`. -/
structure MathModule (K : Type) where
  log : K → K
  sqrt : K → K

/-- A metric over a return series; none stands for a value that is not finite. -/
abbrev Metric (K : Type) := List K → Option K

variable [Field K] [LinearOrder K]

/-! ## Statistics -/

def mean (xs : List K) : K := xs.sum / xs.length

def median (xs : List K) : K :=
  let sorted := Selection.sortBy id xs
  let i := xs.length / 2
  if xs.length % 2 = 1 then sorted.getD i 0 else (sorted.getD (i - 1) 0 + sorted.getD i 0) / (2 : ℕ)

def sumOfProducts (xs ys : List K) : K := (List.zipWith (· * ·) xs ys).sum

/-- `_correlation`; a constant series has none. -/
def correlation (math : MathModule K) (xs ys : List K) : K :=
  if xs.length < 2 then 0
  else
    let dx := xs.map (· - mean xs)
    let dy := ys.map (· - mean ys)
    let scale := math.sqrt (sumOfProducts dx dx * sumOfProducts dy dy)
    if scale = 0 then 0 else sumOfProducts dx dy / scale

def stdev (math : MathModule K) (xs : List K) : K :=
  let deviations := xs.map (· - mean xs)
  math.sqrt (sumOfProducts deviations deviations / (xs.length - 1 : ℕ))

/-- `_per_period_sharpe`, the metric by default. -/
def perPeriodSharpe (math : MathModule K) (returns : List K) : K :=
  if returns.length < 2 then 0
  else if stdev math returns ≤ 0 then 0
  else mean returns / stdev math returns

/-! ## One split -/

def metricOver (metric : Metric K) (stratSegments : List (List K)) (combo : List ℕ) : Option K :=
  metric (combo.flatMap fun j => stratSegments.getD j [])

/-- The loop of `_argmax`. -/
def argmaxFrom (bestI : ℕ) (bestV : K) (i : ℕ) : List K → ℕ
  | [] => bestI
  | v :: rest => if bestV < v then argmaxFrom i v (i + 1) rest else argmaxFrom bestI bestV (i + 1) rest

def argmax : List K → ℕ
  | [] => 0
  | v :: rest => argmaxFrom 0 v 1 rest

def relativeRank (metrics : List K) (target m : ℕ) : K :=
  let targetV := metrics.getD target 0
  let below := metrics.countP (· < targetV)
  let equal := metrics.countP (· = targetV)
  (below + (equal + 1) / (2 : ℕ)) / (m + 1)

def logitEps : K := 1 / 10 ^ 9

def safeLogit (math : MathModule K) (w : K) : K :=
  let wc := min (max w logitEps) (1 - logitEps)
  math.log (wc / (1 - wc))

def oosCombo (nSegments : ℕ) (isCombo : List ℕ) : List ℕ :=
  (List.range nSegments).filter (· ∉ isCombo)

/-- The metrics of all strategies on both halves, when they are finite. -/
def splitMetrics (metric : Metric K) (nSegments : ℕ) (segments : List (List (List K)))
    (isCombo : List ℕ) : Option (List K × List K) := do
  let isMetrics ← segments.mapM fun s => metricOver metric s isCombo
  let oosMetrics ← segments.mapM fun s => metricOver metric s (oosCombo nSegments isCombo)
  return (isMetrics, oosMetrics)

def splitLogit (math : MathModule K) (metrics : List K × List K) : K :=
  safeLogit math (relativeRank metrics.2 (argmax metrics.1) metrics.1.length)

/-! ## All splits -/

/-- The slices of a row, a trailing remainder dropped. -/
def segmentsOf (segSize nSegments : ℕ) (row : List K) : List (List K) :=
  (List.range nSegments).map fun j => (row.drop (j * segSize)).take segSize

def isCombos (nSegments : ℕ) : List (List ℕ) := combinations (nSegments / 2) (List.range nSegments)

def cscvResult (math : MathModule K) (nStrategies segSize nSegments : ℕ)
    (splits : List (List K × List K)) : CSCVResult K :=
  let logits := splits.map (splitLogit math)
  { pbo := logits.countP (· < 0) / logits.length
    nStrategies
    nObservations := segSize * nSegments
    nSegments
    nCombinations := nSegments.choose (nSegments / 2)
    meanLogit := mean logits
    medianLogit := median logits
    isOosCorrelation := correlation math (splits.flatMap Prod.fst) (splits.flatMap Prod.snd)
    logits }

/-- `cscv_pbo`, with 16 segments of at least 2 observations by default. -/
def cscvPbo (math : MathModule K) (strategyReturns : List (List K)) (metric : Metric K)
    (nSegments minObsPerSegment : ℤ) : Except CSCVError (CSCVResult K) := do
  if strategyReturns.length < 2 then throw (.nStrategies strategyReturns.length)
  if nSegments < 2 ∨ nSegments % 2 ≠ 0 then throw (.nSegments nSegments)
  if minObsPerSegment < 1 then throw (.minObsPerSegment minObsPerSegment)
  let tObs := (strategyReturns.headD []).length
  if strategyReturns.any (·.length ≠ tObs) then throw .ragged
  let segSize := tObs / nSegments.toNat
  if (segSize : ℤ) < minObsPerSegment then
    throw (.tooFewObservations nSegments minObsPerSegment tObs segSize)
  let segments := strategyReturns.map (segmentsOf segSize nSegments.toNat)
  let splits := (isCombos nSegments.toNat).filterMap (splitMetrics metric nSegments.toNat segments)
  if splits.isEmpty then throw .noFiniteMetric
  pure (cscvResult math strategyReturns.length segSize nSegments.toNat splits)

end Futur3.Cv
