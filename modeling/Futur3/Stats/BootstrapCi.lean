import Futur3.Execution.Survival
import Futur3.Prelude.ExtendedFloat
import Futur3.Stats.SharpeCore

/-! # Bias-corrected and accelerated bootstrap intervals

The bounds are quantiles of the resampled statistic, at probabilities corrected for its
median bias and for the skewness that the jackknife estimates. A resample without a value
is dropped; an infinite one is kept.
-/

namespace Futur3.Stats

open Prelude Execution Deviations

inductive BCaError (K : Type) where
  -- "confidence must be in (0, 1); got {confidence}"
  | confidence (confidence : K)
  -- "n_resamples must be >= {_MIN_RESAMPLES}; got {n_resamples}"
  | nResamples (nResamples : ℕ)
  -- "need >= {_MIN_DATA} data points; got {n}"
  | tooFewData (n : ℕ)
  | statistics (error : StatisticsError)
  -- `IndexError`
  | index
deriving DecidableEq

structure BCaResult (K : Type) where
  point : Extended K
  lower : Extended K
  upper : Extended K
  z0 : Extended K
  accel : Extended K
  confidence : K
  nResamples : ℕ
  n : ℕ
  seed : Option ℤ
  reason : Option String
deriving DecidableEq

def minData : ℕ := 2

def minResamples : ℕ := 1000

section Resamples

variable {γ : Type} (gen : Generator γ) {K : Type} (data : List K) [NeZero data.length]

/-- `[x[rng.randrange(n)] for _ in range(n)]`, with the items still to be drawn. -/
def resample : ℕ → γ → List K × γ
  | 0, rng => ([], rng)
  | items + 1, rng =>
    let (i, rng) := gen.randrange data.length rng
    let (rest, rng) := resample items rng
    (data.get i :: rest, rng)

def resamples : ℕ → γ → List (List K)
  | 0, _ => []
  | draws + 1, rng =>
    let (drawn, rng) := resample gen data data.length rng
    drawn :: resamples draws rng

end Resamples

variable {K : Type} [Field K] [LinearOrder K]

def pfLowerThreshold : K := 1

def denomFloor : K := 1 / (10 : ℕ) ^ 12

def BCaResult.lowerExceeds (result : BCaResult K) (threshold : K) : Bool :=
  result.lower.toNum.any fun lower => threshold < lower

def profitFactor (returns : List K) : Extended K :=
  let gains := (returns.filter fun r => 0 < r).sum
  let losses := ((returns.filter fun r => r < 0).map fun r => -r).sum
  if losses = 0 then if 0 < gains then .posInf else .nan else .num (gains / losses)

def undefinedInterval (point : Extended K) (confidence : K) (nResamples n : ℕ) (seed : Option ℤ)
    (reason : String) : BCaResult K :=
  { point := point, lower := .nan, upper := .nan, z0 := .nan, accel := .nan, confidence := confidence,
    nResamples := nResamples, n := n, seed := seed, reason := some reason }

/-- The bias correction, before the quantile: the share of draws below the point. -/
def biasShare (boot : List (Extended K)) (point : K) : K :=
  let nBoot : K := boot.length
  let nLess := boot.countP fun t => t.lt (.num point)
  let nEq := boot.countP fun t => t = .num point
  let prop := (nLess + 1 / (2 : ℕ) * nEq) / nBoot
  min (max prop (1 / (2 : ℕ) / nBoot)) (1 - 1 / (2 : ℕ) / nBoot)

/-- The acceleration from the leave-one-out values, if all are finite. -/
def acceleration (pow : K → K → K) (jack : List (Extended K)) : K :=
  match jack.mapM Extended.toNum with
  | some values =>
    let jBar := mean values
    let diffs := values.map fun j => jBar - j
    let denom := (diffs.map fun d => d * d).sum
    if 0 < denom then
      (diffs.map fun d => d ^ 3).sum / ((6 : ℕ) * pow denom ((3 : ℕ) / (2 : ℕ)))
    else 0
  | none => 0

def adjusted (normal : NormalDist K) (z0 accel zQ : K) : K :=
  let denom := 1 - accel * (z0 + zQ)
  let denom := if |denom| < denomFloor then if denom < 0 then -denomFloor else denomFloor else denom
  normal.cdf (z0 + (z0 + zQ) / denom)

variable [FloorRing K]

def quantileExtended (sortedVals : List (Extended K)) (p : K) : Option (Extended K) :=
  let n := sortedVals.length
  if n = 1 then sortedVals[0]?
  else do
    let h := ((n : K) - 1) * p
    let lo := ⌊h⌋
    let hi := min (lo + 1) ((n : ℤ) - 1)
    let frac := h - lo
    let atLo ← sortedVals[lo.toNat]?
    let atHi ← sortedVals[hi.toNat]?
    return atLo.add ((atHi.sub atLo).scale frac)

/-- The rest of `bca_bootstrap`, from the draws that have a value. -/
def bcaInterval (math : StatsModule K) (boot jack : List (Extended K)) (point confidence : K) (nResamples n : ℕ)
    (seed : Option ℤ) : Except (BCaError K) (BCaResult K) := do
  let z0 ← (math.normal.invCdf (biasShare boot point)).mapError .statistics
  let accel := acceleration math.pow jack
  let alpha := 1 - confidence
  let bootSorted := Extended.sorted boot
  let zLo ← (math.normal.invCdf (alpha / (2 : ℕ))).mapError .statistics
  let lower ← (quantileExtended bootSorted (adjusted math.normal z0 accel zLo)).elim (throw .index) pure
  let zHi ← (math.normal.invCdf (1 - alpha / (2 : ℕ))).mapError .statistics
  let upper ← (quantileExtended bootSorted (adjusted math.normal z0 accel zHi)).elim (throw .index) pure
  return { point := .num point, lower := lower, upper := upper, z0 := .num z0, accel := .num accel,
           confidence := confidence, nResamples := nResamples, n := n, seed := seed, reason := none }

def bcaBootstrap {γ : Type} (math : StatsModule K) (gen : Generator γ) (data : List K)
    (statistic : List K → Extended K) (nResamples : ℕ) (confidence : K) (seed : Option ℤ) :
    Except (BCaError K) (BCaResult K) :=
  if ¬(0 < confidence ∧ confidence < 1) then throw (.confidence confidence)
  else if nResamples < minResamples then throw (.nResamples nResamples)
  else
    let n := data.length
    if hData : n < minData then throw (.tooFewData n)
    else
      have : NeZero data.length := ⟨(zero_lt_two.trans_le (not_lt.mp hData)).ne'⟩
      match statistic data with
      | .num point =>
        let boot := ((resamples gen data nResamples (gen.seeded seed)).map statistic).filter fun t => !t.isNan
        if boot.length < nResamples / 2 then
          -- "too many degenerate resamples ({n_bad} of {n_resamples} were NaN)"
          pure (undefinedInterval (.num point) confidence nResamples n seed ("too many degenerate resamples (" ++
            toString (nResamples - boot.length) ++ " of " ++ toString nResamples ++ " were NaN)"))
        else
          let jack := (List.range n).map fun i => statistic (data.take i ++ data.drop (i + 1))
          bcaInterval math boot jack point confidence nResamples n seed
      | point =>
        pure (undefinedInterval point confidence nResamples n seed
          "point statistic is not finite (e.g. profit factor with no losses)")

end Futur3.Stats
