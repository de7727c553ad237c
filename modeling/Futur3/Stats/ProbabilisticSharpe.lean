import Futur3.Stats.SharpeCore

/-! # The probabilistic and the deflated Sharpe ratio

The probability that the true ratio of a strategy exceeds a benchmark, and the same with
the expected best ratio of all the trials as the benchmark. A trial that failed has no
Sharpe ratio and is dropped.
-/

namespace Futur3.Stats

open Prelude Deviations

inductive PSRError (K : Type) where
  -- "periods_per_year must be > 0; got {periods_per_year}"
  | periodsPerYear (periodsPerYear : K)
  | statistics (error : StatisticsError)
deriving DecidableEq

structure PSRResult (K : Type) where
  psr : Option K
  srAnnualized : Option K
  srThreshold : K
  skew : Option K
  kurt : Option K
  n : ℕ
  sufficientN : Bool
  reason : Option String
  srAnnualizedLo : Option K := none
deriving DecidableEq

structure DSRResult (K : Type) where
  dsr : Option K
  psrImplied : Option K
  srObserved : Option K
  srStar : Option K
  nTrials : ℕ
  varSrTrials : Option K
  skew : Option K
  kurt : Option K
  n : ℕ
  reason : Option String
  srObservedLo : Option K := none
deriving DecidableEq

def minObsReliable : ℕ := 10

def minTrials : ℕ := 2

variable {K : Type} [Field K] [LinearOrder K]

def psrThreshold : K := (95 : ℕ) / (100 : ℕ)

def dsrThreshold : K := (95 : ℕ) / (100 : ℕ)

def PSRResult.passesPsr (result : PSRResult K) : Bool := result.psr.any fun psr => psrThreshold < psr

def DSRResult.passesDsr (result : DSRResult K) : Bool := result.dsr.any fun dsr => dsrThreshold < dsr

variable (math : StatsModule K)

def minTrackRecordLength (srPerPeriod srStarPerPeriod skew kurt alpha : K) :
    Except StatisticsError (Option K) :=
  if srPerPeriod ≤ srStarPerPeriod then pure none
  else
    let varTerm := varianceTerm srPerPeriod skew kurt
    if varTerm ≤ 0 then pure none
    else do
      let z ← math.normal.invCdf (1 - alpha)
      return some (1 + varTerm * (z / (srPerPeriod - srStarPerPeriod)) ^ 2)

variable [FloorRing K]

def probabilisticSharpe (returns : List K) (srThreshold periodsPerYear : K) : Except (PSRError K) (PSRResult K) :=
  if periodsPerYear ≤ 0 then throw (.periodsPerYear periodsPerYear)
  else
    let n := returns.length
    match computeSharpeMoments math returns with
    | none =>
      pure
        { psr := none, srAnnualized := none, srThreshold := srThreshold, skew := none, kurt := none, n := n,
          sufficientN := false, reason := some "insufficient data (n<2 or zero variance)" }
    | some moments =>
      let srAnn := moments.srPerPeriod * math.sqrt periodsPerYear
      let eta := loAutocorrFactor math returns (roundHalfEven periodsPerYear) none
      let srAnnLo := eta.map fun eta => moments.srPerPeriod * eta
      if n < minObsReliable then
        pure
          { psr := none, srAnnualized := some srAnn, srThreshold := srThreshold, skew := some moments.skew,
            kurt := some moments.kurt, n := n, sufficientN := false,
            reason := some "n<10 (skew/kurtosis estimates unreliable)", srAnnualizedLo := srAnnLo }
      else
        let srThresholdPp := srThreshold / math.sqrt periodsPerYear
        let psr := psrKernel math moments.srPerPeriod srThresholdPp moments.n moments.skew moments.kurt
        let reason := if psr.isSome then none
          else some "variance term non-positive (extreme skew/kurtosis)"
        pure
          { psr := psr, srAnnualized := some srAnn, srThreshold := srThreshold, skew := some moments.skew,
            kurt := some moments.kurt, n := n, sufficientN := true, reason := reason,
            srAnnualizedLo := srAnnLo }

def deflatedSharpe (returns : List K) (srTrials : List (Option K)) (periodsPerYear : K) :
    Except (PSRError K) (DSRResult K) :=
  if periodsPerYear ≤ 0 then throw (.periodsPerYear periodsPerYear)
  else do
    let trials := srTrials.filterMap id
    let nTrials := trials.length
    let nObs := returns.length
    let psr0 ← probabilisticSharpe math returns 0 periodsPerYear
    if nTrials < minTrials then
      return { dsr := none, psrImplied := psr0.psr, srObserved := psr0.srAnnualized, srStar := none,
               nTrials := nTrials, varSrTrials := none, skew := psr0.skew, kurt := psr0.kurt, n := nObs,
               reason := some "n_trials<2 (cannot estimate trial-Sharpe variance)",
               srObservedLo := psr0.srAnnualizedLo }
    else
      let varSrTrials := squares trials / (nTrials - 1)
      let srStar ← (expectedMaxSharpe math nTrials varSrTrials).mapError .statistics
      let psrAtStar ← probabilisticSharpe math returns srStar periodsPerYear
      return { dsr := psrAtStar.psr, psrImplied := psr0.psr, srObserved := psrAtStar.srAnnualized,
               srStar := some srStar, nTrials := nTrials, varSrTrials := some varSrTrials,
               skew := psrAtStar.skew, kurt := psrAtStar.kurt, n := nObs, reason := psrAtStar.reason,
               srObservedLo := psrAtStar.srAnnualizedLo }

end Futur3.Stats
