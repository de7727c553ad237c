import Futur3.Cv.Cscv
import Futur3.Prelude.Moments
import Futur3.Prelude.NearestFloat
import Futur3.Prelude.StandardNormal
import Futur3.Stats.TailRisk

/-! # The kernel of the Sharpe gates

The Sharpe ratio of a period with the higher moments of the returns, the probability
that the true ratio exceeds a benchmark, the expected best ratio of several trials and
the annualization factor corrected for autocorrelation. Floats are the numbers of an
ordered field, so no value is infinite.
-/

namespace Futur3.Stats

open Prelude Deviations

/-- What the gates use of `math` and `statistics`. -/
structure StatsModule (K : Type) extends Cv.MathModule K where
  pow : K → K → K
  e : K
  normal : NormalDist K

structure SharpeMoments (K : Type) where
  n : ℕ
  srPerPeriod : K
  skew : K
  kurt : K
deriving DecidableEq

variable {K : Type} [Field K]

def eulerGamma : K := (5772156649015329 : ℕ) / (10 : ℕ) ^ 16

def minTrialsForMax : ℕ := 2

/-- `cov_k` of `lo_autocorr_factor`. -/
def lagCovariance (returns : List K) (k : ℕ) : K :=
  (List.zipWith (fun x y => (x - mean returns) * (y - mean returns)) (returns.drop k) returns).sum /
    returns.length

def sampleStdev (sqrt : K → K) (xs : List K) : K := sqrt (squares xs / (xs.length - 1))

variable [LinearOrder K] (math : StatsModule K)

def computeSharpeMoments (returns : List K) : Option (SharpeMoments K) :=
  let n := returns.length
  if n < minReturns then none
  else
    let sd := sampleStdev math.sqrt returns
    if sd ≤ 0 then none
    else
      let m2 := centralMoment returns 2
      if m2 ≤ 0 then none
      else
        some
          { n := n, srPerPeriod := mean returns / sd,
            skew := centralMoment returns 3 / math.pow m2 ((3 : ℕ) / (2 : ℕ)),
            kurt := centralMoment returns 4 / m2 ^ 2 }

/-- `denom_inner`, the variance term. -/
def varianceTerm (srPerPeriod skew kurt : K) : K :=
  1 - skew * srPerPeriod + (kurt - 1) / (4 : ℕ) * srPerPeriod ^ 2

def psrKernel (srPerPeriod srStarPerPeriod : K) (n : ℕ) (skew kurt : K) : Option K :=
  let denomInner := varianceTerm srPerPeriod skew kurt
  if denomInner ≤ 0 then none
  else
    let z := (srPerPeriod - srStarPerPeriod) * math.sqrt (n - 1) / math.sqrt denomInner
    some (math.normal.cdf z)

def expectedMaxSharpe (nTrials : ℕ) (varSrTrials : K) : Except StatisticsError K :=
  if nTrials < minTrialsForMax ∨ varSrTrials ≤ 0 then pure 0
  else do
    let sigma := math.sqrt varSrTrials
    let best ← math.normal.invCdf (1 - 1 / nTrials)
    let term1 := (1 - eulerGamma) * best
    let best ← math.normal.invCdf (1 - 1 / (nTrials * math.e))
    let term2 := eulerGamma * best
    return sigma * (term1 + term2)

variable [FloorRing K]

def neweyWestMaxLag (n : ℕ) : ℤ :=
  max 1 ⌊(4 : ℕ) * math.pow (n / (100 : ℕ)) ((2 : ℕ) / (9 : ℕ))⌋

def loAutocorrFactor (returns : List K) (q : ℤ) (maxLag : Option ℤ) : Option K :=
  let n := returns.length
  if q < 1 ∨ n < minReturns then none
  else
    let var := centralMoment returns 2
    if var ≤ 0 then none
    else
      let cap := maxLag.getD (neweyWestMaxLag math n)
      let lagCap := min (min (q - 1) (n - 1)) cap
      if lagCap < 1 then some (q / math.sqrt q)
      else
        let weighted := ((List.range' 1 lagCap.toNat).map fun k =>
          ((q : K) - (k : ℕ)) * (lagCovariance returns k / var)).sum
        let denom := q + (2 : ℕ) * weighted
        if denom ≤ 0 then none else some (q / math.sqrt denom)

end Futur3.Stats
