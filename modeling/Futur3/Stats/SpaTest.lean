import Futur3.Cv.Cscv
import Futur3.Stats.RomanoWolf
import Mathlib.Data.List.MinMax

/-! # Hansen's test of superior predictive ability

The best studentized statistic, never below zero, is compared with the best one of each
bootstrap draw; clearly inferior strategies are recentered at zero. The logarithm and the
square root are arguments.
-/

namespace Futur3.Stats

open Prelude Execution

inductive SPAFailure where
  -- "n_bootstrap must be >= {_MIN_BOOTSTRAP}; got {n_bootstrap}"
  | nBootstrap (nBootstrap : ℕ)
  -- "block_length must be >= 1; got {block_length}"
  | blockLength (blockLength : ℤ)
  | multiStrategy (error : MultiStrategyError)
deriving DecidableEq

structure SPAResult (K : Type) where
  pValue : K
  testStatistic : K
  maxStrategyIdx : ℕ
  maxTStat : K
  nStrategies : ℕ
  nObs : ℕ
  blockLength : ℤ
  nBootstrap : ℕ
  seed : Option ℤ
deriving DecidableEq

def minObsForTau : ℕ := 3

variable {K : Type} [Field K] [LinearOrder K]

def spaAlpha : K := 5 / 100

def SPAResult.rejectNullAt (result : SPAResult K) (alpha : K) : Bool := result.pValue < alpha

def SPAResult.significant (result : SPAResult K) : Bool := result.rejectNullAt spaAlpha

theorem Differentials.neZeroStrategies {K : Type} (x : Differentials K) : NeZero x.nStrategies :=
  ⟨(zero_lt_one.trans_le x.strategies).ne'⟩

/-- `max(range(n), key=values.__getitem__)`. -/
def maxIdx {n : ℕ} [NeZero n] (values : Fin n → K) : Fin n :=
  ((List.finRange n).argmax values).getD 0

def bootStat {n : ℕ} (omega vals : Fin n → K) : K :=
  (List.finRange n).foldl (fun stat k => if 0 < omega k then max stat (vals k) else stat) 0

def spaOf {γ : Type} (math : Cv.MathModule K) (gen : Generator γ) (x : Differentials K) (nBootstrap : ℕ)
    (blockLength : ℤ) (seed : Option ℤ) : SPAResult K :=
  have := x.neZero
  have := x.neZeroStrategies
  let dbar := x.dbar
  let rootT := math.sqrt x.nObs
  let dstar := bootstrapDifferentialMeans gen x.d x.nObs nBootstrap blockLength seed
  let omega := fun k : Fin x.nStrategies => omega math.sqrt rootT dbar dstar nBootstrap k
  let tStats := fun k : Fin x.nStrategies => studentized (omega k) rootT (dbar.getD k 0)
  let maxIdx := maxIdx tStats
  let observed := max 0 (tStats maxIdx)
  let tau := math.sqrt ((2 : ℕ) * math.log (math.log (max x.nObs minObsForTau : ℕ)))
  let g := fun k : Fin x.nStrategies => if 0 < omega k ∧ -tau ≤ tStats k then dbar.getD k 0 else 0
  let count := dstar.countP fun row =>
    observed ≤ bootStat omega fun k => rootT * (row.getD k 0 - g k) / omega k
  { pValue := (count + 1) / (nBootstrap + 1), testStatistic := observed, maxStrategyIdx := maxIdx,
    maxTStat := tStats maxIdx, nStrategies := x.nStrategies, nObs := x.nObs, blockLength := blockLength,
    nBootstrap := nBootstrap, seed := seed }

def spaTest {γ : Type} (math : Cv.MathModule K) (gen : Generator γ) (strategyReturns : List (List K))
    (benchReturns : Option (List K)) (nBootstrap : ℕ) (blockLength : ℤ) (seed : Option ℤ) :
    Except SPAFailure (SPAResult K) :=
  if nBootstrap < minBootstrap then throw (.nBootstrap nBootstrap)
  else if blockLength < 1 then throw (.blockLength blockLength)
  else do
    let x ← (prepareDifferentials strategyReturns benchReturns).mapError .multiStrategy
    return spaOf math gen x nBootstrap blockLength seed

end Futur3.Stats
