import Futur3.Execution.Survival
import Mathlib.Algebra.BigOperators.Group.List.Basic

/-! # The machinery of the multi-strategy gates

The differentials of several strategies against one benchmark, and their means under one
shared resampling of time. Floats are the numbers of an ordered field, so no value is
infinite and the check that all are finite always passes.
-/

namespace Futur3.Stats

open Execution

inductive MultiStrategyError where
  -- "need >= 1 strategy"
  | noStrategy
  -- "need >= {_MIN_OBS} observations per strategy; got {n_obs}"
  | tooFewObs (nObs : ℕ)
  -- "all strategies must have the same number of observations"
  | ragged
  -- "bench_returns length must match the strategy length"
  | benchLength
deriving DecidableEq

def minObs : ℕ := 2

def minStrategies : ℕ := 1

/-- What `prepare_differentials` returns, with what it has checked. -/
@[ext]
structure Differentials (K : Type) where
  d : List (List K)
  nObs : ℕ
  strategies : minStrategies ≤ d.length
  observations : minObs ≤ nObs
  rows : ∀ row ∈ d, row.length = nObs

theorem Differentials.neZero {K : Type} (x : Differentials K) : NeZero x.nObs :=
  ⟨(zero_lt_two.trans_le x.observations).ne'⟩

variable {K : Type} [Field K]

def Differentials.dbar (x : Differentials K) : List K := x.d.map fun row => row.sum / x.nObs

abbrev Differentials.nStrategies (x : Differentials K) : ℕ := x.d.length

def prepareDifferentials (strategyReturns : List (List K)) (benchReturns : Option (List K)) :
    Except MultiStrategyError (Differentials K) :=
  let nObs := (strategyReturns.headD []).length
  let bench := benchReturns.getD (List.replicate nObs 0)
  if hStrategies : strategyReturns.length < minStrategies then throw .noStrategy
  else if hObs : nObs < minObs then throw (.tooFewObs nObs)
  else if hRagged : ∃ s ∈ strategyReturns, s.length ≠ nObs then throw .ragged
  else if hBench : bench.length ≠ nObs then throw .benchLength
  else pure
    { d := strategyReturns.map fun s => List.zipWith (· - ·) s bench
      nObs := nObs
      strategies := by
        rw [List.length_map]
        exact not_lt.mp hStrategies
      observations := not_lt.mp hObs
      rows := by
        intro row hRow
        obtain ⟨s, hs, rfl⟩ := List.mem_map.mp hRow
        push Not at hRagged hBench
        rw [List.length_zipWith, hRagged s hs, hBench, Nat.min_self] }

section Bootstrap

variable {γ : Type} (gen : Generator γ) (nObs : ℕ) [NeZero nObs]

def stationaryBootstrapIndices (blockLength : ℤ) (rng : γ) : List (Fin nObs) × γ :=
  stationaryPath gen nObs (1 / blockLength) rng

def bootstrapRows (d : List (List K)) (blockLength : ℤ) : ℕ → γ → List (List K)
  | 0, _ => []
  | draws + 1, rng =>
    let (idx, rng) : List (Fin nObs) × γ := stationaryBootstrapIndices gen nObs blockLength rng
    (d.map fun row => (idx.map fun i : Fin nObs => row.getD i 0).sum / nObs) :: bootstrapRows d blockLength draws rng

end Bootstrap

def bootstrapDifferentialMeans {γ : Type} (gen : Generator γ) (d : List (List K)) (nObs : ℕ) [NeZero nObs]
    (nBootstrap : ℕ) (blockLength : ℤ) (seed : Option ℤ) : List (List K) :=
  bootstrapRows gen nObs d blockLength nBootstrap (gen.seeded seed)

/-! ## Studentizing -/

/-- `omega[k]` of both gates. -/
def omega (sqrt : K → K) (rootT : K) (dbar : List K) (dstar : List (List K)) (nBootstrap k : ℕ) : K :=
  sqrt ((dstar.map fun row => (rootT * (row.getD k 0 - dbar.getD k 0)) ^ 2).sum / nBootstrap)

/-- A value of a strategy over its deviation, and zero for one without variance. -/
def studentized [LinearOrder K] (omega rootT value : K) : K :=
  if 0 < omega then rootT * value / omega else 0

end Futur3.Stats
