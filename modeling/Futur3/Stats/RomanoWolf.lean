import Futur3.Prelude.Selection
import Futur3.Stats.MultiStrategy
import Mathlib.Data.Finset.Max

/-! # Romano-Wolf step-down

The strategies are taken in descending order of their studentized statistics. Each is
compared with the greatest bootstrap statistic of those not yet rejected, and the first
that is accepted ends the loop.
-/

namespace Futur3.Stats

open Prelude Execution

variable {K : Type} [Field K] [LinearOrder K]

/-! ## The loop -/

structure Stepdown (K : Type) (n : ℕ) where
  adjusted : Fin n → K
  reject : Fin n → Bool
  remaining : Finset (Fin n)
  running : K

def stepdownStart {n : ℕ} : Stepdown K n :=
  { adjusted := fun _ => 1, reject := fun _ => false, remaining := Finset.univ, running := 0 }

section Loop

variable {n : ℕ} (tObs : Fin n → K) (valid : Fin n → Bool) (tstar : List (Fin n → K))

/-- `count`: the draws whose greatest statistic over the valid strategies of a set reaches a level. -/
def exceedances (remaining : Finset (Fin n)) (level : K) : ℕ :=
  tstar.countP fun row => level ≤ ((remaining.filter fun k => valid k).image row).max.unbotD 0

def stepdownLoop (nBootstrap : ℕ) (alpha : K) : List (Fin n) → Stepdown K n → Stepdown K n
  | [], st => st
  | idx :: rest, st =>
    let count := exceedances valid tstar st.remaining (tObs idx)
    let running := max st.running ((count + 1) / (nBootstrap + 1))
    let adjusted := Function.update st.adjusted idx running
    if running ≤ alpha then
      stepdownLoop nBootstrap alpha rest
        { adjusted := adjusted, reject := Function.update st.reject idx true,
          remaining := st.remaining.erase idx, running := running }
    else
      { adjusted := fun k => if k ∈ st.remaining then running else adjusted k, reject := st.reject,
        remaining := st.remaining, running := running }

/-- `order`. -/
def descending : List (Fin n) :=
  Selection.sortBy (fun k => OrderDual.toDual (tObs k)) (List.finRange n)

def stepdown (nBootstrap : ℕ) (alpha : K) : Stepdown K n :=
  stepdownLoop tObs valid tstar nBootstrap alpha (descending tObs) stepdownStart

end Loop

/-! ## The gate -/

inductive RomanoWolfFailure (K : Type) where
  -- "alpha must be in (0, 1); got {alpha}"
  | alpha (alpha : K)
  -- "n_bootstrap must be >= {_MIN_BOOTSTRAP}; got {n_bootstrap}"
  | nBootstrap (nBootstrap : ℕ)
  -- "block_length must be >= 1; got {block_length}"
  | blockLength (blockLength : ℤ)
  | multiStrategy (error : MultiStrategyError)
deriving DecidableEq

structure RomanoWolfResult (K : Type) where
  alpha : K
  observedStats : List K
  adjustedPvalues : List K
  reject : List Bool
  nRejected : ℕ
  nStrategies : ℕ
  nObs : ℕ
  blockLength : ℤ
  nBootstrap : ℕ
  seed : Option ℤ
deriving DecidableEq

namespace RomanoWolfResult

def anySignificant (result : RomanoWolfResult K) : Bool := 0 < result.nRejected

def passesFwer (result : RomanoWolfResult K) : Bool := result.anySignificant

def significantIndices (result : RomanoWolfResult K) : List ℕ :=
  (result.reject.zipIdx.filter fun p => p.1).map fun p => p.2

end RomanoWolfResult

def minBootstrap : ℕ := 1000

def romanoWolfOf {γ : Type} (sqrt : K → K) (gen : Generator γ) (x : Differentials K) (alpha : K)
    (nBootstrap : ℕ) (blockLength : ℤ) (seed : Option ℤ) : RomanoWolfResult K :=
  have := x.neZero
  let dbar := x.dbar
  let rootT := sqrt x.nObs
  let dstar := bootstrapDifferentialMeans gen x.d x.nObs nBootstrap blockLength seed
  let omega := fun k : Fin x.nStrategies => omega sqrt rootT dbar dstar nBootstrap k
  let valid := fun k => decide (0 < omega k)
  let tObs := fun k => studentized (omega k) rootT (dbar.getD k 0)
  let tstar := dstar.map fun row => fun k : Fin x.nStrategies =>
    studentized (omega k) rootT (row.getD k 0 - dbar.getD k 0)
  let st := stepdown tObs valid tstar nBootstrap alpha
  { alpha := alpha, observedStats := List.ofFn tObs, adjustedPvalues := List.ofFn st.adjusted,
    reject := List.ofFn st.reject, nRejected := (List.ofFn st.reject).count true,
    nStrategies := x.nStrategies, nObs := x.nObs, blockLength := blockLength, nBootstrap := nBootstrap,
    seed := seed }

def romanoWolfStepdown {γ : Type} (sqrt : K → K) (gen : Generator γ) (strategyReturns : List (List K))
    (benchReturns : Option (List K)) (alpha : K) (nBootstrap : ℕ) (blockLength : ℤ) (seed : Option ℤ) :
    Except (RomanoWolfFailure K) (RomanoWolfResult K) :=
  if ¬(0 < alpha ∧ alpha < 1) then throw (.alpha alpha)
  else if nBootstrap < minBootstrap then throw (.nBootstrap nBootstrap)
  else if blockLength < 1 then throw (.blockLength blockLength)
  else do
    let x ← (prepareDifferentials strategyReturns benchReturns).mapError .multiStrategy
    return romanoWolfOf sqrt gen x alpha nBootstrap blockLength seed

end Futur3.Stats
