import Futur3.Prelude.Selection
import Mathlib.Algebra.Order.Floor.Ring

/-! # Quantile skewness

The asymmetry of a return series at a tail probability, read off three quantiles of the
sorted series. Floats are the numbers of an ordered field.
-/

namespace Futur3.Stats

open Prelude

variable {K : Type}

inductive TailRiskError (K : Type) where
  -- "tail must be in (0, 0.5); got {tail}"
  | tail (tail : K)
deriving DecidableEq

def minReturns : ℕ := 2

variable [Field K] [LinearOrder K] [FloorRing K]

def maxTail : K := 1 / (2 : ℕ)

/-- `_quantile`, of a sorted sequence that is not empty, at a probability from 0 to 1. -/
def quantile (ordered : List K) (p : K) : K :=
  let n := ordered.length
  if n = 1 then ordered.getD 0 0
  else
    let h := ((n : K) - 1) * p
    let lo := ⌊h⌋
    let hi := min (lo + 1) ((n : ℤ) - 1)
    ordered.getD lo.toNat 0 + (h - lo) * (ordered.getD hi.toNat 0 - ordered.getD lo.toNat 0)

def quantileSkewness (returns : List K) (tail : K) : Except (TailRiskError K) (Option K) :=
  if ¬(0 < tail ∧ tail < maxTail) then throw (.tail tail)
  else if returns.length < minReturns then pure none
  else
    let ordered := Selection.sortBy id returns
    let qLo := quantile ordered tail
    let qMid := quantile ordered (1 / (2 : ℕ))
    let qHi := quantile ordered (1 - tail)
    let spread := qHi - qLo
    if spread ≤ 0 then pure none
    else pure (some ((qHi + qLo - (2 : ℕ) * qMid) / spread))

end Futur3.Stats
