import Futur3.Prelude.Method
import Futur3.Prelude.Selection
import Mathlib.Algebra.Field.Defs

/-! # Multiple-testing corrections

Bonferroni, Holm and Benjamini-Hochberg adjust a list of p-values and reject those
whose adjusted value is at most the level. The last two sort the p-values and carry
a running maximum or minimum along them; the results come back in input order.
-/

namespace Futur3.Stats

open Prelude

variable {K : Type}

inductive MultipleTestError (K : Type) where
  -- "{level_name} must be in (0, 1); got {level}"
  | level (levelName : String) (level : K)
  -- "need at least one p-value"
  | noPValues
  -- "p-values must be finite and in [0, 1]"
  | outOfRange
deriving DecidableEq

structure MultipleTestResult (K : Type) where
  method : String
  level : K
  pValues : List K
  adjusted : List K
  reject : List Bool
  nReject : ℕ
deriving DecidableEq

variable [Field K] [LinearOrder K]

def validate (pValues : List K) (level : K) (levelName : String) :
    Except (MultipleTestError K) (List K) := do
  if ¬(0 < level ∧ level < 1) then throw (.level levelName level)
  if pValues.isEmpty then throw .noPValues
  if ¬∀ v ∈ pValues, 0 ≤ v ∧ v ≤ 1 then throw .outOfRange
  pure pValues

/-- `_result`, with `reject = [a <= level for a in adjusted]` before it. -/
def result (method : String) (level : K) (p adjusted : List K) : MultipleTestResult K :=
  let reject := adjusted.map fun a => decide (a ≤ level)
  { method, level, pValues := p, adjusted, reject, nReject := reject.count true }

/-- `sorted(range(n), key=lambda i: p[i])`. -/
def ascending (p : List K) : List ℕ := Selection.sortBy (fun i => p.getD i 0) (List.range p.length)

def bonferroniAdjusted (p : List K) : List K := p.map fun pi => min 1 (pi * p.length)

/-- The loop of `holm_bonferroni_correct` over the ranked indices. -/
def holmFrom (p : List K) : ℕ → K → List ℕ → List K → List K
  | _, _, [], adjusted => adjusted
  | rank, runningMax, idx :: order, adjusted =>
    let runningMax := max runningMax (min 1 ((p.length - rank : ℕ) * p.getD idx 0))
    holmFrom p (rank + 1) runningMax order (adjusted.set idx runningMax)

def holmAdjusted (p : List K) : List K :=
  holmFrom p 0 0 (ascending p) (List.replicate p.length 0)

/-- The loop of `bh_fdr_correct`, from the largest rank down. -/
def bhFrom (p : List K) (order : List ℕ) : ℕ → K → List K → List K
  | 0, _, adjusted => adjusted
  | rank + 1, runningMin, adjusted =>
    let idx := order.getD rank 0
    let runningMin := min (min runningMin 1) (p.getD idx 0 * p.length / (rank + 1 : ℕ))
    bhFrom p order rank runningMin (adjusted.set idx runningMin)

def bhAdjusted (p : List K) : List K :=
  bhFrom p (ascending p) p.length 1 (List.replicate p.length 0)

def bonferroniCorrect (pValues : List K) (alpha : K) :
    Except (MultipleTestError K) (MultipleTestResult K) := do
  let p ← validate pValues alpha "alpha"
  pure (result "bonferroni" alpha p (bonferroniAdjusted p))

def holmBonferroniCorrect (pValues : List K) (alpha : K) :
    Except (MultipleTestError K) (MultipleTestResult K) := do
  let p ← validate pValues alpha "alpha"
  pure (result "holm" alpha p (holmAdjusted p))

def bhFdrCorrect (pValues : List K) (q : K) :
    Except (MultipleTestError K) (MultipleTestResult K) := do
  let p ← validate pValues q "q"
  pure (result "bh_fdr" q p (bhAdjusted p))

end Futur3.Stats
