import Mathlib.Algebra.BigOperators.Group.List.Basic
import Mathlib.Algebra.Field.Defs
import Mathlib.Order.Lattice

/-! # The decay monitor

The health verdict on the recorded sessions of a strategy. Decimals and floats are the
numbers of an ordered field, and the square root of the `math` module is an argument.
-/

namespace Futur3.Execution

inductive DecayVerdict where
  | warmingUp
  | healthy
  | decayed
deriving DecidableEq, Repr

inductive DecayReason (K : Type) where
  -- "warming up: {n} < {min_sessions} sessions -- not enough to judge"
  | warmingUp (n : ℕ) (minSessions : ℤ)
  -- "DECAYED: cumulative ${cumulative:,.0f}, trailing-{rolling_window} Sharpe {roll}"
  | decayed (cumulative : K) (rollingWindow : ℤ) (roll : Option K)
  -- "cumulative ${cumulative:,.0f} > 0, trailing-{rolling_window} Sharpe {roll}"
  | healthy (cumulative : K) (rollingWindow : ℤ) (roll : Option K)
deriving DecidableEq

structure DecayStatus (K : Type) where
  nSessions : ℕ
  cumulativePnl : K
  fullSharpe : Option K
  rollingSharpe : Option K
  rollingWindow : ℤ
  maxDrawdown : K
  verdict : DecayVerdict
  reason : DecayReason K
deriving DecidableEq

inductive MathDomainError where
  | mathDomainError
deriving DecidableEq

def minForSharpe : ℕ := 2

/-- `xs[start:]`. -/
def sliceFrom {α : Type} (xs : List α) (start : ℤ) : List α :=
  xs.drop (if start < 0 then start + xs.length else start).toNat

variable {K : Type} [Field K] [LinearOrder K]

/-- `math.sqrt`. -/
def mathSqrt (sqrt : K → K) (x : K) : Except MathDomainError K :=
  if x < 0 then throw .mathDomainError else pure (sqrt x)

def sharpe (sqrt : K → K) (pnl : List K) (periodsPerYear : K) : Except MathDomainError (Option K) :=
  let n := pnl.length
  if n < minForSharpe then pure none
  else
    let mean : K := pnl.sum / n
    let var : K := (pnl.map fun x => (x - mean) ^ 2).sum / (n - 1)
    if var ≤ 0 then pure none
    else do
      let deviation ← mathSqrt sqrt var
      let year ← mathSqrt sqrt periodsPerYear
      pure (some (mean / deviation * year))

def maxDrawdown (pnl : List K) : K :=
  (pnl.foldl (fun (peak, cum, mdd) x =>
    let cum := cum + x
    let peak := max peak cum
    (peak, cum, max mdd (peak - cum))) ((0 : K), (0 : K), (0 : K))).2.2

def healthVerdict (n : ℕ) (cumulative : K) (rollingSr : Option K) (rollingWindow minSessions : ℤ) :
    DecayVerdict × DecayReason K :=
  if n < minSessions then (.warmingUp, .warmingUp n minSessions)
  else if cumulative ≤ 0 ∨ ∃ sr ∈ rollingSr, sr ≤ 0 then
    (.decayed, .decayed cumulative rollingWindow rollingSr)
  else (.healthy, .healthy cumulative rollingWindow rollingSr)

def assessDecay (sqrt : K → K) (pnl : List K) (periodsPerYear : K) (rollingWindow minSessions : ℤ) :
    Except MathDomainError (DecayStatus K) := do
  let n := pnl.length
  let cumulative := pnl.sum
  let fullSr ← sharpe sqrt pnl periodsPerYear
  let recent := sliceFrom pnl (-rollingWindow)
  let rollingSr ← sharpe sqrt recent periodsPerYear
  let mdd := maxDrawdown pnl
  let health := healthVerdict n cumulative rollingSr rollingWindow minSessions
  return { nSessions := n, cumulativePnl := cumulative, fullSharpe := fullSr, rollingSharpe := rollingSr,
           rollingWindow := rollingWindow, maxDrawdown := mdd, verdict := health.1, reason := health.2 }

end Futur3.Execution
