import Futur3.Stats.BootstrapCi
import Futur3.Stats.Permutation
import Futur3.Stats.ProbabilisticSharpe
import Futur3.Stats.RealityCheck

/-! # The promotion gate

Five gates are asked about one strategy and its family, and only a strategy that passes
all of them is promoted. A family of backtests gets there as equity curves, whose returns
are those of a blown account from the breach on.
-/

namespace Futur3.Stats

open Prelude Execution Deviations

inductive SuperiorityMethod where
  | spa
  | wrc
deriving DecidableEq

def SuperiorityMethod.value : SuperiorityMethod → String
  | .spa => "spa"
  | .wrc => "wrc"

inductive PromotionFailure (K : Type) where
  | sharpe (error : PSRError K)
  | bca (error : BCaError K)
  | permutation (error : PermutationError)
  | spa (error : SPAFailure)
  | wrc (error : RealityCheckFailure)
deriving DecidableEq

structure PromotionDecision (K : Type) where
  dsr : DSRResult K
  psr : PSRResult K
  bcaProfitFactor : BCaResult K
  permutation : PermutationResult K
  superiority : SPAResult K ⊕ RealityCheckResult K
  superiorityMethod : SuperiorityMethod
deriving DecidableEq

namespace PromotionDecision

variable {K : Type} [Field K] [LinearOrder K] (decision : PromotionDecision K)

def passesDsr : Bool := decision.dsr.passesDsr

def passesPsr : Bool := decision.psr.passesPsr

def passesProfitFactor : Bool := decision.bcaProfitFactor.lowerExceeds pfLowerThreshold

def passesPermutation : Bool := decision.permutation.passesPermutation

def passesSuperiority : Bool := decision.superiority.elim SPAResult.significant RealityCheckResult.significant

def checks : List (String × Bool) :=
  [("deflated_sharpe", decision.passesDsr), ("probabilistic_sharpe", decision.passesPsr),
    ("bca_profit_factor", decision.passesProfitFactor), ("permutation", decision.passesPermutation),
    ("superiority_" ++ decision.superiorityMethod.value, decision.passesSuperiority)]

def promoted : Bool := decision.checks.all Prod.snd

def failedGates : List String := (decision.checks.filter fun check => !check.2).map Prod.fst

end PromotionDecision

section Gate

variable {K : Type} [Field K] [LinearOrder K] [FloorRing K] {γ : Type} (math : StatsModule K) (gen : Generator γ)

def defaultConfidence : K := (95 : ℕ) / (100 : ℕ)

/-- The block length that the permutation test and both superiority tests have by default. -/
def defaultBlockLength : ℤ := 5

def superiorityOf (familyReturns : List (List K)) (benchReturns : Option (List K)) (method : SuperiorityMethod)
    (nResamples : ℕ) (seed : Option ℤ) : Except (PromotionFailure K) (SPAResult K ⊕ RealityCheckResult K) :=
  match method with
  | .spa => ((spaTest math.toMathModule gen familyReturns benchReturns nResamples defaultBlockLength seed).map
      .inl).mapError .spa
  | .wrc => ((realityCheck math.sqrt gen familyReturns benchReturns nResamples defaultBlockLength seed).map
      .inr).mapError .wrc

def evaluatePromotion (strategyReturns : List K) (familyReturns : List (List K)) (srTrials : List (Option K))
    (periodsPerYear : K) (benchReturns : Option (List K)) (superiorityMethod : SuperiorityMethod) (nResamples : ℕ)
    (seed : Option ℤ) : Except (PromotionFailure K) (PromotionDecision K) := do
  let dsr ← (deflatedSharpe math strategyReturns srTrials periodsPerYear).mapError .sharpe
  let psr ← (probabilisticSharpe math strategyReturns 0 periodsPerYear).mapError .sharpe
  let bcaPf ← (bcaBootstrap math gen strategyReturns profitFactor nResamples defaultConfidence seed).mapError .bca
  let perm ← (permutationTest math.sqrt gen strategyReturns meanReturn nResamples .signFlip defaultBlockLength true
    seed).mapError .permutation
  let superiority ← superiorityOf math gen familyReturns benchReturns superiorityMethod nResamples seed
  return { dsr := dsr, psr := psr, bcaProfitFactor := bcaPf, permutation := perm, superiority := superiority,
           superiorityMethod := superiorityMethod }

end Gate

/-! ## From equity curves -/

/-- `BacktestValidationError`, and the error of a square root of a negative number. -/
inductive BacktestValidationError (K : Type) where
  -- "need >= {_MIN_EQUITY_POINTS} equity points to form a return; got {len(equity_curve)}"
  | tooFewPoints (count : ℕ)
  -- "equity curve must START strictly positive"
  | start
  -- "need >= 1 equity curve to evaluate"
  | noCurve
  -- "selected_index {selected_index} out of range [0, {n})"
  | selectedIndex (selectedIndex : ℤ) (n : ℕ)
  -- "all equity curves must be equal length (...); got lengths {sorted(lengths)}"
  | lengths (lengths : List ℕ)
  | mathDomain
  | promotion (error : PromotionFailure K)
deriving DecidableEq

def minEquityPoints : ℕ := 2

section Curves

variable {K : Type} [Field K] [LinearOrder K]

def returnsLoop : Bool → K → List K → List K
  | _, _, [] => []
  | true, _, cur :: rest => 0 :: returnsLoop true cur rest
  | false, prev, cur :: rest =>
    if cur ≤ 0 then -1 :: returnsLoop true cur rest else (cur / prev - 1) :: returnsLoop false cur rest

def equityCurveToReturns (equityCurve : List K) : Except (BacktestValidationError K) (List K) :=
  if equityCurve.length < minEquityPoints then throw (.tooFewPoints equityCurve.length)
  else
    let first := equityCurve.headD 0
    if first ≤ 0 then throw .start
    else pure (returnsLoop false first equityCurve.tail)

/-- `math.isclose` at the tolerances that are used. -/
def isClose (a b : K) : Bool := |a - b| ≤ max (1 / (10 : ℕ) ^ 9 * max |a| |b|) (1 / ((10 : ℕ) : K) ^ 12)

/-- `_annualized_sharpe`. -/
def trialSharpe (sqrt : K → K) (returns : List K) (periodsPerYear : K) : Except (BacktestValidationError K) K :=
  if returns.length < 2 then pure 0
  else
    let meanR := mean returns
    if returns.all fun r => isClose r meanR then pure 0
    else if periodsPerYear < 0 then throw .mathDomain
    else pure (meanR / sampleStdev sqrt returns * sqrt periodsPerYear)

variable [FloorRing K] {γ : Type} (math : StatsModule K) (gen : Generator γ)

def evaluateBacktests (equityCurves : List (List K)) (selectedIndex : ℤ) (periodsPerYear : K)
    (benchCurve : Option (List K)) (superiorityMethod : SuperiorityMethod) (nResamples : ℕ) (seed : Option ℤ) :
    Except (BacktestValidationError K) (PromotionDecision K) :=
  if equityCurves = [] then throw .noCurve
  else if ¬(0 ≤ selectedIndex ∧ selectedIndex < equityCurves.length) then
    throw (.selectedIndex selectedIndex equityCurves.length)
  else if (equityCurves.map List.length).dedup.length ≠ 1 then
    throw (.lengths ((equityCurves.map List.length).dedup.insertionSort (· ≤ ·)))
  else do
    let familyReturns ← equityCurves.mapM equityCurveToReturns
    let strategyReturns := familyReturns.getD selectedIndex.toNat []
    let srTrials ← familyReturns.mapM fun r => trialSharpe math.sqrt r periodsPerYear
    let benchReturns ← benchCurve.mapM equityCurveToReturns
    (evaluatePromotion math gen strategyReturns familyReturns (srTrials.map some) periodsPerYear benchReturns
      superiorityMethod nResamples seed).mapError .promotion

end Curves

end Futur3.Stats
