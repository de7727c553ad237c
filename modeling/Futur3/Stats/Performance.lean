import Futur3.Prelude.RunningPeak
import Futur3.Stats.PromotionGate

/-! # Descriptive performance

The summary of an equity curve, and that of the closed trades. A ratio that is not
defined is none, never zero. Money and floats are the numbers of an ordered field.
-/

namespace Futur3.Stats

open Prelude Deviations

inductive StatsError (K : Type) where
  -- "periods_per_year must be > 0; got {periods_per_year}"
  | periodsPerYear (periodsPerYear : K)
  -- "need >= 2 equity points to compute returns; got {n}"
  | tooFewPoints (n : ℕ)
  -- "equity curve must be strictly positive to compute returns"
  | notPositive
deriving DecidableEq

structure PerformanceMetrics (K : Type) where
  nPeriods : ℕ
  totalReturn : K
  annualizedReturn : K
  annualizedVolatility : Option K
  sharpe : Option K
  maxDrawdown : K
  calmar : Option K
deriving DecidableEq

structure TradeMetrics (K : Type) where
  nTrades : ℕ
  nWins : ℕ
  nLosses : ℕ
  nScratch : ℤ
  winRate : Option K
  avgWin : Option K
  avgLoss : Option K
  payoffRatio : Option K
  expectancy : Option K
  profitFactor : Option K
  pnlSkew : Option K
deriving DecidableEq

def minReturnsForStdev : ℕ := 2

def minTradesForSkew : ℕ := 3

section Curve

variable {K : Type} [Field K]

/-- The fall from a peak, as a share of it. -/
def fall (peak x : K) : K := (peak - x) / peak

/-- `[equity[i] / equity[i - 1] - 1.0 for i in range(1, n)]`. -/
def periodReturns (equity : List K) : List K := List.zipWith (fun cur prev => cur / prev - 1) equity.tail equity

variable [LinearOrder K]

/-- `_max_drawdown`, of a curve that is not empty. -/
def maxDrawdown (equity : List K) : K := worstFrom fall (equity.headD 0) 0 equity

def computeMetrics (math : StatsModule K) (equityCurve : List K) (periodsPerYear riskFreeRate : K) :
    Except (StatsError K) (PerformanceMetrics K) :=
  if periodsPerYear ≤ 0 then throw (.periodsPerYear periodsPerYear)
  else
    let n := equityCurve.length
    if n < minEquityPoints then throw (.tooFewPoints n)
    else if equityCurve.any fun x => x ≤ 0 then throw .notPositive
    else
      let returns := periodReturns equityCurve
      let nReturns := returns.length
      let first := equityCurve.headD 0
      let last := equityCurve.getLastD 0
      let annualizedReturn := math.pow (last / first) (periodsPerYear / nReturns) - 1
      let maxDd := maxDrawdown equityCurve
      let meanR := mean returns
      let (volatility, sharpe) :=
        if nReturns < minReturnsForStdev then (none, none)
        else if returns.all fun r => isClose r meanR then (some 0, none)
        else
          let sd := sampleStdev math.sqrt returns
          let meanExcess := meanR - riskFreeRate / periodsPerYear
          (some (sd * math.sqrt periodsPerYear), some (meanExcess / sd * math.sqrt periodsPerYear))
      pure
        { nPeriods := nReturns, totalReturn := last / first - 1, annualizedReturn := annualizedReturn,
          annualizedVolatility := volatility, sharpe := sharpe, maxDrawdown := maxDd,
          calmar := if 0 < maxDd then some (annualizedReturn / maxDd) else none }

end Curve

section Trades

variable {K : Type} [Field K] [LinearOrder K]

def pnlSkew (pow : K → K → K) (pnls : List K) : Option K :=
  if pnls.length < minTradesForSkew then none
  else
    let m2 := centralMoment pnls 2
    if m2 ≤ 0 then none else some (centralMoment pnls 3 / pow m2 ((3 : ℕ) / (2 : ℕ)))

def computeTradeMetrics (pow : K → K → K) (tradePnls : List K) : TradeMetrics K :=
  let n := tradePnls.length
  let wins := tradePnls.filter fun p => 0 < p
  let losses := tradePnls.filter fun p => p < 0
  let nWins := wins.length
  let nLosses := losses.length
  let avgWin := if 0 < nWins then some (wins.sum / nWins) else none
  let avgLoss := if 0 < nLosses then some (-losses.sum / nLosses) else none
  let grossLoss := -losses.sum
  { nTrades := n, nWins := nWins, nLosses := nLosses, nScratch := n - nWins - nLosses
    winRate := if 0 < n then some (nWins / n) else none
    avgWin := avgWin
    avgLoss := avgLoss
    payoffRatio := avgWin.bind fun w => avgLoss.map fun l => w / l
    expectancy := if 0 < n then some (tradePnls.sum / n) else none
    profitFactor := if 0 < grossLoss then some (wins.sum / grossLoss) else none
    pnlSkew := pnlSkew pow tradePnls }

end Trades

end Futur3.Stats
