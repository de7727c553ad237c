import Futur3.Execution.Slippage
import Mathlib.Data.Rat.Floor

/-! # The position-sizing gate

The contract count is the minimum of the Kelly, margin and leverage caps and,
when returns are given, of the survival cap. The bootstrap behind the survival
cap is a field of the sizer's collaborators; floats are read as rationals.
-/

namespace Futur3.Execution

open Data Prelude

inductive SizingFailure where
  -- ValueError: "account_equity must be > 0; got {equity}"
  | accountEquity (equity : ℚ)
  -- ValueError: "price must be > 0; got {price}"
  | price (price : ℚ)
  -- ValueError: "contracts must be >= 0; got {contracts}"
  | contracts (contracts : ℤ)
  -- RiskManagerError: "contract symbol too short to parse root: {symbol}"
  | symbolTooShort (symbol : String)
  -- RiskManagerError: "no initial margin configured for contract root {root}; ..."
  | noInitialMargin (root : String)
  -- RiskManagerError: "no multiplier configured for contract root {root} (from {contract}); ..."
  | noMultiplier (root : String) (contract : ContractSymbol)
  -- decimal.DivisionByZero of a zero margin
  | divisionByZero
deriving DecidableEq

def contractInitialMargin : List (String × ℚ) :=
  [("ES", 15400), ("MES", 1540), ("NQ", 22800), ("MNQ", 2280), ("CL", 7200), ("MCL", 720),
   ("GC", 26100), ("MGC", 2610), ("MBT", 2800), ("MET", 1800), ("YM", 1700), ("RTY", 3000),
   ("6E", 2600), ("6A", 1800), ("ZN", 2200), ("ZB", 4000), ("6J", 2860), ("6B", 2090), ("6C", 990),
   ("6S", 4400), ("HG", 13200), ("SI", 46230), ("ZT", 1320), ("ZF", 1375), ("UB", 5665),
   ("NKD", 21874)]

/-- USD for a price move of 1.0 in one contract. -/
def contractMultiplier : List (String × ℚ) :=
  [("ES", 50), ("MES", 5), ("NQ", 20), ("MNQ", 2), ("CL", 1000), ("MCL", 100), ("GC", 100),
   ("MGC", 10), ("MBT", 1 / 10), ("MET", 1 / 10), ("YM", 5), ("RTY", 50), ("6E", 125000),
   ("6A", 100000), ("ZN", 1000), ("ZB", 1000), ("6J", 12500000), ("6B", 62500), ("6C", 100000),
   ("6S", 125000), ("HG", 25000), ("SI", 5000), ("ZT", 2000), ("ZF", 1000), ("UB", 1000),
   ("NKD", 5)]

def contractRoot (contract : ContractSymbol) : Except SizingFailure String :=
  match symbolRoot? contract with
  | none => throw (.symbolTooShort contract)
  | some root => pure root

def multiplierFor (contract : ContractSymbol) : Except SizingFailure ℚ := do
  let root ← contractRoot contract
  match Dict.lookup root contractMultiplier with
  | some multiplier => pure multiplier
  | none => throw (.noMultiplier root contract)

/-- `MarginSource.initial_margin`; `none` stands for `MarginSourceError`. -/
structure MarginSource where
  initialMargin : String → Option ℚ

def MarginSource.static (margins : List (String × ℚ)) : MarginSource where
  initialMargin root := Dict.lookup root margins

structure RiskParams where
  kellyMultiplier : ℚ
  marginBudgetPct : ℚ
  leverageCap : ℚ
  survivalFloor : ℚ
  killSwitchDd : ℚ
  survivalHorizon : ℕ
  survivalPaths : ℕ
  kelly_pos : 0 < kellyMultiplier
  kelly_le : kellyMultiplier ≤ 1
  margin_pos : 0 < marginBudgetPct
  margin_le : marginBudgetPct ≤ 1
  leverage_pos : 0 < leverageCap
  floor_pos : 0 < survivalFloor
  floor_lt : survivalFloor < 1
  kill_pos : 0 < killSwitchDd
  kill_lt : killSwitchDd < 1
  horizon_pos : 1 ≤ survivalHorizon
  paths_pos : 1 ≤ survivalPaths

def RiskParams.default : RiskParams where
  kellyMultiplier := 1 / 4
  marginBudgetPct := 1 / 2
  leverageCap := 3
  survivalFloor := 995 / 1000
  killSwitchDd := 30 / 100
  survivalHorizon := 252
  survivalPaths := 10000
  kelly_pos := by norm_num
  kelly_le := by norm_num
  margin_pos := by norm_num
  margin_le := by norm_num
  leverage_pos := by norm_num
  floor_pos := by norm_num
  floor_lt := by norm_num
  kill_pos := by norm_num
  kill_lt := by norm_num
  horizon_pos := by norm_num
  paths_pos := by norm_num

inductive BindingConstraint where
  | kelly
  | margin
  | leverage
  | survival
  | noEdge
deriving DecidableEq, Repr

@[ext]
structure SizingDecision where
  contracts : ℤ
  bindingConstraint : BindingConstraint
  kellyContracts : ℤ
  marginContracts : ℤ
  leverageContracts : ℤ
  notionalPerContract : ℚ
  marginPerContract : ℚ
  survivalContracts : Option ℤ
  contracts_nonneg : 0 ≤ contracts

instance : DecidableEq SizingDecision := fun _ _ => decidable_of_iff' _ SizingDecision.ext_iff

theorem contracts_nonneg_of_guard {contracts : ℤ} (h : ¬contracts < 0) : 0 ≤ contracts :=
  not_lt.mp h

def SizingDecision.create (contracts : ℤ) (bindingConstraint : BindingConstraint)
    (kellyContracts marginContracts leverageContracts : ℤ)
    (notionalPerContract marginPerContract : ℚ) (survivalContracts : Option ℤ) :
    Except SizingFailure SizingDecision :=
  if h : contracts < 0 then throw (.contracts contracts)
  else
    pure { contracts, bindingConstraint, kellyContracts, marginContracts, leverageContracts
           notionalPerContract, marginPerContract, survivalContracts
           contracts_nonneg := contracts_nonneg_of_guard h }

/-- `int(value.to_integral_value(rounding=ROUND_DOWN))`: truncation toward zero. -/
def floorToInt (value : ℚ) : ℤ :=
  if 0 ≤ value then ⌊value⌋ else ⌈value⌉

/-- The survival bootstrap `survival_probability(returns, leverage, horizon, n_paths, dd, seed)`. -/
abbrev SurvivalBootstrap := List ℚ → ℚ → ℕ → ℕ → ℚ → Option ℤ → ℚ

/-- Binary search of `_survival_cap`: `lo` survives and `hi` does not. -/
def survivalSearch (survives : ℤ → Bool) (lo hi : ℤ) : ℤ :=
  if hi - lo > 1 then
    if survives ((lo + hi) / 2) then survivalSearch survives ((lo + hi) / 2) hi
    else survivalSearch survives lo ((lo + hi) / 2)
  else lo
termination_by (hi - lo).toNat
decreasing_by all_goals omega

def survivalCap (params : RiskParams) (bootstrap : SurvivalBootstrap) (returns : List ℚ)
    (base : ℤ) (notional accountEquity : ℚ) (seed : Option ℤ) : ℤ :=
  if returns.length < 2 then base
  else
    let survives : ℤ → Bool := fun n =>
      if n ≤ 0 then true
      else params.survivalFloor ≤ bootstrap returns (n * notional / accountEquity)
        params.survivalHorizon params.survivalPaths params.killSwitchDd seed
    if survives base then base else survivalSearch survives 0 base

/-- The earliest cap that attains the minimum. -/
def binding (kelly margin leverage : ℤ) (survival : Option ℤ) : BindingConstraint :=
  let smallest := (survival.toList).foldl min (min (min kelly margin) leverage)
  if kelly = smallest then .kelly
  else if margin = smallest then .margin
  else if leverage = smallest then .leverage
  else .survival

/-- A sizer, as the engine uses it:
`size_position(contract, full_kelly_fraction, account_equity, price, returns=, seed=)`. -/
structure RiskManager where
  sizePosition : ContractSymbol → ℚ → ℚ → ℚ → Option (List ℚ) → Option ℤ →
    Except SizingFailure SizingDecision

def RiskManager.base (params : RiskParams) (marginSource : MarginSource)
    (bootstrap : SurvivalBootstrap) : RiskManager where
  sizePosition contract fullKellyFraction accountEquity price returns seed := do
    if accountEquity ≤ 0 then throw (.accountEquity accountEquity)
    if price ≤ 0 then throw (.price price)
    let root ← contractRoot contract
    let margin ← (marginSource.initialMargin root).elim (throw (.noInitialMargin root)) pure
    let multiplier ← multiplierFor contract
    let notional := price * multiplier
    if margin = 0 then throw .divisionByZero
    let marginContracts := floorToInt (accountEquity * params.marginBudgetPct / margin)
    let leverageContracts := floorToInt (accountEquity * params.leverageCap / notional)
    if fullKellyFraction ≤ 0 then
      SizingDecision.create 0 .noEdge 0 marginContracts leverageContracts notional margin none
    else
      let kellyCapital := fullKellyFraction * params.kellyMultiplier * accountEquity
      let kellyContracts := floorToInt (kellyCapital / notional)
      let base := min (min kellyContracts marginContracts) leverageContracts
      let survivalContracts := if base > 0 then
          returns.map fun rs => survivalCap params bootstrap rs base notional accountEquity seed
        else none
      let contracts := survivalContracts.elim base (min base)
      SizingDecision.create contracts
        (binding kellyContracts marginContracts leverageContracts survivalContracts)
        kellyContracts marginContracts leverageContracts notional margin survivalContracts

/-- `RiskManager()`: default parameters over the static margin table. -/
def RiskManager.default (bootstrap : SurvivalBootstrap) : RiskManager :=
  .base .default (.static contractInitialMargin) bootstrap

end Futur3.Execution
