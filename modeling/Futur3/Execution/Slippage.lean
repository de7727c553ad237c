import Futur3.Execution.Broker
import Futur3.Prelude.Dict

/-! # Slippage models

A model maps an intended fill price to the executed one. The tick haircut moves
the price against the order by a fixed number of ticks.
-/

namespace Futur3.Execution

open Data Prelude

inductive SlippageFailure where
  -- SlippageError: "contract symbol too short to parse root: {symbol}"
  | symbolTooShort (symbol : String)
  -- SlippageError: "no tick size configured for contract root {root} (from {contract}); ..."
  | noTickSize (root : String) (contract : ContractSymbol)
  -- UnknownSlippageBandError: "Unknown FUTUR3_SLIPPAGE_BAND={raw}; expected one of ..."
  | unknownBand (raw : String)
  -- ValueError: "intended_price must be > 0; got {price}"
  | intendedPrice (price : ℚ)
  -- ValueError: "quantity must be > 0; got {quantity}"
  | quantity (quantity : ℤ)
  -- ValueError: "TickHaircutSlippageModel.apply_slippage ts must be IANA-TZ-aware datetime; ..."
  | naive (ts : DateTime)
deriving DecidableEq

/-- `SlippageModel.apply_slippage(intended_price, side, quantity, contract, ts)`. -/
structure SlippageModel where
  applySlippage : ℚ → Side → ℤ → ContractSymbol → DateTime → Except SlippageFailure ℚ

inductive SlippageBand where
  | conservative
  | realistic
  | pessimistic
deriving DecidableEq, Repr

def SlippageBand.ticksPerSide : SlippageBand → ℚ
  | conservative => 2
  | realistic => 1
  | pessimistic => 4

/-- A symbol without its `<month_code><year_2digit>` suffix, when anything is left. -/
def symbolRoot? (contract : ContractSymbol) : Option String :=
  if contract.toList.length ≤ 3 then none
  else some (String.ofList (contract.toList.take (contract.toList.length - 3)))

def contractTickSize : List (String × ℚ) :=
  [("ES", 1 / 4), ("MES", 1 / 4), ("NQ", 1 / 4), ("MNQ", 1 / 4), ("CL", 1 / 100), ("MCL", 1 / 100),
   ("GC", 1 / 10), ("MGC", 1 / 10), ("MBT", 5), ("MET", 1 / 2), ("YM", 1), ("RTY", 1 / 10),
   ("6E", 5 / 100000), ("6A", 5 / 100000), ("ZN", 15625 / 1000000), ("ZB", 3125 / 100000),
   ("6J", 5 / 10000000), ("6B", 1 / 10000), ("6C", 5 / 100000), ("6S", 1 / 10000),
   ("HG", 5 / 10000), ("SI", 5 / 1000), ("ZT", 390625 / 100000000), ("ZF", 78125 / 10000000),
   ("UB", 3125 / 100000), ("NKD", 5)]

def tickSizeFor (contract : ContractSymbol) : Except SlippageFailure ℚ :=
  match symbolRoot? contract with
  | none => throw (.symbolTooShort contract)
  | some root =>
    match Dict.lookup root contractTickSize with
    | some tick => pure tick
    | none => throw (.noTickSize root contract)

/-- The band named by the environment variable, whitespace stripped and upper-cased. -/
def resolveSlippageBand (raw normalized : String) : Except SlippageFailure SlippageBand :=
  match normalized with
  | "CONSERVATIVE" => pure .conservative
  | "REALISTIC" => pure .realistic
  | "PESSIMISTIC" => pure .pessimistic
  | _ => throw (.unknownBand raw)

def SlippageModel.tickHaircut (band : SlippageBand) : SlippageModel where
  applySlippage intendedPrice side quantity contract ts := do
    if intendedPrice ≤ 0 then throw (.intendedPrice intendedPrice)
    if quantity ≤ 0 then throw (.quantity quantity)
    if !ts.isAware then throw (.naive ts)
    let tick ← tickSizeFor contract
    let adjustment := tick * band.ticksPerSide
    pure (if side = .buy then intendedPrice + adjustment else intendedPrice - adjustment)

end Futur3.Execution
