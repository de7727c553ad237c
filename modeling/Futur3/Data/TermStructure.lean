import Futur3.Data.Continuous

/-! # The front/next term structure

At each date of a bar of the active contract, the closes and days to expiry of
that contract and of its successor. The windows are those of the continuous
builder; its helpers `_in_window` and `_close_on_or_before` are repeated there
and shared here.
-/

namespace Futur3.Data

open Prelude ContinuousSeriesBuilder

inductive TermStructureError where
  -- "per_contract_bars is empty (no contract has any bars)"
  | noBars
  -- "contract {contract} does not belong to root {root}"
  | foreignRoot (contract : ContractSymbol) (root : String)
  -- "contract {contract} is not in the roll calendar"
  | untracked (contract : ContractSymbol)
  -- ValueError: "StaticTermStructure.carry_inputs.as_of must be IANA-TZ-aware datetime"
  | naiveAsOf (asOf : DateTime)
deriving DecidableEq

/-- The two legs on one date: the active contract and its roll-cycle successor. -/
@[ext]
structure CarryInputs where
  asOf : Date
  front : ContractSymbol
  back : ContractSymbol
  frontClose : ℚ
  backClose : ℚ
  daysFront : ℤ
  daysBack : ℤ
  closes_pos : 0 < frontClose ∧ 0 < backClose
  days_increasing : 0 < daysFront ∧ daysFront < daysBack

instance : DecidableEq CarryInputs := fun _ _ => decidable_of_iff' _ CarryInputs.ext_iff

/-- `(ltd - day).days`. -/
def daysTo (ltd day : Date) : ℤ := ltd.toOrdinal - day.toOrdinal

/-- A contract with its row of the roll calendar, which has its `roll_target`, `ltd` and `back_of`. -/
abbrev Planned := ContractSymbol × RollCalendarEntry

structure StaticTermStructure where
  root : String
  byDate : Dict Date CarryInputs

namespace StaticTermStructure

def resolve (rollCalendar : RollCalendar) (root : String) :
    List ContractSymbol → Except TermStructureError (List Planned)
  | [] => pure []
  | contract :: rest =>
    if !root.toList.isPrefixOf contract.toList then throw (.foreignRoot contract root)
    else
      match rollCalendar contract with
      | none => throw (.untracked contract)
      | some entry => do
        let plan ← resolve rollCalendar root rest
        pure ((contract, entry) :: plan)

def planChain (plan : List Planned) : List Planned :=
  plan.insertionSort fun a b => a.2.rollTarget ≤ b.2.rollTarget

/-- The last trading day of the successor, which may lie beyond the loaded contracts. -/
def backLtd (rollCalendar : RollCalendar) (plan : List Planned) (back : ContractSymbol) :
    Option Date :=
  match Dict.lookup back plan with
  | some entry => some entry.ltdDate
  | none => (rollCalendar back).map RollCalendarEntry.ltdDate

/-- The observation at one bar of the front contract; `none` is each `continue` of the loop. -/
def observe (backBars : Option (List RawBar)) (backLtd : Option Date) (prevRoll : Option Date)
    (front : Planned) (bar : RawBar) : Option CarryInputs :=
  if inWindow bar.ts.date prevRoll front.2.rollTarget then
    match backBars, backLtd with
    | some backBars, some backLtd =>
      match closeOnOrBefore backBars bar.ts.date with
      | none => none
      | some backClose =>
        if hCloses : 0 < bar.close ∧ 0 < backClose then
          if hDays : 0 < daysTo front.2.ltdDate bar.ts.date ∧
              daysTo front.2.ltdDate bar.ts.date < daysTo backLtd bar.ts.date then
            some { asOf := bar.ts.date, front := front.1, back := front.2.backSymbol
                   frontClose := bar.close, backClose
                   daysFront := daysTo front.2.ltdDate bar.ts.date
                   daysBack := daysTo backLtd bar.ts.date
                   closes_pos := hCloses, days_increasing := hDays }
          else none
        else none
    | _, _ => none
  else none

/-- What the loops over the chain and over the bars of each front contract assign, in turn. -/
def observations (perContractBars : Dict ContractSymbol (List RawBar)) (rollCalendar : RollCalendar)
    (plan : List Planned) : Option Date → List Planned → List CarryInputs
  | _, [] => []
  | prevRoll, front :: rest =>
    (((perContractBars.get? front.1).getD []).filterMap
      (observe (perContractBars.get? front.2.backSymbol)
        (backLtd rollCalendar plan front.2.backSymbol) prevRoll front)) ++
      observations perContractBars rollCalendar plan (some front.2.rollTarget) rest

/-- `index[day] = …` for each observation. -/
def precompute (perContractBars : Dict ContractSymbol (List RawBar)) (rollCalendar : RollCalendar)
    (plan : List Planned) : Dict Date CarryInputs :=
  .ofList ((observations perContractBars rollCalendar plan none (planChain plan)).map
    fun obs => (obs.asOf, obs))

def create (perContractBars : Dict ContractSymbol (List RawBar)) (rollCalendar : RollCalendar)
    (root : String) : Except TermStructureError StaticTermStructure := do
  if present perContractBars = [] then throw .noBars
  let plan ← resolve rollCalendar root (present perContractBars)
  pure { root, byDate := precompute perContractBars rollCalendar plan }

def carryInputs (self : StaticTermStructure) (asOf : DateTime) :
    Except TermStructureError (Option CarryInputs) :=
  if asOf.isAware then pure (self.byDate.get? asOf.date) else throw (.naiveAsOf asOf)

end StaticTermStructure

end Futur3.Data
