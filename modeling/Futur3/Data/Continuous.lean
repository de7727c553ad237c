import Futur3.Data.Types
import Futur3.Prelude.Dict
import Futur3.Prelude.Method
import Mathlib.Data.List.Sort

/-! # The unadjusted continuous contract

Each contract is active from the previous contract's roll target up to its own.
The builder splices the active bars in roll order and records one roll event at
every change of contract.
-/

namespace Futur3.Data

open Prelude

inductive ContinuousSeriesError where
  -- "per_contract_bars is empty (no contract has any bars)"
  | noBars
  -- "contract {contract} does not belong to root {root}"
  | foreignRoot (contract : ContractSymbol) (root : String)
  -- "contract {contract} is not in the roll calendar"
  | untracked (contract : ContractSymbol)
  -- "no bars fell inside any contract's active window for root {root}"
  | emptyWindows (root : String)
  -- "{front} has no bar on/before roll date {date}"
  | noFrontBar (front : ContractSymbol) (rollDate : Date)
  -- "{back} has no bar on/after roll date {date}"
  | noBackBar (back : ContractSymbol) (rollDate : Date)
  -- KeyError of `roll_target[contract]` and `per_contract_bars[contract]`
  | keyError (contract : ContractSymbol)
  -- "ContinuousSeries has no bars"
  | seriesEmpty
  -- "bars/roll_flags length mismatch: {bars} != {flags}"
  | flagsLength (bars flags : ℕ)
  -- "roll_flags[0] must be False (first bar starts no roll)"
  | firstFlag
  -- "roll_flags True={flags} != roll_events={events}"
  | eventsLength (flags events : ℕ)
  -- "bars must be strictly increasing in ts; got {prev} >= {cur}"
  | notIncreasing
  -- "asof {asof} precedes the first bar {first}"
  | precedesFirst (asOf first : Date)
deriving DecidableEq

/-- The active contract switches on `rollDate`; the settles are the two closes of that roll. -/
structure RollEvent where
  rollDate : Date
  oldContract : ContractSymbol
  newContract : ContractSymbol
  frontSettle : ℚ
  backSettle : ℚ
  rollGap : ℚ
  gap_eq : rollGap = backSettle - frontSettle
deriving DecidableEq

/-- A row of the roll calendar: `roll_target <= roll_deadline <= ltd_date`. -/
structure RollCalendarEntry where
  frontSymbol : String
  backSymbol : String
  ltdDate : Date
  rollTarget : Date
  rollDeadline : Date
  regime : String := "RTH"
  /-- First notice day, of physically deliverable contracts only. -/
  fndDate : Option Date := none
  target_le : rollTarget ≤ rollDeadline
  deadline_le : rollDeadline ≤ ltdDate

abbrev RollCalendar := ContractSymbol → Option RollCalendarEntry

/-- `StaticRollCalendar`, keyed by front symbol. -/
def staticRollCalendar (entries : List RollCalendarEntry) : RollCalendar :=
  (Dict.ofList (entries.map fun e => (e.frontSymbol, e))).get?

structure ContinuousSeries where
  root : String
  bars : List RawBar
  rollEvents : List RollEvent
  rollFlags : List Bool
  bars_ne_nil : bars ≠ []
  flags_length : bars.length = rollFlags.length
  first_flag : rollFlags.head? ≠ some true
  events_length : rollFlags.count true = rollEvents.length
  increasing : bars.IsChain fun prev cur => prev.ts.instant < cur.ts.instant

def ContinuousSeries.create (root : String) (bars : List RawBar) (rollEvents : List RollEvent)
    (rollFlags : List Bool) : Except ContinuousSeriesError ContinuousSeries :=
  if hBars : bars = [] then throw .seriesEmpty
  else if hFlags : bars.length ≠ rollFlags.length then
    throw (.flagsLength bars.length rollFlags.length)
  else if hFirst : rollFlags.head? = some true then throw .firstFlag
  else if hEvents : rollFlags.count true ≠ rollEvents.length then
    throw (.eventsLength (rollFlags.count true) rollEvents.length)
  else if hIncreasing : bars.IsChain fun prev cur => prev.ts.instant < cur.ts.instant then
    pure { root, bars, rollEvents, rollFlags
           bars_ne_nil := hBars
           flags_length := not_not.mp hFlags
           first_flag := hFirst
           events_length := not_not.mp hEvents
           increasing := hIncreasing }
  else throw .notIncreasing

/-- The loop of `current_contract`: it stops at the first bar dated after `asOf`. -/
def activeAt (asOf : Date) : Option ContractSymbol → List RawBar → Option ContractSymbol
  | active, [] => active
  | active, bar :: rest =>
    if asOf < bar.ts.date then active else activeAt asOf (some bar.contract) rest

def ContinuousSeries.currentContract (series : ContinuousSeries) (asOf : Date) :
    Except ContinuousSeriesError ContractSymbol :=
  match activeAt asOf none series.bars with
  | some contract => pure contract
  | none => throw (.precedesFirst asOf (series.bars.head series.bars_ne_nil).ts.date)

namespace ContinuousSeriesBuilder

def inWindow (day : Date) (start : Option Date) (stop : Date) : Bool :=
  start.all (fun s => s ≤ day) && day < stop

def window (bars : List RawBar) (start : Option Date) (stop : Date) : List RawBar :=
  (bars.filter fun bar => inWindow bar.ts.date start stop).insertionSort
    fun a b => a.ts.instant ≤ b.ts.instant

/-- The latest bar dated on or before the target, the first of them on a tie. -/
def closeOnOrBefore (bars : List RawBar) (target : Date) : Option ℚ :=
  (bars.foldl (fun (best : Option RawBar) bar =>
    if bar.ts.date ≤ target ∧ best.all (fun b => b.ts.date < bar.ts.date) then some bar else best)
    none).map RawBar.close

/-- The earliest bar dated on or after the target, the first of them on a tie. -/
def closeOnOrAfter (bars : List RawBar) (target : Date) : Option ℚ :=
  (bars.foldl (fun (best : Option RawBar) bar =>
    if target ≤ bar.ts.date ∧ best.all (fun b => bar.ts.date < b.ts.date) then some bar else best)
    none).map RawBar.close

/-- `d[key]`, raising `KeyError`. -/
def index {ν : Type} (items : List (ContractSymbol × ν)) (key : ContractSymbol) :
    Except ContinuousSeriesError ν :=
  match Dict.lookup key items with
  | some v => pure v
  | none => throw (.keyError key)

def makeRollEvent (front back : ContractSymbol) (rollTarget : List (ContractSymbol × Date))
    (perContractBars : Dict ContractSymbol (List RawBar)) :
    Except ContinuousSeriesError RollEvent := do
  let rollDate ← index rollTarget front
  let frontBars ← index perContractBars.items front
  let backBars ← index perContractBars.items back
  match closeOnOrBefore frontBars rollDate, closeOnOrAfter backBars rollDate with
  | none, _ => throw (.noFrontBar front rollDate)
  | some _, none => throw (.noBackBar back rollDate)
  | some frontSettle, some backSettle =>
    pure { rollDate, oldContract := front, newContract := back, frontSettle, backSettle
           rollGap := backSettle - frontSettle, gap_eq := rfl }

def rollTargets (rollCalendar : RollCalendar) :
    List ContractSymbol → Except ContinuousSeriesError (List (ContractSymbol × Date))
  | [] => pure []
  | contract :: rest =>
    match rollCalendar contract with
    | none => throw (.untracked contract)
    | some entry => do
      let targets ← rollTargets rollCalendar rest
      pure ((contract, entry.rollTarget) :: targets)

/-- The active bars of the chain, the first window starting at `prevRoll`. -/
def splice (perContractBars : Dict ContractSymbol (List RawBar)) :
    Option Date → List (ContractSymbol × Date) → List RawBar
  | _, [] => []
  | prevRoll, (contract, windowEnd) :: rest =>
    window ((perContractBars.get? contract).getD []) prevRoll windowEnd ++
      splice perContractBars (some windowEnd) rest

/-- The flags and roll events of the bars that follow `prev`. -/
def transitions (rollTarget : List (ContractSymbol × Date))
    (perContractBars : Dict ContractSymbol (List RawBar)) :
    RawBar → List RawBar → Except ContinuousSeriesError (List Bool × List RollEvent)
  | _, [] => pure ([], [])
  | prev, bar :: rest =>
    if bar.contract ≠ prev.contract then do
      let event ← makeRollEvent prev.contract bar.contract rollTarget perContractBars
      let (flags, events) ← transitions rollTarget perContractBars bar rest
      pure (true :: flags, event :: events)
    else do
      let (flags, events) ← transitions rollTarget perContractBars bar rest
      pure (false :: flags, events)

def present (perContractBars : Dict ContractSymbol (List RawBar)) : List ContractSymbol :=
  (perContractBars.items.filter fun p => p.2 ≠ []).map Prod.fst

def chain (rollTarget : List (ContractSymbol × Date)) : List (ContractSymbol × Date) :=
  rollTarget.insertionSort fun a b => a.2 ≤ b.2

def build (perContractBars : Dict ContractSymbol (List RawBar)) (rollCalendar : RollCalendar)
    (root : String) : Except ContinuousSeriesError ContinuousSeries := do
  if present perContractBars = [] then throw .noBars
  match (present perContractBars).find? fun c => !root.toList.isPrefixOf c.toList with
  | some contract => throw (.foreignRoot contract root)
  | none =>
    let rollTarget ← rollTargets rollCalendar (present perContractBars)
    match splice perContractBars none (chain rollTarget) with
    | [] => throw (.emptyWindows root)
    | first :: rest =>
      let (flags, events) ← transitions rollTarget perContractBars first rest
      ContinuousSeries.create root (first :: rest) events (false :: flags)

end ContinuousSeriesBuilder

end Futur3.Data
