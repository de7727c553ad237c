import Futur3.Data.Verifier
import Futur3.Prelude.Numerals

/-! # The settlement page of the exchange

A table with nine columns, one row a contract month. Cells are texts: a
placeholder is no value, anything else must read as a number. A row without a
settle is skipped, its other missing prices are the settle.
-/

namespace Futur3.Data

open Prelude

inductive PageError where
  -- MalformedSettlementPage: "no <table> element found for {contract_root}"
  | noTable (contractRoot : String)
  -- MalformedSettlementPage: "no <thead> in settlement table for {contract_root}"
  | noThead (contractRoot : String)
  -- MalformedSettlementPage: "no header <tr> in settlement table for {contract_root}"
  | noHeaderRow (contractRoot : String)
  -- SchemaMismatch: "column headers {headers!r} != expected ... for {contract_root}. ..."
  | schemaMismatch (headers : List String) (contractRoot : String)
  -- MalformedSettlementPage: "no <tbody> in settlement table for {contract_root}"
  | noTbody (contractRoot : String)
  -- MalformedSettlementPage: "empty <tbody> — no settlement data for {contract_root}"
  | emptyTbody (contractRoot : String)
  -- MalformedSettlementPage: "row {row_idx} has {len(cells)} cells; expected 9 for {contract_root}"
  | cellCount (rowIdx count : ℕ) (contractRoot : String)
  -- MalformedSettlementPage: "cannot parse month display {display!r}; expected '<MMM> <YY>'"
  | monthDisplay (display : String)
  -- MalformedSettlementPage: "unknown month name {month_name!r} in {display!r}; valid: ..."
  | monthName (monthName display : String)
  -- MalformedSettlementPage: "cannot parse year {year_str!r} in {display!r}; expected 2 digits"
  | year (yearStr display : String)
  -- MalformedSettlementPage: "cannot parse {raw!r} as Decimal: {e}"
  | decimal (raw : String)
  -- MalformedSettlementPage: "cannot parse {raw!r} as int: {e}"
  | int (raw : String)
  -- ValueError of int(year_str)
  | yearValue (yearStr : String)
  -- InvalidOperation of a comparison with NaN
  | invalidOperation
  -- ValueErrors of Settle.__post_init__
  | naiveAsOf
  | highBelowLow
  | negativeVolume (volumeEst : ℤ)
  | negativeOi (oiPrior : ℤ)

/-- The exceptions derived from `DataSourceError`. -/
def PageError.isDataSourceError : PageError → Bool
  | .yearValue _ | .invalidOperation | .naiveAsOf | .highBelowLow | .negativeVolume _
  | .negativeOi _ => false
  | _ => true

/-- `Settle` as a page has it: its prices may be no finite numbers. -/
structure PageSettle where
  contract : ContractSymbol
  asOfDate : Date
  settle : Number
  settleState : SettleState
  openPrice : Number
  high : Number
  low : Number
  last : Number
  change : Number
  volumeEst : ℤ
  oiPrior : ℤ
  sourceId : String
  asOfIso : DateTime
  contentBytesSha : HexDigest
  cmeMonthCode : String
  as_of_aware : asOfIso.isAware
  range : high.lt? low = some false
  volume_nonneg : 0 ≤ volumeEst
  oi_nonneg : 0 ≤ oiPrior

/-- What the parser finds of the table: each part may be missing. -/
structure SettlementTable where
  /-- The texts of the header cells, when there is a head and a row in it. -/
  thead : Option (Option (List String))
  /-- The texts of the cells, row by row. -/
  tbody : Option (List (List String))

structure RowCells where
  month : String
  openPrice : String
  high : String
  low : String
  last : String
  change : String
  settle : String
  volume : String
  oiPrior : String

structure PricedRow where
  contract : ContractSymbol
  monthCode : String
  settle : Number
  openPrice : Number
  high : Number
  low : Number
  last : Number
  change : Number
  volume : ℤ
  oiPrior : ℤ

namespace CMEEODDataSource

def sourceId : String := "cme_public_settlements"

def expectedColumnHeaders : List String :=
  ["Month", "Open", "High", "Low", "Last", "Change", "Settle", "Est. Volume", "Prior Day OI"]

def monthNameToCode : Dict String String := .ofList [
  ("JAN", "F"), ("FEB", "G"), ("MAR", "H"), ("APR", "J"), ("MAY", "K"), ("JUN", "M"),
  ("JUL", "N"), ("AUG", "Q"), ("SEP", "U"), ("OCT", "V"), ("NOV", "X"), ("DEC", "Z")]

def placeholderValues : List (List Char) :=
  ["---".toList, "--".toList, "".toList, "-".toList, "n/a".toList, "N/A".toList]

def yearDigitCount : ℕ := 2

def computeSchemaSignature (sha256 : String → HexDigest) (headers : List String) : HexDigest :=
  sha256 (String.ofList (JsonText.array (headers.map fun header => JsonText.quote header.toList)))

variable (U : UnicodeData)

def parseMonthDisplay (display : String) : Except PageError (String × ℤ) :=
  match words ((strip display.toList).flatMap U.upper) with
  | [monthName, yearStr] =>
    match monthNameToCode.get? (String.ofList monthName) with
    | none => throw (.monthName (String.ofList monthName) display)
    | some code =>
      if yearStr.all U.isDigit ∧ yearStr.length = yearDigitCount then
        match U.int? yearStr with
        | some year => pure (code, year)
        | none => throw (.yearValue (String.ofList yearStr))
      else throw (.year (String.ofList yearStr) display)
  | _ => throw (.monthDisplay display)

def withoutPlus : List Char → List Char
  | '+' :: rest => rest
  | text => text

def parseDecimal (raw : String) : Except PageError (Option Number) :=
  let s := strip raw.toList
  if s ∈ placeholderValues then pure none
  else
    match U.number? (withoutPlus (s.filter (· ≠ ','))) with
    | some n => pure (some n)
    | none => throw (.decimal raw)

def parseInt (raw : String) : Except PageError (Option ℤ) :=
  let s := strip raw.toList
  if s ∈ placeholderValues then pure none
  else
    match U.int? (s.filter (· ≠ ',')) with
    | some n => pure (some n)
    | none => throw (.int raw)

/-- The first half of `_build_settle`: what the cells read as; none is a row to be skipped. -/
def readRow (contractRoot : String) (cells : RowCells) : Except PageError (Option PricedRow) := do
  let (monthCode, year2dig) ← parseMonthDisplay U cells.month
  let contract := contractRoot ++ monthCode ++ String.ofList (zeroPadded 2 year2dig.toNat)
  match ← parseDecimal U cells.settle with
  | none => return none
  | some settle =>
    let openValue ← parseDecimal U cells.openPrice
    let highValue ← parseDecimal U cells.high
    let lowValue ← parseDecimal U cells.low
    let lastValue ← parseDecimal U cells.last
    let changeValue ← parseDecimal U cells.change
    let volumeValue ← parseInt U cells.volume
    let oiPriorValue ← parseInt U cells.oiPrior
    return some {
      contract
      monthCode
      settle
      openPrice := openValue.getD settle
      high := highValue.getD settle
      low := lowValue.getD settle
      last := lastValue.getD settle
      change := changeValue.getD (.finite ⟨false, 0, 0⟩)
      volume := volumeValue.getD 0
      oiPrior := oiPriorValue.getD 0 }

/-- The second half: `Settle(...)` with its `__post_init__`. -/
def settleOf (sha256 : String → HexDigest) (contentSha : HexDigest) (asOfIso : DateTime)
    (asOfDate : Date) (settleState : SettleState) (row : PricedRow) :
    Except PageError PageSettle :=
  if hAsOf : asOfIso.isAware then
    match hRange : row.high.lt? row.low with
    | none => throw .invalidOperation
    | some true => throw .highBelowLow
    | some false =>
      if hVolume : 0 ≤ row.volume then
        if hOi : 0 ≤ row.oiPrior then
          pure ⟨row.contract, asOfDate, row.settle, settleState, row.openPrice, row.high, row.low,
            row.last, row.change, row.volume, row.oiPrior, sourceId, asOfIso,
            sha256 (contentSha.text ++ "||" ++ row.contract), row.monthCode, hAsOf, hRange, hVolume,
            hOi⟩
        else throw (.negativeOi row.oiPrior)
      else throw (.negativeVolume row.volume)
  else throw .naiveAsOf

def cellsOf? : List String → Option RowCells
  | [month, openPrice, high, low, last, change, settle, volume, oiPrior] =>
    some ⟨month, openPrice, high, low, last, change, settle, volume, oiPrior⟩
  | _ => none

structure PageContext where
  contractRoot : String
  contentSha : HexDigest
  asOfIso : DateTime
  asOfDate : Date
  /-- What `_detect_settle_state` makes of the page. -/
  settleState : SettleState

def parseRows (sha256 : String → HexDigest) (page : PageContext) :
    ℕ → List (List String) → Except PageError (List PageSettle)
  | _, [] => pure []
  | rowIdx, row :: rows =>
    match cellsOf? row with
    | none => throw (.cellCount rowIdx row.length page.contractRoot)
    | some cells => do
      match ← readRow U page.contractRoot cells with
      | none => parseRows sha256 page (rowIdx + 1) rows
      | some priced =>
        let settle ← settleOf sha256 page.contentSha page.asOfIso page.asOfDate page.settleState priced
        let results ← parseRows sha256 page (rowIdx + 1) rows
        return settle :: results

/-- `_parse_settlement_page` of the table that the page has, if it has one. -/
def parseSettlementPage (sha256 : String → HexDigest) (page : PageContext)
    (table : Option SettlementTable) : Except PageError (List PageSettle) :=
  match table with
  | none => throw (.noTable page.contractRoot)
  | some table =>
    match table.thead with
    | none => throw (.noThead page.contractRoot)
    | some none => throw (.noHeaderRow page.contractRoot)
    | some (some headers) =>
      if computeSchemaSignature sha256 headers ≠ computeSchemaSignature sha256 expectedColumnHeaders then
        throw (.schemaMismatch headers page.contractRoot)
      else
        match table.tbody with
        | none => throw (.noTbody page.contractRoot)
        | some [] => throw (.emptyTbody page.contractRoot)
        | some rows => parseRows U sha256 page 0 rows

end CMEEODDataSource

end Futur3.Data
