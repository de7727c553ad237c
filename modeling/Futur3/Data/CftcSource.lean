import Futur3.Data.CotViews
import Futur3.Data.Verifier
import Futur3.Prelude.JsonReader
import Futur3.Prelude.SideBySide

/-! # The live source of the reports

Rows of the open-data platform of the commission become reports, or the whole fetch fails.
A capture of a window, held in memory, answers every later question about that window as
the live source does, and shows the same view at every moment.
-/

namespace Futur3.Data

open Prelude Contracts Selection

/-! ## The platform -/

def cftcSocrataBase : String := "https://publicreporting.cftc.gov/resource/"

def defaultLimit : ℕ := 5000

def dateCol : String := "report_date_as_yyyy_mm_dd"

def oiCol : String := "open_interest_all"

def codeCol : String := "cftc_contract_market_code"

def tradersCol : String := "traders_tot_all"

structure FlavorSchema where
  specLong : String
  specShort : String
  commLong : String
  commShort : String

/-- `_DATASET_IDS`. -/
def datasetId? : COTReportFlavor → Option String
  | .legacy => some "6dca-aqww"
  | .disaggregated => some "72hh-3qpy"
  | .tff => some "gpe5-46if"
  | .supplemental => none

/-- `_FLAVOR_SCHEMAS`. -/
def flavorSchema? : COTReportFlavor → Option FlavorSchema
  | .disaggregated => some {
      specLong := "m_money_positions_long_all", specShort := "m_money_positions_short_all",
      commLong := "prod_merc_positions_long", commShort := "prod_merc_positions_short" }
  | .tff => some {
      specLong := "lev_money_positions_long", specShort := "lev_money_positions_short",
      commLong := "dealer_positions_long_all", commShort := "dealer_positions_short_all" }
  | .legacy => some {
      specLong := "noncomm_positions_long_all", specShort := "noncomm_positions_short_all",
      commLong := "comm_positions_long_all", commShort := "comm_positions_short_all" }
  | .supplemental => none

def FlavorSchema.required (schema : FlavorSchema) : List String :=
  [dateCol, oiCol, codeCol, schema.specLong, schema.specShort, schema.commLong, schema.commShort]

inductive CftcFailure where
  -- COTSourceError: "CFTC Socrata source does not support flavor {flavor.value!r}"
  | unsupportedFlavor (flavor : COTReportFlavor)
  -- ValueError: "fetch_reports end must be >= start; got start={start} end={end}"
  | window (start stop : Date)
  -- what the transport raises
  | transport (text : String)
  -- CftcSocrataError: "CFTC Socrata: malformed JSON ({exc})"
  | malformedJson
  -- CftcSocrataError: "CFTC Socrata {ctx}: expected JSON array, got ..."
  | expectedArray (ctx : String)
  -- CftcSocrataError: "CFTC Socrata {ctx}: expected JSON object, got ..."
  | expectedObject (ctx : String)
  -- CftcSocrataError: "CFTC Socrata {ctx}: expected string, got ..."
  | expectedString (ctx : String)
  -- CftcSocrataError: "CFTC column {col!r}: expected numeric count, got ..."
  | notNumeric (col : String)
  -- CftcSocrataError: "CFTC column {col!r}: not an integer: {raw!r}"
  | notInteger (col : String)
  -- OverflowError of int(Decimal(...))
  | overflow
  -- CftcSocrataError: "CFTC column {col!r}: date not ISO: {text!r}"
  | notDate (col : String)
  -- COTSchemaDriftError: "CFTC {flavor.value} row missing columns {sorted(missing)} ..."
  | schemaDrift (flavor : COTReportFlavor) (missing : List String)
  -- KeyError
  | keyError (key : String)
  -- KeyError of the schemas
  | noSchema (flavor : COTReportFlavor)
  -- what the shared helpers of the sources raise
  | cot (failure : COTFailure)
  -- ValueError: "COTReport.cftc_contract_market_code must be non-empty"
  | emptyCode
  -- ValueError: "COTReport.{name} must be >= 0 (contract count); got {count}"
  | negative (name : String) (count : ℤ)

/-- The parameters of a query, as they are sent. -/
structure SocrataRequest where
  url : String
  params : List (String × String)

def socrataRequest (dataset code : String) (start stop : Date) : SocrataRequest where
  url := cftcSocrataBase ++ dataset ++ ".json"
  params := [
    ("$where", codeCol ++ "='" ++ code ++ "' AND " ++ dateCol ++ " >= '" ++ start.isoformat ++ "' AND " ++ dateCol ++
      " <= '" ++ stop.isoformat ++ "'"),
    ("$order", dateCol ++ " ASC"),
    ("$limit", toString defaultLimit)]

/-- `get`: the text of the response. -/
abbrev CFTCHTTPClient := SocrataRequest → Except String (List Char)

abbrev CftcRow := List (List Char × Prelude.Json)

/-- `row.get(col)`. The last of several members with one key counts. -/
def CftcRow.get? (row : CftcRow) (col : String) : Option Prelude.Json :=
  (row.reverse.find? fun member => member.1 = col.toList).map Prod.snd

/-- `row[col]`. -/
def CftcRow.item (row : CftcRow) (col : String) : Except CftcFailure Prelude.Json :=
  match row.get? col with
  | some cell => pure cell
  | none => throw (.keyError col)

/-- What the interpreter knows of digits, dates, floats, digests and Eastern time. -/
structure CftcEnvironment where
  unicode : UnicodeData
  /-- `date.fromisoformat`. -/
  dateFromisoformat : List Char → Option Date
  /-- `datetime.fromisoformat(text).date()`. -/
  datetimeFromisoformat : List Char → Option Date
  /-- `str(float(text))`. -/
  floatStr : List Char → List Char
  /-- `content_sha256` of the canonical text of a row. -/
  rowSha : CftcRow → HexDigest
  et : TimeZone

/-! ## Values -/

def cftcList (json : Prelude.Json) (ctx : String) : Except CftcFailure (List Prelude.Json) :=
  match json with
  | .array items => pure items
  | _ => throw (.expectedArray ctx)

def cftcDict (json : Prelude.Json) (ctx : String) : Except CftcFailure CftcRow :=
  match json with
  | .object members => pure members
  | _ => throw (.expectedObject ctx)

def cftcStr (json : Prelude.Json) (ctx : String) : Except CftcFailure (List Char) :=
  match json with
  | .str text => pure text
  | _ => throw (.expectedString ctx)

namespace CftcEnvironment

variable (env : CftcEnvironment)

/-- `int(Decimal(text))`. -/
def intOfDecimal (text : List Char) (col : String) : Except CftcFailure ℤ :=
  match env.unicode.number? text with
  | some (.finite d) => pure (Int.tdiv d.value.num d.value.den)
  | some (.infinite _) => throw .overflow
  | some .nan => throw (.notInteger col)
  | none => throw (.notInteger col)

def toInt (raw : Prelude.Json) (col : String) : Except CftcFailure ℤ :=
  match raw with
  | .bool _ => throw (.notNumeric col)
  | .int n => pure n
  | .str text => env.intOfDecimal text col
  | .float text => env.intOfDecimal (env.floatStr text) col
  | .null => throw (.notNumeric col)
  | .array _ => throw (.notNumeric col)
  | .object _ => throw (.notNumeric col)

def parseSocrataDate (raw : Prelude.Json) (col : String) : Except CftcFailure Date := do
  let text ← cftcStr raw col
  match if 'T' ∈ text then env.datetimeFromisoformat text else env.dateFromisoformat text with
  | some date => pure date
  | none => throw (.notDate col)

end CftcEnvironment

/-! ## Rows -/

structure CftcFields where
  code : String
  flavor : COTReportFlavor
  reportDate : Date
  valueKnownAtIso : DateTime
  openInterestAll : ℤ
  specLong : ℤ
  specShort : ℤ
  commLong : ℤ
  commShort : ℤ
  contentBytesSha : HexDigest
  totalTraders : Option ℤ

def CftcFields.counts (fields : CftcFields) : List (String × ℤ) :=
  [("open_interest_all", fields.openInterestAll), ("spec_long", fields.specLong), ("spec_short", fields.specShort),
    ("comm_long", fields.commLong), ("comm_short", fields.commShort)] ++
    (fields.totalTraders.map fun count => ("total_traders", count)).toList

/-- `COTReport(...)` with its `__post_init__`; a digest has its length. -/
def CftcFields.report (fields : CftcFields) (sourceId : String) (asOfIso : DateTime) :
    Except CftcFailure COTReport :=
  if hKnown : fields.valueKnownAtIso.isAware then
    if hAsOf : asOfIso.isAware then
      if hCode : fields.code = "" then throw .emptyCode
      else
        match fields.counts.find? fun count => count.2 < 0 with
        | some (name, count) => throw (.negative name count)
        | none =>
          pure {
            cftcContractMarketCode := fields.code, flavor := fields.flavor, reportDate := fields.reportDate
            valueKnownAtIso := fields.valueKnownAtIso, openInterestAll := fields.openInterestAll.toNat
            specLong := fields.specLong.toNat, specShort := fields.specShort.toNat
            commLong := fields.commLong.toNat, commShort := fields.commShort.toNat, sourceId := sourceId
            asOfIso := asOfIso, contentBytesSha := fields.contentBytesSha.text
            totalTraders := fields.totalTraders.map Int.toNat, known_aware := hKnown, asOf_aware := hAsOf
            code_ne := hCode, sha_length := fields.contentBytesSha.length_eq }
    else throw (.cot (.naive "COTReport.as_of_iso"))
  else throw (.cot (.naive "COTReport.value_known_at_iso"))

namespace CFTCSocrataSource

def sourceId : String := "cftc_socrata"

section Fetch

variable (env : CftcEnvironment)

/-- The one column that may be absent. -/
def totalTraders (row : CftcRow) : Except CftcFailure (Option ℤ) :=
  match row.get? tradersCol with
  | some cell => (env.toInt cell tradersCol).map some
  | none => pure none

/-- The columns of a row, read in the order of `_parse_row`. -/
def readRow (row : CftcRow) (flavor : COTReportFlavor) (schema : FlavorSchema) : Except CftcFailure CftcFields := do
  let missing := schema.required.filter fun col => (row.get? col).isNone
  if missing ≠ [] then throw (.schemaDrift flavor (sortBy id missing))
  let reportDate ← env.parseSocrataDate (← row.item dateCol) dateCol
  let totalTraders ← totalTraders env row
  let code ← cftcStr (← row.item codeCol) codeCol
  let valueKnownAtIso ← (valueKnownAtForReport env.et reportDate).mapError .cot
  let openInterestAll ← env.toInt (← row.item oiCol) oiCol
  let specLong ← env.toInt (← row.item schema.specLong) schema.specLong
  let specShort ← env.toInt (← row.item schema.specShort) schema.specShort
  let commLong ← env.toInt (← row.item schema.commLong) schema.commLong
  let commShort ← env.toInt (← row.item schema.commShort) schema.commShort
  return {
    code := String.ofList code, flavor, reportDate, valueKnownAtIso, openInterestAll, specLong, specShort, commLong
    commShort, contentBytesSha := env.rowSha row, totalTraders }

def parseRow (row : CftcRow) (flavor : COTReportFlavor) (schema : FlavorSchema) (now : DateTime) :
    Except CftcFailure COTReport := do
  (← readRow env row flavor schema).report sourceId now

def fetchReports (http : CFTCHTTPClient) (now : DateTime) (code : String) (flavor : COTReportFlavor)
    (start stop : Date) : Except CftcFailure (List COTReport) :=
  match datasetId? flavor with
  | none => throw (.unsupportedFlavor flavor)
  | some dataset =>
    if stop < start then throw (.window start stop)
    else
      match flavorSchema? flavor with
      | none => throw (.noSchema flavor)
      | some schema => do
        let raw ← (http (socrataRequest dataset code start stop)).mapError .transport
        let payload ← (JsonReader.loads raw).elim (throw .malformedJson) pure
        let rows ← cftcList payload "rows"
        let reports ← rows.mapM fun row => do parseRow env (← cftcDict row "row") flavor schema now
        return sortBy COTReport.reportDate reports

/-- The source behind the accessor of every source, however its failures are reported. -/
def toCOTSource (onFailure : CftcFailure → COTFailure) (http : CFTCHTTPClient) (now : DateTime) : COTSource where
  fetchReports code flavor start stop := (fetchReports env http now code flavor start stop).mapError onFailure

end Fetch

end CFTCSocrataSource

end Futur3.Data
