import Futur3.Data.Brr
import Futur3.Prelude.Numerals

/-! # Macro releases from two publishers

The value of a release event, from the vintages of FRED or the latest prints of
BLS. The event names a series and a month; the sources ask for the series and
take the newest observation that has a value, if it was known at the time.
-/

namespace Futur3.Data

open Prelude

/-! ## Series -/

inductive MacroSeries where
  | nfp
  | cpi
  | ppi
  | gdpAdvance
  | gdpSecond
  | gdpThird
  | pce
  | retailSales
  | housingStarts
  | joblessClaims
  | ismMfg
  | ismServices
  | jolts
  | consumerConf
  | fomcStatement
  | fomcPressConf
  | fomcMinutes
  | beigeBook
deriving DecidableEq

namespace MacroSeries

def value : MacroSeries → String
  | nfp => "NFP"
  | cpi => "CPI"
  | ppi => "PPI"
  | gdpAdvance => "GDP_ADVANCE"
  | gdpSecond => "GDP_SECOND"
  | gdpThird => "GDP_THIRD"
  | pce => "PCE"
  | retailSales => "RETAIL_SALES"
  | housingStarts => "HOUSING_STARTS"
  | joblessClaims => "JOBLESS_CLAIMS"
  | ismMfg => "ISM_MFG"
  | ismServices => "ISM_SERVICES"
  | jolts => "JOLTS"
  | consumerConf => "CONSUMER_CONF"
  | fomcStatement => "FOMC_STATEMENT"
  | fomcPressConf => "FOMC_PRESS_CONF"
  | fomcMinutes => "FOMC_MINUTES"
  | beigeBook => "BEIGE_BOOK"

def all : List MacroSeries := [nfp, cpi, ppi, gdpAdvance, gdpSecond, gdpThird, pce, retailSales,
  housingStarts, joblessClaims, ismMfg, ismServices, jolts, consumerConf, fomcStatement,
  fomcPressConf, fomcMinutes, beigeBook]

/-- `RELEASE_TIME_ET`, in minutes of the day. -/
def releaseMinutes : MacroSeries → ℕ
  | ismMfg | ismServices | jolts | consumerConf => 600
  | fomcStatement | fomcMinutes | beigeBook => 840
  | fomcPressConf => 870
  | _ => 510

def releaseTimeEt (series : MacroSeries) : ℕ := 60000000 * series.releaseMinutes

theorem releaseTimeEt_lt (series : MacroSeries) : series.releaseTimeEt < dayMicros := by
  cases series <;> decide

end MacroSeries

/-- `_SERIES_BY_LENGTH`: the longest values first. -/
def seriesByLength : List MacroSeries :=
  Selection.sortBy (fun series => -(series.value.length : ℤ)) MacroSeries.all

def seriesFromEventId (eventId : String) : Option MacroSeries :=
  seriesByLength.find? fun series =>
    eventId = series.value || (series.value ++ "_").toList.isPrefixOf eventId.toList

/-! ## Values -/

inductive MacroError where
  -- ValueError: "{field} must be TZ-aware ..."
  | naive (field : String)
  -- what the transport raises
  | transport (text : String)
  -- MacroSourceError: "{ctx}: malformed JSON ({exc})"
  | malformedJson (ctx : String)
  -- MacroSourceError: "{ctx}: expected JSON object, got ..."
  | expectedObject (ctx : String)
  -- MacroSourceError: "{ctx}: expected JSON array, got ..."
  | expectedArray (ctx : String)
  -- MacroSourceError: "{ctx}: expected string, got ..."
  | expectedString (ctx : String)
  -- MacroSourceError: "{ctx}: value not parseable as Decimal: {raw_value!r}"
  | notDecimal (ctx rawValue : String)
  -- MacroSourceError: "{ctx}: value not finite: {raw_value!r}"
  | notFinite (ctx rawValue : String)
  -- MacroSourceError: "{ctx}: date not ISO YYYY-MM-DD: {raw_date!r}"
  | notDate (ctx rawDate : String)
  -- BlsMacroError: "BLS request not succeeded: status={status!r} message=..."
  | notSucceeded
  -- BlsMacroError: "BLS data.year not numeric: {year_str!r}"
  | yearNotNumeric (yearStr : String)
  -- ValueError of int(...) or date(...)
  | value
  -- OverflowError of astimezone or date(...)
  | overflow

/-- A published value: neither a missing one nor one that a shutdown voided. -/
structure MacroValue where
  eventId : String
  series : MacroSeries
  asOfDate : Date
  valueKnownAtIso : DateTime
  sourceId : String
  asOfIso : DateTime
  contentBytesSha : HexDigest
  value : Decimal
  vintageAsOf : Option Date
  known_aware : valueKnownAtIso.isAware
  as_of_aware : asOfIso.isAware

/-- `MacroValue(...)` with its `__post_init__`; a resolved event id is not empty. -/
def macroValue (eventId : String) (series : MacroSeries) (asOfDate : Date)
    (valueKnownAtIso : DateTime) (sourceId : String) (asOfIso : DateTime) (digest : HexDigest)
    (value : Decimal) (vintageAsOf : Option Date) : Except MacroError MacroValue :=
  if hKnown : valueKnownAtIso.isAware then
    if hAsOf : asOfIso.isAware then
      pure ⟨eventId, series, asOfDate, valueKnownAtIso, sourceId, asOfIso, digest, value, vintageAsOf,
        hKnown, hAsOf⟩
    else throw (.naive "MacroValue.as_of_iso")
  else throw (.naive "MacroValue.value_known_at_iso")

def enforcePitGate (mv : MacroValue) (asOfIso : DateTime) : Option MacroValue :=
  if asOfIso.instant < mv.valueKnownAtIso.instant then none else some mv

/-! ## Responses -/

/-- Decoded JSON; booleans and numbers are not told apart. -/
inductive Json where
  | null
  | scalar
  | str (text : String)
  | list (items : List Json)
  | dict (entries : List (String × Json))

abbrev Entries := List (String × Json)

def Entries.get (entries : Entries) (key : String) : Json := (Dict.lookup key entries).getD .null

/-- The bytes of a response: what they decode to, if they are JSON, and their digest. -/
structure Reply where
  payload : Option Json
  sha : HexDigest

def received (response : Except String Reply) : Except MacroError Reply :=
  match response with
  | .ok reply => pure reply
  | .error text => throw (.transport text)

def asObj (payload : Option Json) (ctx : String) : Except MacroError Entries :=
  match payload with
  | none => throw (.malformedJson ctx)
  | some (.dict entries) => pure entries
  | some _ => throw (.expectedObject ctx)

def asDict (json : Json) (ctx : String) : Except MacroError Entries :=
  match json with
  | .dict entries => pure entries
  | _ => throw (.expectedObject ctx)

def asList (json : Json) (ctx : String) : Except MacroError (List Json) :=
  match json with
  | .list items => pure items
  | _ => throw (.expectedArray ctx)

def asStr (json : Json) (ctx : String) : Except MacroError String :=
  match json with
  | .str text => pure text
  | _ => throw (.expectedString ctx)

/-- The first of the items, all objects so far, that has a value to use. -/
def firstUsable (usable : Entries → Except MacroError Bool) (ctx : String) :
    List Json → Except MacroError (Option Entries)
  | [] => pure none
  | item :: rest => do
    let entries ← asDict item ctx
    if ← usable entries then return some entries
    else firstUsable usable ctx rest

/-- What the interpreter knows of dates, digits and Eastern time. -/
structure Environment where
  unicode : UnicodeData
  /-- `date.fromisoformat`. -/
  fromisoformat : String → Option Date
  /-- `t.astimezone(ET).date()`. -/
  easternDate : DateTime → Option Date
  eastern : TimeZone

namespace Environment

variable (env : Environment)

def easternDateOf (t : DateTime) : Except MacroError Date :=
  match env.easternDate t with
  | some date => pure date
  | none => throw .overflow

def parseDecimal (rawValue ctx : String) : Except MacroError Decimal :=
  match env.unicode.number? rawValue.toList with
  | none => throw (.notDecimal ctx rawValue)
  | some (.finite d) => pure d
  | some _ => throw (.notFinite ctx rawValue)

def parseDate (rawDate ctx : String) : Except MacroError Date :=
  match env.fromisoformat rawDate with
  | some date => pure date
  | none => throw (.notDate ctx rawDate)

/-- `datetime.combine(date, RELEASE_TIME_ET[series], tzinfo=ET)`. -/
def releaseMoment (series : MacroSeries) (date : Date) : DateTime :=
  env.eastern.combine date series.releaseTimeEt series.releaseTimeEt_lt

def parseInt (text : List Char) : Except MacroError ℤ :=
  match env.unicode.int? text with
  | some n => pure n
  | none => throw .value

end Environment

def intMax : ℕ := 2147483647

/-- `date(year, month, day)` of numbers that are not negative. -/
def dateOf (year month day : ℕ) : Except MacroError Date :=
  if intMax < year then throw .overflow
  else if h : (1 ≤ year ∧ year ≤ 9999) ∧ (1 ≤ month ∧ month ≤ 12) ∧ 1 ≤ day ∧
      day ≤ daysInMonth year month then
    pure (.of year month day h)
  else throw .value

/-! ## FRED -/

structure ObservationsRequest where
  seriesId : String
  realtimeStart : Date
  realtimeEnd : Date
  sortOrder : String
  limit : ℕ

abbrev FredHTTPClient := ObservationsRequest → Except String Reply

namespace FredMacroSource

def sourceId : String := "fred_alfred"

def seriesId? : MacroSeries → Option String
  | .nfp => some "PAYEMS"
  | .cpi => some "CPIAUCSL"
  | .ppi => some "PPIFIS"
  | .gdpAdvance => some "GDPC1"
  | .pce => some "PCEPI"
  | .retailSales => some "RSAFS"
  | .housingStarts => some "HOUST"
  | .joblessClaims => some "ICSA"
  | .jolts => some "JTSJOL"
  | _ => none

def obsLookbackLimit : ℕ := 12

def observationsRequest (seriesId : String) (asOfDate : Date) : ObservationsRequest :=
  ⟨seriesId, asOfDate, asOfDate, "desc", obsLookbackLimit⟩

def usable (entries : Entries) : Except MacroError Bool :=
  match entries.get "value" with
  | .null => pure false
  | .str text => pure (text ≠ ".")
  | _ => pure true

def fetchValue (env : Environment) (http : FredHTTPClient) (eventId : String) (asOfIso : DateTime) :
    Except MacroError (Option MacroValue) := do
  if !asOfIso.isAware then throw (.naive "FredMacroSource.fetch_value as_of_iso")
  match seriesFromEventId eventId with
  | none => return none
  | some series =>
    match seriesId? series with
    | none => return none
    | some seriesId =>
      let asOfDate ← env.easternDateOf asOfIso
      let reply ← received (http (observationsRequest seriesId asOfDate))
      let payload ← asObj reply.payload "observations"
      let observations ← asList (payload.get "observations") "observations"
      match ← firstUsable usable "observation" observations with
      | none => return none
      | some chosen =>
        let value ← env.parseDecimal (← asStr (chosen.get "value") "observation.value") "observation"
        let refDate ← env.parseDate (← asStr (chosen.get "date") "observation.date") "observation"
        let published ←
          env.parseDate (← asStr (chosen.get "realtime_start") "observation.realtime_start")
            "observation"
        let mv ← macroValue eventId series refDate (env.releaseMoment series published) sourceId
          asOfIso reply.sha value (some asOfDate)
        return enforcePitGate mv asOfIso

end FredMacroSource

/-! ## BLS -/

abbrev BlsHTTPClient := String → Except String Reply

abbrev ReleaseLookup := MacroSeries → Date → Option DateTime

structure BlsMacroSource where
  http : BlsHTTPClient
  releaseLookup : Option ReleaseLookup

namespace BlsMacroSource

def sourceId : String := "bls_api_v2"

def seriesId? : MacroSeries → Option String
  | .nfp => some "CES0000000001"
  | .cpi => some "CUUR0000SA0"
  | .ppi => some "WPSFD4"
  | _ => none

def monthlyPeriodLen : ℕ := 3

def monthsInYear : ℕ := 12

def isSuccess : Json → Bool
  | .str status => status = "REQUEST_SUCCEEDED"
  | _ => false

/-- `_is_monthly_period`: `M01` to `M12`. -/
def isMonthlyPeriod (env : Environment) (period : String) : Except MacroError Bool :=
  if period.length ≠ monthlyPeriodLen || period.toList.head? ≠ some 'M' ||
      !(period.toList.drop 1).all env.unicode.isDigit then
    pure false
  else do
    let month ← env.parseInt (period.toList.drop 1)
    return 1 ≤ month && month ≤ monthsInYear

def isBlankValue : Json → Bool
  | .null => true
  | .str text => strip text.toList = [] || strip text.toList = ['-'] || strip text.toList = ['.']
  | _ => false

/-- `_conservative_publication_bound`: the last day of the month after. -/
def conservativePublicationBound (env : Environment) (series : MacroSeries) (refDate : Date) :
    Except MacroError DateTime := do
  let (pubYear, pubMonth) :=
    if refDate.month = monthsInYear then (refDate.year + 1, 1) else (refDate.year, refDate.month + 1)
  let lastDay ← dateOf pubYear pubMonth (daysInMonth pubYear pubMonth)
  return env.releaseMoment series lastDay

/-- `Results` is an object or a list that starts with one. -/
def extractDataPoints (payload : Entries) : Except MacroError (List Json) :=
  match payload.get "Results" with
  | .list [] => pure []
  | .list (first :: _) => seriesData first
  | results => seriesData results
where
  seriesData (results : Json) : Except MacroError (List Json) := do
    let seriesList ← asList ((← asDict results "Results").get "series") "Results.series"
    match seriesList with
    | [] => return []
    | first :: _ => asList ((← asDict first "series[0]").get "data") "series[0].data"

def usable (env : Environment) (entries : Entries) : Except MacroError Bool := do
  let period ← asStr (entries.get "period") "data.period"
  if !(← isMonthlyPeriod env period) then return false
  return !isBlankValue (entries.get "value")

def latestMonthlyPoint (env : Environment) (data : List Json) :
    Except MacroError (Option Entries) :=
  firstUsable (usable env) "data point" data

def refDateOf (env : Environment) (chosen : Entries) : Except MacroError Date := do
  let yearStr ← asStr (chosen.get "year") "data.year"
  if yearStr.toList.isEmpty || !yearStr.toList.all env.unicode.isDigit then
    throw (.yearNotNumeric yearStr)
  let period ← asStr (chosen.get "period") "data.period"
  let year ← env.parseInt yearStr.toList
  let month ← env.parseInt (period.toList.drop 1)
  dateOf year.toNat month.toNat 1

def publicationMoment (src : BlsMacroSource) (env : Environment) (series : MacroSeries)
    (refDate : Date) : Except MacroError DateTime :=
  match src.releaseLookup.bind fun lookup => lookup series refDate with
  | some moment => pure moment
  | none => conservativePublicationBound env series refDate

def fetchValue (src : BlsMacroSource) (env : Environment) (eventId : String) (asOfIso : DateTime) :
    Except MacroError (Option MacroValue) := do
  if !asOfIso.isAware then throw (.naive "BlsMacroSource.fetch_value as_of_iso")
  match seriesFromEventId eventId with
  | none => return none
  | some series =>
    match seriesId? series with
    | none => return none
    | some seriesId =>
      let reply ← received (src.http seriesId)
      let payload ← asObj reply.payload "timeseries/data"
      if !isSuccess (payload.get "status") then throw .notSucceeded
      match ← latestMonthlyPoint env (← extractDataPoints payload) with
      | none => return none
      | some chosen =>
        let refDate ← refDateOf env chosen
        let value ← env.parseDecimal (← asStr (chosen.get "value") "data.value") "data"
        let valueKnownAt ← src.publicationMoment env series refDate
        let mv ← macroValue eventId series refDate valueKnownAt sourceId asOfIso reply.sha value none
        return enforcePitGate mv asOfIso

end BlsMacroSource

end Futur3.Data
