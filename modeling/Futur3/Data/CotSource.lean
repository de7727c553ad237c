import Futur3.Contracts.TradingCalendar
import Futur3.Data.Brr

/-! # Reports on the commitment of traders

A report is a weekly snapshot, published on the Friday of its week at half past three in
the afternoon in New York. The view at a moment fetches the reports dated up to that
moment's own date and drops those that were not published by then.
-/

namespace Futur3.Data

open Prelude Contracts

inductive COTReportFlavor where
  | legacy
  | disaggregated
  | tff
  | supplemental
deriving DecidableEq, Repr

structure COTReport where
  cftcContractMarketCode : String
  flavor : COTReportFlavor
  reportDate : Date
  valueKnownAtIso : DateTime
  openInterestAll : ℕ
  specLong : ℕ
  specShort : ℕ
  commLong : ℕ
  commShort : ℕ
  sourceId : String
  asOfIso : DateTime
  contentBytesSha : String
  totalTraders : Option ℕ
  known_aware : valueKnownAtIso.isAware
  asOf_aware : asOfIso.isAware
  code_ne : cftcContractMarketCode ≠ ""
  sha_length : contentBytesSha.length = 64
deriving DecidableEq

inductive COTFailure where
  -- ValueError: "{field_name} must be IANA-TZ-aware datetime; got naive {ts!r}"
  | naive (fieldName : String)
  -- ValueError: "COT snapshot date must be a weekday (Mon-Fri); got {report_date} (weekday {weekday})"
  | weekend (reportDate : Date) (weekday : ℕ)
  -- OverflowError of adding days
  | overflow
  -- ValueError: "InMemoryCOTSource.source_id must be non-empty"
  | sourceId
deriving DecidableEq

/-- `COT_RELEASE_TIME_ET`, in microseconds since midnight. -/
def cotReleaseTimeEt : ℕ := 55800000000

theorem cotReleaseTimeEt_lt : cotReleaseTimeEt < dayMicros := by decide

/-- `d + timedelta(days=n)`. -/
def Date.plusDays? (d : Date) : ℕ → Option Date
  | 0 => some d
  | n + 1 => d.next?.bind fun e => e.plusDays? n

def valueKnownAtForReport (et : TimeZone) (reportDate : Date) : Except COTFailure DateTime :=
  if weekday reportDate > friday then throw (.weekend reportDate (weekday reportDate))
  else
    match reportDate.plusDays? (friday - weekday reportDate) with
    | none => throw .overflow
    | some publication => pure (et.combine publication cotReleaseTimeEt cotReleaseTimeEt_lt)

def enforceCotPitGate (report : Option COTReport) (asOfIso : DateTime) :
    Except COTFailure (Option COTReport) :=
  if asOfIso.isAware then
    pure (report.filter fun r => ¬r.valueKnownAtIso.instant > asOfIso.instant)
  else throw (.naive "enforce_cot_pit_gate.as_of_iso")

/-- A `COTSource`, through the accessor that its subclasses implement. -/
structure COTSource where
  fetchReports : String → COTReportFlavor → Date → Date → Except COTFailure (List COTReport)

def COTSource.reportsKnownAt (src : COTSource) (cftcContractMarketCode : String) (flavor : COTReportFlavor)
    (asOfIso : DateTime) (since : Date) : Except COTFailure (List COTReport) :=
  if asOfIso.isAware then do
    let raw ← src.fetchReports cftcContractMarketCode flavor since asOfIso.date
    let known ← raw.filterM fun r => do return (← enforceCotPitGate (some r) asOfIso).isSome
    return Selection.sortBy COTReport.reportDate known
  else throw (.naive "COTSource.reports_known_at.as_of_iso")

structure InMemoryCOTSource where
  reports : List COTReport
  sourceId : String
  sourceId_ne : sourceId ≠ ""

namespace InMemoryCOTSource

def create (reports : List COTReport) (sourceId : String) : Except COTFailure InMemoryCOTSource :=
  if h : sourceId = "" then throw .sourceId else pure ⟨reports, sourceId, h⟩

def fetchReports (src : InMemoryCOTSource) (cftcContractMarketCode : String) (flavor : COTReportFlavor)
    (start stop : Date) : List COTReport :=
  let hits := src.reports.filter fun r =>
    r.cftcContractMarketCode = cftcContractMarketCode ∧ r.flavor = flavor ∧
      start ≤ r.reportDate ∧ r.reportDate ≤ stop
  Selection.sortBy COTReport.reportDate hits

def toCOTSource (src : InMemoryCOTSource) : COTSource where
  fetchReports code flavor start stop := pure (src.fetchReports code flavor start stop)

end InMemoryCOTSource

end Futur3.Data
