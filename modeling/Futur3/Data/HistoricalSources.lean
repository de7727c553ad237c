import Futur3.Data.Verifier
import Futur3.Prelude.NearestFloat
import Futur3.Storage.Records
import Mathlib.Data.Rat.Floor

/-! # Historical bars from three vendors

The adapters for Interactive Brokers, for crypto venues behind ccxt and for
Databento. Each asks its vendor once and turns the rows into bars; what the
vendor returns, and what the language makes of its numbers, is arbitrary.
-/

namespace Futur3.Data

open Prelude Storage Selection

inductive SourceError where
  -- ValueError: "{source_id}: ts_end {ts_end!r} must be after ts_start {ts_start!r}"
  | emptyWindow (tsStart tsEnd : DateTime)
  -- ValueError: "... must be TZ-aware; got naive ..."
  | naive (field : String) (ts : DateTime)
  -- TypeError: "can't compare offset-naive and offset-aware datetimes"
  | naiveComparison
  -- BarsNotSupported, or ValueError of a crypto venue
  | resolutionNotSupported (resolution : BarResolution)
  | contractNotConfigured (contract : ContractSymbol)
  | connectionError (text : String)
  -- IBKRReqError or DataSourceError: "... failed for {contract} ..."
  | requestFailed (text : String)
  -- a DataSourceError of the vendor, passed on
  | dataSourceError (text : String)
  -- "IB returned naive datetime ..." and "cannot coerce IB bar date ..."
  | barDate
  -- what `fromtimestamp` and `fromisoformat` raise
  | timestamp (text : String)
  -- OverflowError of astimezone
  | overflow
  -- IndexError
  | emptyRow
  -- "malformed OHLCV row (expected ≥6 fields, got {len(row)})"
  | malformedRow (length : ℕ)
  -- FutureDatedSourceError: "bar ts {rec.ts} > now {now}"
  | futureDated (ts now : DateTime)
  -- ValueError of RawBar.__post_init__
  | invalidBar
  -- ValueError of Settle.__post_init__
  | invalidSettle
deriving DecidableEq

/-- `a < b` of two datetimes; a naive one does not compare with an aware one. -/
def before? (a b : DateTime) : Except SourceError Bool :=
  if a.isAware = b.isAware then pure (decide (a.instant < b.instant)) else throw .naiveComparison

def toUtc (t : DateTime) : Except SourceError DateTime :=
  match t.toUtc? with
  | some u => pure u
  | none => throw .overflow

namespace DateTime

def microsecond (t : DateTime) : ℕ := t.micros % 1000000

theorem wholeSecond_micros_lt (t : DateTime) : t.micros - t.microsecond < dayMicros :=
  (Nat.sub_le _ _).trans_lt t.micros_lt

/-- `t.replace(microsecond=0)`. -/
def wholeSecond (t : DateTime) : DateTime :=
  ⟨t.date, t.micros - t.microsecond, t.wholeSecond_micros_lt, t.utcoffset, t.offset_lt⟩

end DateTime

/-- What the language makes of a vendor's numbers and texts. -/
structure Numbers (ν : Type) where
  /-- `datetime.fromtimestamp(float(x), tz=UTC)`. -/
  fromtimestamp : ν → Except String { t : DateTime // t.IsUtc }
  /-- `datetime.fromtimestamp(x / 1000, tz=UTC)`. -/
  fromMillis : ν → Except String { t : DateTime // t.IsUtc }
  fromisoformat : String → Except String DateTime
  /-- `Decimal(str(x))`. -/
  decimal : ν → Decimal
  /-- `int(x)`. -/
  int : ν → ℤ
  /-- `json.dumps(x)`. -/
  json : ν → List Char

/-- `int(d)` cuts the fraction off. -/
def truncate (d : Decimal) : ℤ := d.value.num.tdiv d.value.den

/-- `RawBar(...)` with its `__post_init__`; no source here publishes open interest. -/
def rawBar (contract : ContractSymbol) (ts : DateTime) (resolution : BarResolution)
    (openPrice high low close : Decimal) (volume : ℤ) (sourceId : String) (asOfIso : DateTime)
    (digest : HexDigest) : Except SourceError DecimalBar :=
  if hTs : ts.isAware then
    if hAsOf : asOfIso.isAware then
      if hRange : low.value ≤ high.value then
        if hVolume : 0 ≤ volume then
          pure ⟨contract, ts, resolution, openPrice, high, low, close, volume, none, sourceId, asOfIso,
            digest.text, hTs, hAsOf, hRange, hVolume, no_open_interest, digest.length_eq⟩
        else throw .invalidBar
      else throw .invalidBar
    else throw .invalidBar
  else throw .invalidBar

/-! ## Interactive Brokers -/

inductive IBDate (ν : Type) where
  | datetime (ts : DateTime)
  | date (day : Date)
  | epoch (seconds : ν)
  | text (iso : String)
  | other

structure IBBar (ν : Type) where
  date : IBDate ν
  openPrice : ν
  high : ν
  low : ν
  close : ν
  volume : Option ν

inductive IBDuration where
  | seconds (n : ℤ)
  | days (n : ℤ)
deriving DecidableEq

/-- The arguments of `req_historical_data`, the contract by its three fields. -/
structure IBRequest where
  symbol : String
  lastTradeDate : ℕ × ℕ
  exchange : String
  endDatetime : DateTime
  duration : IBDuration
  barSize : String
  whatToShow : String
  useRth : Bool

inductive VendorError where
  | connection (text : String)
  | dataSource (text : String)
  | other (text : String)

structure IBClient (ν : Type) where
  isConnected : Bool
  connect : Except VendorError Unit
  reqHistoricalData : IBRequest → Except VendorError (List (IBBar ν))

namespace IBKRHistoricalDataSource

def sourceId : String := "ibkr_tws_historical"

def exchangeByRoot : Dict String String := .ofList [
  ("ES", "CME"), ("MES", "CME"), ("NQ", "CME"), ("MNQ", "CME"), ("CL", "NYMEX"), ("MCL", "NYMEX"),
  ("GC", "COMEX"), ("MGC", "COMEX"), ("MBT", "CME"), ("MET", "CME"), ("ZB", "CBOT")]

def monthCodeToNumber : Dict Char ℕ := .ofList [
  ('F', 1), ('G', 2), ('H', 3), ('J', 4), ('K', 5), ('M', 6), ('N', 7), ('Q', 8), ('U', 9),
  ('V', 10), ('X', 11), ('Z', 12)]

def minContractSymbolLength : ℕ := 4

def y2kCenturyPivotYear : ℕ := 50

def secondsPerDay : ℤ := 86400

def barSize? : BarResolution → Option String
  | .sec1 => some "1 secs"
  | .sec5 => some "5 secs"
  | .min1 => some "1 min"
  | .min5 => some "5 mins"
  | .min15 => some "15 mins"
  | .hour1 => some "1 hour"
  | .day1 => some "1 day"
  | .settle => none

/-- `_build_ib_contract`: the root, the year and month, and the exchange of a symbol. -/
def buildIbContract (contract : ContractSymbol) :
    Except SourceError (String × (ℕ × ℕ) × String) :=
  if contract.length < minContractSymbolLength then throw (.contractNotConfigured contract)
  else
    match contract.toList.reverse with
    | ones :: tens :: monthCode :: root =>
      if tens.isDigit && ones.isDigit then
        let year2dig := (tens.toNat - '0'.toNat) * 10 + (ones.toNat - '0'.toNat)
        match monthCodeToNumber.get? monthCode, exchangeByRoot.get? (String.ofList root.reverse) with
        | some monthNum, some exchange =>
          let century := if year2dig < y2kCenturyPivotYear then 2000 else 1900
          pure (String.ofList root.reverse, (century + year2dig, monthNum), exchange)
        | _, _ => throw (.contractNotConfigured contract)
      else throw (.contractNotConfigured contract)
    | _ => throw (.contractNotConfigured contract)

/-- `timedelta.total_seconds()`, a float. -/
def totalSeconds (delta : ℤ) : ℚ := nearestDouble (delta / 1000000)

/-- `_compute_duration_str`; `int` cuts the fraction off. -/
def computeDuration (tsStart tsEnd : DateTime) : IBDuration :=
  let total := totalSeconds (tsEnd.instant - tsStart.instant)
  let deltaSeconds := total.num.tdiv total.den
  if deltaSeconds < secondsPerDay then .seconds deltaSeconds
  else .days ((deltaSeconds + secondsPerDay - 1) / secondsPerDay)

/-- `_format_end_datetime` up to its text, which ends with the seconds. -/
def formatEndDatetime (tsEnd : DateTime) : Except SourceError DateTime :=
  if tsEnd.isAware then return (← toUtc tsEnd).wholeSecond else throw (.naive "ts_end" tsEnd)

section Calls

variable {ν : Type}

def ensureConnected (client : IBClient ν) : Except SourceError Unit :=
  if client.isConnected then pure ()
  else
    match client.connect with
    | .ok _ => pure ()
    | .error (.connection text) | .error (.dataSource text) | .error (.other text) =>
      throw (.connectionError text)

def request (client : IBClient ν) (req : IBRequest) : Except SourceError (List (IBBar ν)) :=
  match client.reqHistoricalData req with
  | .ok rows => pure rows
  | .error (.connection text) => throw (.connectionError text)
  | .error (.dataSource text) | .error (.other text) => throw (.requestFailed text)

theorem noon_micros_lt : 43200000000 < dayMicros := by decide

/-- `_coerce_ts_to_utc`; a plain date stands for its noon. -/
def coerceTsToUtc (numbers : Numbers ν) : IBDate ν → Except SourceError DateTime
  | .datetime ts => if ts.isAware then toUtc ts else throw .barDate
  | .date day => pure ⟨day, 43200000000, noon_micros_lt, some 0, DateTime.utc_offset_lt⟩
  | .epoch seconds =>
    match numbers.fromtimestamp seconds with
    | .ok ts => pure ts.val
    | .error text => throw (.timestamp text)
  | .text iso =>
    match numbers.fromisoformat iso with
    | .ok parsed => if parsed.isAware then toUtc parsed else throw .barDate
    | .error text => throw (.timestamp text)
  | .other => throw .barDate

def barPayload (ts : DateTime) (contract : ContractSymbol) (resolution : BarResolution)
    (openPrice high low close : Decimal) (volume : ℤ) : String :=
  String.ofList (JsonText.object [
    ("close", JsonText.quote close.str.toList),
    ("contract", JsonText.quote contract.toList),
    ("high", JsonText.quote high.str.toList),
    ("low", JsonText.quote low.str.toList),
    ("open", JsonText.quote openPrice.str.toList),
    ("resolution", JsonText.quote resolution.value.toList),
    ("ts", JsonText.quote ts.isoformatChars),
    ("volume", JsonText.intText volume)])

def ibBarToRaw (numbers : Numbers ν) (sha256 : String → HexDigest) (contract : ContractSymbol)
    (resolution : BarResolution) (asOfIso : DateTime) (ibBar : IBBar ν) :
    Except SourceError DecimalBar := do
  let ts ← coerceTsToUtc numbers ibBar.date
  let openPrice := numbers.decimal ibBar.openPrice
  let high := numbers.decimal ibBar.high
  let low := numbers.decimal ibBar.low
  let close := numbers.decimal ibBar.close
  let volume := (ibBar.volume.map numbers.int).getD 0
  rawBar contract ts resolution openPrice high low close volume sourceId asOfIso
    (sha256 (barPayload ts contract resolution openPrice high low close volume))

/-- The first half of `get_bars`: what it asks the vendor for. -/
def barsRequest (useRth : Bool) (contract : ContractSymbol) (tsStart tsEnd : DateTime)
    (resolution : BarResolution) : Except SourceError IBRequest := do
  if !(← before? tsStart tsEnd) then throw (.emptyWindow tsStart tsEnd)
  match barSize? resolution with
  | none => throw (.resolutionNotSupported resolution)
  | some barSize =>
    let (symbol, lastTradeDate, exchange) ← buildIbContract contract
    let endDatetime ← formatEndDatetime tsEnd
    return ⟨symbol, lastTradeDate, exchange, endDatetime, computeDuration tsStart tsEnd, barSize,
      "TRADES", useRth⟩

/-- `get_bars`, with the clock's reading. -/
def getBars (client : IBClient ν) (numbers : Numbers ν) (sha256 : String → HexDigest) (useRth : Bool)
    (now : DateTime) (contract : ContractSymbol) (tsStart tsEnd : DateTime)
    (resolution : BarResolution) : Except SourceError (List DecimalBar) := do
  let req ← barsRequest useRth contract tsStart tsEnd resolution
  ensureConnected client
  let ibBars ← request client req
  ibBars.mapM (ibBarToRaw numbers sha256 contract resolution now)

end Calls

end IBKRHistoricalDataSource

/-! ## Crypto venues -/

structure CcxtCryptoDataSource where
  venueName : String
  sourceId : String
  symbolMap : Dict String String

def spotSymbols : Dict String String := .ofList [("BTCUSD", "BTC/USD"), ("ETHUSD", "ETH/USD")]

def coinbaseCryptoDataSource : CcxtCryptoDataSource := ⟨"coinbase", "coinbase_advanced", spotSymbols⟩

def krakenCryptoDataSource : CcxtCryptoDataSource := ⟨"kraken", "kraken_spot", spotSymbols⟩

def bitstampCryptoDataSource : CcxtCryptoDataSource := ⟨"bitstamp", "bitstamp_spot", spotSymbols⟩

def geminiCryptoDataSource : CcxtCryptoDataSource := ⟨"gemini", "gemini_spot", spotSymbols⟩

/-- `fetch_ohlcv` of a symbol and a timeframe since the start of the window. -/
abbrev FetchOhlcv (ν : Type) := String → String → DateTime → Except VendorError (List (List ν))

namespace CcxtCryptoDataSource

def timeframe? : BarResolution → Option String
  | .min1 => some "1m"
  | .min5 => some "5m"
  | .min15 => some "15m"
  | .hour1 => some "1h"
  | .day1 => some "1d"
  | .sec1 | .sec5 | .settle => none

variable {ν : Type}

/-- The timestamp in the first field of a row. -/
def rowTs (numbers : Numbers ν) : List ν → Except SourceError DateTime
  | [] => throw .emptyRow
  | tsMs :: _ =>
    match numbers.fromMillis tsMs with
    | .ok ts => pure ts.val
    | .error text => throw (.timestamp text)

def tsInWindow (tsStart tsEnd ts : DateTime) : Bool :=
  tsStart.instant ≤ ts.instant && ts.instant < tsEnd.instant

def rowPayload (self : CcxtCryptoDataSource) (tsMs : List Char) (contract : ContractSymbol)
    (resolution : BarResolution) (openPrice high low close volume : Decimal) : String :=
  String.ofList (JsonText.object [
    ("close", JsonText.quote close.str.toList),
    ("contract", JsonText.quote contract.toList),
    ("high", JsonText.quote high.str.toList),
    ("low", JsonText.quote low.str.toList),
    ("open", JsonText.quote openPrice.str.toList),
    ("resolution", JsonText.quote resolution.value.toList),
    ("ts_ms", tsMs),
    ("venue", JsonText.quote self.venueName.toList),
    ("volume_decimal", JsonText.quote volume.str.toList)])

def ohlcvRowToRawBar (self : CcxtCryptoDataSource) (numbers : Numbers ν)
    (sha256 : String → HexDigest) (contract : ContractSymbol) (resolution : BarResolution)
    (asOfIso : DateTime) (row : List ν) : Except SourceError DecimalBar :=
  match row with
  | tsMs :: openPrice :: high :: low :: close :: volume :: _ => do
    let ts ← rowTs numbers row
    let openD := numbers.decimal openPrice
    let highD := numbers.decimal high
    let lowD := numbers.decimal low
    let closeD := numbers.decimal close
    let volumeD := numbers.decimal volume
    rawBar contract ts resolution openD highD lowD closeD (truncate volumeD) self.sourceId asOfIso
      (sha256 (rowPayload self (numbers.json tsMs) contract resolution openD highD lowD closeD volumeD))
  | _ => throw (.malformedRow row.length)

/-- The comprehension of `get_bars`: a row of the window is converted before the next is read. -/
def windowBars (numbers : Numbers ν) (tsStart tsEnd : DateTime)
    (convert : List ν → Except SourceError DecimalBar) :
    List (List ν) → Except SourceError (List DecimalBar)
  | [] => pure []
  | row :: rest => do
    let ts ← rowTs numbers row
    if tsInWindow tsStart tsEnd ts then
      let bar ← convert row
      let bars ← windowBars numbers tsStart tsEnd convert rest
      pure (bar :: bars)
    else windowBars numbers tsStart tsEnd convert rest

def fetch (fetchOhlcv : FetchOhlcv ν) (symbol timeframe : String) (since : DateTime) :
    Except SourceError (List (List ν)) :=
  match fetchOhlcv symbol timeframe since with
  | .ok rows => pure rows
  | .error (.dataSource text) => throw (.dataSourceError text)
  | .error (.connection text) | .error (.other text) => throw (.requestFailed text)

/-- `get_bars`, with the time at which it is called. -/
def getBars (self : CcxtCryptoDataSource) (fetchOhlcv : FetchOhlcv ν) (numbers : Numbers ν)
    (sha256 : String → HexDigest) (now : DateTime) (contract : ContractSymbol)
    (tsStart tsEnd : DateTime) (resolution : BarResolution) :
    Except SourceError (List DecimalBar) := do
  if !tsStart.isAware then throw (.naive "ts_start" tsStart)
  if !tsEnd.isAware then throw (.naive "ts_end" tsEnd)
  if tsEnd.instant ≤ tsStart.instant then throw (.emptyWindow tsStart tsEnd)
  match self.symbolMap.get? contract, timeframe? resolution with
  | none, _ => throw (.contractNotConfigured contract)
  | some _, none => throw (.resolutionNotSupported resolution)
  | some symbol, some timeframe =>
    let since ← toUtc tsStart
    let ohlcvRows ← fetch fetchOhlcv symbol timeframe since
    windowBars numbers tsStart tsEnd
      (ohlcvRowToRawBar self numbers sha256 contract resolution now) ohlcvRows

end CcxtCryptoDataSource

/-! ## Databento -/

structure DatabentoBar where
  ts : DateTime
  openPrice : Decimal
  high : Decimal
  low : Decimal
  close : Decimal
  volume : ℤ

/-- `fetch_ohlcv_1d` of a dataset, a symbol and its kind over a range. -/
abbrev DatabentoClient :=
  String → String → String → DateTime → DateTime → Except SourceError (List DatabentoBar)

namespace DatabentoHistoricalDataSource

def sourceId : String := "databento_glbx_mdp3"

def dataset : String := "GLBX.MDP3"

def stypeContinuous : String := "continuous"

def continuousSymbols : Dict String String := .ofList [
  ("ES", "ES.c.0"), ("NQ", "NQ.c.0"), ("CL", "CL.c.0"), ("GC", "GC.c.0")]

def rootSuffixLen : ℕ := 3

def resolveSymbol (symbols : Dict String String) (contract : ContractSymbol) :
    Except SourceError String :=
  let root := if symbols.contains contract then contract
    else String.ofList (contract.toList.take (contract.length - rootSuffixLen))
  match symbols.get? root with
  | some symbol => pure symbol
  | none => throw (.contractNotConfigured contract)

def recordPayload (symbol : String) (rec : DatabentoBar) : String :=
  "|".intercalate [symbol, rec.ts.isoformat, rec.openPrice.str, rec.high.str, rec.low.str,
    rec.close.str, String.ofList (JsonText.intText rec.volume)]

/-- The loop over the records; a record outside the window may still be one of the future. -/
def windowBars (sha256 : String → HexDigest) (now : DateTime) (contract : ContractSymbol)
    (symbol : String) (tsStart tsEnd : DateTime) :
    List DatabentoBar → Except SourceError (List DecimalBar)
  | [] => pure []
  | rec :: rest => do
    if ← before? now rec.ts then throw (.futureDated rec.ts now)
    if !(← before? rec.ts tsStart) && (← before? rec.ts tsEnd) then
      let bar ← rawBar contract rec.ts .day1 rec.openPrice rec.high rec.low rec.close rec.volume
        sourceId now (sha256 (recordPayload symbol rec))
      let bars ← windowBars sha256 now contract symbol tsStart tsEnd rest
      pure (bar :: bars)
    else windowBars sha256 now contract symbol tsStart tsEnd rest

/-- `get_bars`, with the clock's reading. -/
def getBars (client : DatabentoClient) (symbols : Dict String String) (sha256 : String → HexDigest)
    (now : DateTime) (contract : ContractSymbol) (tsStart tsEnd : DateTime)
    (resolution : BarResolution) : Except SourceError (List DecimalBar) := do
  if resolution ≠ .day1 then throw (.resolutionNotSupported resolution)
  if !tsStart.isAware then throw (.naive "ts_start" tsStart)
  if !tsEnd.isAware then throw (.naive "ts_end" tsEnd)
  let symbol ← resolveSymbol symbols contract
  let records ← client dataset symbol stypeContinuous tsStart tsEnd
  let bars ← windowBars sha256 now contract symbol tsStart tsEnd records
  pure (sortBy (fun bar => bar.ts.instant) bars)

end DatabentoHistoricalDataSource

end Futur3.Data
