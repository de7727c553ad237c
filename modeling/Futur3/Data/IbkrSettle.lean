import Futur3.Contracts.TradingCalendar
import Futur3.Data.RequestCover

/-! # The latest settle of Interactive Brokers

The close of the last of the daily bars that the vendor returns for the two days
before a time. The bars are sorted by their timestamps, a plain date standing
for its noon; none is held against the time that was asked for.
-/

namespace Futur3.Data

open Prelude Storage Selection

/-! ## Differences in the decimal context -/

def contextPrecision : ℕ := 28

def signedCoefficient (d : Decimal) : ℤ := if d.negative then -d.coefficient else d.coefficient

/-- A result in the default context, a tie to the even digit. -/
def contextResult (negative : Bool) (coefficient : ℕ) (exponent : ℤ) : Decimal :=
  let extra := (Nat.toDigits 10 coefficient).length - contextPrecision
  let kept := (roundHalfEven (coefficient / 10 ^ extra : ℚ)).toNat
  -- nines only are rounded up to one digit more
  if kept = 10 ^ contextPrecision then ⟨negative, 10 ^ (contextPrecision - 1), exponent + extra + 1⟩
  else ⟨negative, kept, exponent + extra⟩

/-- `a - b`; minus zero less zero keeps its sign. -/
def subtract (a b : Decimal) : Decimal :=
  let exponent := min a.exponent b.exponent
  let total := signedCoefficient a * 10 ^ (a.exponent - exponent).toNat -
    signedCoefficient b * 10 ^ (b.exponent - exponent).toNat
  let negative :=
    if total = 0 then a.negative && !b.negative && a.coefficient == 0 else decide (total < 0)
  contextResult negative total.natAbs exponent

theorem aware_of_mem_some {asOfIso : DateTime} (h : asOfIso.isAware) :
    ∀ t ∈ some asOfIso, t.isAware := by
  rintro t ⟨⟩
  exact h

theorem HexDigest.length_of_ne (digest : HexDigest) :
    digest.text ≠ "" → digest.text.length = sha256HexLength :=
  fun _ => digest.length_eq

/-- `Settle(...)` with its `__post_init__`. -/
def decimalSettle (contract : ContractSymbol) (asOfDate : Date) (settle : Decimal)
    (settleState : SettleState) (openPrice high low last change : Decimal) (volumeEst oiPrior : ℤ)
    (sourceId : String) (asOfIso : DateTime) (digest : HexDigest) (cmeMonthCode : String) :
    Except SourceError DecimalSettle :=
  if hAsOf : asOfIso.isAware then
    if hRange : low.value ≤ high.value then
      if hVolume : 0 ≤ volumeEst then
        if hOi : 0 ≤ oiPrior then
          pure ⟨contract, asOfDate, settle, settleState, openPrice, high, low, last, change, volumeEst,
            oiPrior, sourceId, some asOfIso, digest.text, cmeMonthCode, aware_of_mem_some hAsOf,
            hRange, hVolume, hOi, digest.length_of_ne⟩
        else throw .invalidSettle
      else throw .invalidSettle
    else throw .invalidSettle
  else throw .invalidSettle

namespace IBKRHistoricalDataSource

/-! ## `latest_settle` -/

def preliminaryPublishLagHoursWeekday : ℕ := 18

def preliminaryPublishLagHoursFriday : ℕ := 42

def fridayWeekdayIndex : ℕ := 4

def hourMicros : ℤ := 3600000000

/-- `astimezone(CME_SESSION_TZ)`; `none` stands for `OverflowError`. -/
abbrev SessionClock := DateTime → Option DateTime

def sessionTime (central : SessionClock) (t : DateTime) : Except SourceError DateTime :=
  match central t with
  | some wall => pure wall
  | none => throw .overflow

def computeSettleState (barCt barTsUtc asOfUtc : DateTime) : SettleState :=
  let lagHours :=
    if Contracts.weekday barCt.date = fridayWeekdayIndex then preliminaryPublishLagHoursFriday
    else preliminaryPublishLagHoursWeekday
  if asOfUtc.instant - barTsUtc.instant < lagHours * hourMicros then .preliminary else .final

/-- The month code that `_parse_contract_symbol` finds in front of the year. -/
def monthCodeOf (contract : ContractSymbol) : String :=
  String.ofList ((contract.toList.reverse.drop 2).take 1)

def settlePayload (contract : ContractSymbol) (asOfDate : Date) (settle : Decimal)
    (settleState : SettleState) (openPrice high low last change : Decimal) (volumeEst : ℤ)
    (barTsUtc : DateTime) : String :=
  String.ofList (JsonText.object [
    ("as_of_date", JsonText.quote asOfDate.isoformatChars),
    ("bar_ts_utc", JsonText.quote barTsUtc.isoformatChars),
    ("change", JsonText.quote change.str.toList),
    ("contract", JsonText.quote contract.toList),
    ("high", JsonText.quote high.str.toList),
    ("last", JsonText.quote last.str.toList),
    ("low", JsonText.quote low.str.toList),
    ("open", JsonText.quote openPrice.str.toList),
    ("settle", JsonText.quote settle.str.toList),
    ("settle_state", JsonText.quote (settleStateText settleState).toList),
    ("volume_est", JsonText.intText volumeEst)])

section Calls

variable {ν : Type}

def ibBarToSettle (numbers : Numbers ν) (sha256 : String → HexDigest) (central : SessionClock)
    (now : DateTime) (ibBar : IBBar ν) (priorBar : Option (IBBar ν)) (contract : ContractSymbol)
    (asOfUtc : DateTime) : Except SourceError DecimalSettle := do
  let barTsUtc ← coerceTsToUtc numbers ibBar.date
  let settle := numbers.decimal ibBar.close
  let openPrice := numbers.decimal ibBar.openPrice
  let high := numbers.decimal ibBar.high
  let low := numbers.decimal ibBar.low
  let change :=
    match priorBar with
    | some prior => subtract settle (numbers.decimal prior.close)
    | none => ⟨false, 0, 0⟩
  let volumeEst := (ibBar.volume.map numbers.int).getD 0
  let barCt ← sessionTime central barTsUtc
  let settleState := computeSettleState barCt barTsUtc asOfUtc
  decimalSettle contract barCt.date settle settleState openPrice high low settle change volumeEst 0
    sourceId now
    (sha256 (settlePayload contract barCt.date settle settleState openPrice high low settle change
      volumeEst barTsUtc))
    (monthCodeOf contract)

/-- The arguments of the request of `latest_settle`. -/
def settleRequest (useRth : Bool) (contract : ContractSymbol) (asOfUtc : DateTime) :
    Except SourceError IBRequest := do
  let (symbol, lastTradeDate, exchange) ← buildIbContract contract
  let endDatetime ← formatEndDatetime asOfUtc
  return ⟨symbol, lastTradeDate, exchange, endDatetime, .days 2, "1 day", "TRADES", useRth⟩

def keyedBars (numbers : Numbers ν) (ibBars : List (IBBar ν)) :
    Except SourceError (List (DateTime × IBBar ν)) :=
  ibBars.mapM fun ibBar => do
    let ts ← coerceTsToUtc numbers ibBar.date
    return (ts, ibBar)

def latestAndPrior (numbers : Numbers ν) (ibBars : List (IBBar ν)) :
    Except SourceError (Option (IBBar ν × Option (IBBar ν))) := do
  let keyed ← keyedBars numbers ibBars
  match (sortBy (fun bar => bar.1.instant) keyed).reverse with
  | [] => return none
  | latest :: before => return some (latest.2, before.head?.map Prod.snd)

/-- `latest_settle`, with the clock's reading. -/
def latestSettle (client : IBClient ν) (numbers : Numbers ν) (sha256 : String → HexDigest)
    (central : SessionClock) (useRth : Bool) (now : DateTime) (contract : ContractSymbol)
    (asOf : DateTime) : Except SourceError (Option DecimalSettle) := do
  if !asOf.isAware then throw (.naive "as_of" asOf)
  let asOfUtc ← toUtc asOf
  let req ← settleRequest useRth contract asOfUtc
  ensureConnected client
  let ibBars ← request client req
  match ← latestAndPrior numbers ibBars with
  | none => return none
  | some (latest, prior) =>
    let settle ← ibBarToSettle numbers sha256 central now latest prior contract asOfUtc
    return some settle

end Calls

end IBKRHistoricalDataSource

end Futur3.Data
