import Futur3.Data.Verifier
import Futur3.Storage.Records

/-! # Reference rates rebuilt from venues

The hour before the fix is cut into twelve partitions. Each venue with a bar in a
partition gives its last close there; a partition with two closes or more has
their mean, and the rate is the mean of those partitions.
-/

namespace Futur3.Data

open Prelude Storage Selection

/-- A clock of a place: the offset from UTC, in microseconds, of a local time of day. -/
structure TimeZone where
  utcoffset : Date → ℕ → ℤ
  offset_lt : ∀ date micros, (utcoffset date micros).natAbs < dayMicros

theorem TimeZone.offset_some_lt (zone : TimeZone) (date : Date) (micros : ℕ) :
    ∀ o ∈ some (zone.utcoffset date micros), o.natAbs < dayMicros := by
  simpa using zone.offset_lt date micros

/-- `datetime.combine(date, time, tzinfo=zone)`. -/
def TimeZone.combine (zone : TimeZone) (date : Date) (micros : ℕ) (h : micros < dayMicros) :
    DateTime :=
  ⟨date, micros, h, some (zone.utcoffset date micros), zone.offset_some_lt date micros⟩

inductive BrrError where
  -- InsufficientVenues: "BRRReconstructor requires at least 2 sources; got {len(sources)}"
  | insufficientVenues (count : ℕ)
  -- DataSourceError: "BRRReconstructor: contract {contract} not supported. ..."
  | unsupported (contract : ContractSymbol)
  -- BRRWindowEmpty: "BRRReconstructor: 0 of 12 partitions reached min_venues=2 for ..."
  | windowEmpty (contract : ContractSymbol) (fixDate : Date)
  -- OverflowError of astimezone
  | overflow
  -- what `get_bars` of a source raises
  | source (sourceId exception : String)
  -- ValueErrors of BRRReconstruction
  | partitionCount (count : ℕ)
  | validCount (count : ℕ)
  | value (value : ℚ)
  | shaLength (length : ℕ)
  | venueCount (count : ℕ)
deriving DecidableEq

/-- A `DataSource`, as far as the reconstruction uses it. -/
structure Venue where
  sourceId : String
  getBars : ContractSymbol → DateTime → DateTime → BarResolution → Except String (List DecimalBar)

/-- Three and four in the afternoon, in microseconds since midnight. -/
def windowStart : ℕ := 54000000000

def windowEnd : ℕ := 57600000000

theorem windowStart_lt : windowStart < dayMicros := by decide

theorem windowEnd_lt : windowEnd < dayMicros := by decide

def numPartitions : ℕ := 12

def partitionMicros : ℤ := 300000000

def minVenues : ℕ := 2

def supportedContracts : List ContractSymbol := ["BTCUSD", "ETHUSD"]

/-- `_london_window_utc`, for the clock of London; none is an overflow. -/
def londonWindowUtc? (london : TimeZone) (fixDate : Date) : Option (DateTime × DateTime) := do
  let start ← (london.combine fixDate windowStart windowStart_lt).toUtc?
  let stop ← (london.combine fixDate windowEnd windowEnd_lt).toUtc?
  pure (start, stop)

def inWindow (start stop : DateTime) (bar : DecimalBar) : Bool :=
  start.instant ≤ bar.ts.instant && bar.ts.instant < stop.instant

/-- `p_start <= b.ts < p_end`, datetimes compared as instants. -/
def inPartition (start : DateTime) (i : ℕ) (bar : DecimalBar) : Bool :=
  start.instant + i * partitionMicros ≤ bar.ts.instant &&
    bar.ts.instant < start.instant + i * partitionMicros + partitionMicros

@[ext]
structure BRRReconstruction where
  contract : ContractSymbol
  fixDate : Date
  reconstructedValue : ℚ
  partitionValues : List (Option ℚ)
  numPartitionsValid : ℕ
  venueIds : List String
  contentBytesSha : String
  partition_count : partitionValues.length = numPartitions
  valid_count : 1 ≤ numPartitionsValid ∧ numPartitionsValid ≤ numPartitions
  value_pos : 0 < reconstructedValue
  sha_length : contentBytesSha.length = sha256HexLength
  venue_count : minVenues ≤ venueIds.length

def BRRReconstruction.create (contract : ContractSymbol) (fixDate : Date) (reconstructedValue : ℚ)
    (partitionValues : List (Option ℚ)) (numPartitionsValid : ℕ) (venueIds : List String)
    (contentBytesSha : String) : Except BrrError BRRReconstruction :=
  if hPartitions : partitionValues.length = numPartitions then
    if hValid : 1 ≤ numPartitionsValid ∧ numPartitionsValid ≤ numPartitions then
      if hValue : 0 < reconstructedValue then
        if hSha : contentBytesSha.length = sha256HexLength then
          if hVenues : minVenues ≤ venueIds.length then
            pure ⟨contract, fixDate, reconstructedValue, partitionValues, numPartitionsValid, venueIds,
              contentBytesSha, hPartitions, hValid, hValue, hSha, hVenues⟩
          else throw (.venueCount venueIds.length)
        else throw (.shaLength contentBytesSha.length)
      else throw (.value reconstructedValue)
    else throw (.validCount numPartitionsValid)
  else throw (.partitionCount partitionValues.length)

/-! ## The content hash -/

def barPayload (bar : DecimalBar) : List Char :=
  JsonText.object [
    ("close", JsonText.quote bar.close.str.toList),
    ("ts", JsonText.quote bar.ts.isoformatChars),
    ("volume", JsonText.intText bar.volume)]

def venuesPayload (barsPerVenue : Dict String (List DecimalBar)) : List (String × List Char) :=
  (sortBy Prod.fst barsPerVenue.items).map fun (venueId, bars) =>
    (venueId, JsonText.array ((sortBy (fun bar => bar.ts.instant) bars).map barPayload))

def contentPayload (contract : ContractSymbol) (fixDate : Date)
    (barsPerVenue : Dict String (List DecimalBar)) : String :=
  String.ofList (JsonText.object [
    ("contract", JsonText.quote contract.toList),
    ("fix_date", JsonText.quote fixDate.isoformatChars),
    ("venues", JsonText.object (venuesPayload barsPerVenue))])

/-! ## The reconstruction -/

structure BRRReconstructor where
  sources : List Venue
  enough : minVenues ≤ sources.length

def arithmeticMean (values : List ℚ) : ℚ := values.sum / values.length

/-- `max(hits, key=lambda b: b.ts).close`, if there are hits. -/
def lastClose : List DecimalBar → Option ℚ
  | [] => none
  | first :: rest => some (maxBy (fun bar => bar.ts.instant) first rest).close.value

namespace BRRReconstructor

theorem enough_of_guard {sources : List Venue} (h : ¬ sources.length < minVenues) :
    minVenues ≤ (sortBy Venue.sourceId sources).length := by
  rw [(sortBy_perm_self Venue.sourceId sources).length_eq]
  exact not_lt.mp h

def create (sources : List Venue) : Except BrrError BRRReconstructor :=
  if h : sources.length < minVenues then throw (.insufficientVenues sources.length)
  else pure ⟨sortBy Venue.sourceId sources, enough_of_guard h⟩

/-- The in-window bars of each source, assigned in turn under its id. -/
def fetch (contract : ContractSymbol) (start stop : DateTime) :
    List Venue → Dict String (List DecimalBar) → Except BrrError (Dict String (List DecimalBar))
  | [], barsPerVenue => pure barsPerVenue
  | src :: rest, barsPerVenue =>
    match src.getBars contract start stop .min5 with
    | .error exception => throw (.source src.sourceId exception)
    | .ok rawBars =>
      fetch contract start stop rest
        (barsPerVenue.set src.sourceId (rawBars.filter (inWindow start stop)))

/-- The last close in the partition of each source that has a bar there, with its id. -/
def partitionCloses (sources : List Venue) (barsPerVenue : Dict String (List DecimalBar))
    (start : DateTime) (i : ℕ) : List (String × ℚ) :=
  sources.filterMap fun src =>
    (lastClose (((barsPerVenue.get? src.sourceId).getD []).filter (inPartition start i))).map
      fun close => (src.sourceId, close)

def partitionValue (sources : List Venue) (barsPerVenue : Dict String (List DecimalBar))
    (start : DateTime) (i : ℕ) : Option ℚ :=
  let venueCloses := (partitionCloses sources barsPerVenue start i).map Prod.snd
  if venueCloses.length < minVenues then none else some (arithmeticMean venueCloses)

/-- The part of `reconstruct` after the bars are fetched. -/
def reconstructBars (sources : List Venue) (sha256 : String → HexDigest) (contract : ContractSymbol)
    (fixDate : Date) (start : DateTime) (barsPerVenue : Dict String (List DecimalBar)) :
    Except BrrError BRRReconstruction :=
  let partitionAggregates := (List.range numPartitions).map (partitionValue sources barsPerVenue start)
  let validPartitions := partitionAggregates.filterMap id
  if validPartitions = [] then throw (.windowEmpty contract fixDate)
  else
    BRRReconstruction.create contract fixDate (arithmeticMean validPartitions) partitionAggregates
      validPartitions.length (sources.map Venue.sourceId)
      (sha256 (contentPayload contract fixDate barsPerVenue)).text

def reconstruct (self : BRRReconstructor) (sha256 : String → HexDigest) (london : TimeZone)
    (contract : ContractSymbol) (fixDate : Date) : Except BrrError BRRReconstruction :=
  if contract ∉ supportedContracts then throw (.unsupported contract)
  else
    match londonWindowUtc? london fixDate with
    | none => throw .overflow
    | some (start, stop) => do
      let barsPerVenue ← fetch contract start stop self.sources .empty
      reconstructBars self.sources sha256 contract fixDate start barsPerVenue

end BRRReconstructor

end Futur3.Data
