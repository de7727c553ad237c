import Futur3.Data.BrrSpec
import Futur3.Data.HistoricalSources

/-! # Whether a source honours the window

Bars of the half-open window only, in strictly increasing order. One adapter
passes its rows on as they are, one drops those outside the window, one sorts
what is left; none drops a timestamp that it has seen.
-/

namespace Futur3.Data

open Prelude Storage Selection

def Increasing (times : List DateTime) : Prop :=
  times.Pairwise fun a b => a.instant < b.instant

def HonoursWindow (tsStart tsEnd : DateTime) (bars : List DecimalBar) : Prop :=
  (∀ bar ∈ bars, tsStart.instant ≤ bar.ts.instant ∧ bar.ts.instant < tsEnd.instant) ∧
  bars.Pairwise fun a b => a.ts.instant < b.ts.instant

/-- All the times are of the window, and each comes after the one before it. -/
def OrderedInWindow (tsStart tsEnd : DateTime) (times : List DateTime) : Prop :=
  (∀ ts ∈ times, tsStart.instant ≤ ts.instant ∧ ts.instant < tsEnd.instant) ∧ Increasing times

instance (times : List DateTime) : Decidable (Increasing times) :=
  inferInstanceAs (Decidable (List.Pairwise _ _))

instance (tsStart tsEnd : DateTime) (times : List DateTime) :
    Decidable (OrderedInWindow tsStart tsEnd times) :=
  inferInstanceAs (Decidable (_ ∧ _))

theorem honoursWindow_iff {tsStart tsEnd : DateTime} {bars : List DecimalBar} :
    HonoursWindow tsStart tsEnd bars ↔ OrderedInWindow tsStart tsEnd (bars.map DecimalBar.ts) := by
  unfold HonoursWindow OrderedInWindow Increasing
  rw [List.pairwise_map, List.forall_mem_map]

theorem rawBar_ok {contract : ContractSymbol} {ts : DateTime} {resolution : BarResolution}
    {openPrice high low close : Decimal} {volume : ℤ} {sourceId : String} {asOfIso : DateTime}
    {digest : HexDigest} {bar : DecimalBar}
    (h : rawBar contract ts resolution openPrice high low close volume sourceId asOfIso digest =
      .ok bar) : bar.ts = ts := by
  unfold rawBar at h
  split_ifs at h
  cases h
  rfl

theorem before?_ok_iff {a b : DateTime} {answer : Bool} :
    before? a b = .ok answer ↔
      a.isAware = b.isAware ∧ answer = decide (a.instant < b.instant) := by
  unfold before?
  split_ifs with hAware
  · rw [except_pure_ok_iff, eq_comm]
    exact (and_iff_right hAware).symm
  · exact iff_of_false id fun h => hAware h.1

theorem toUtc_ok {t u : DateTime} (h : toUtc t = .ok u) : t.toUtc? = some u := by
  unfold toUtc at h
  split at h
  · rename_i u' hUtc
    rw [hUtc, except_pure_ok_iff.mp h]
  · cases h

section Rows

variable {ν : Type}

/-! ## Rows passed on as they are -/

namespace IBKRHistoricalDataSource

theorem ibBarToRaw_ok {numbers : Numbers ν} {sha256 : String → HexDigest} {contract : ContractSymbol}
    {resolution : BarResolution} {asOfIso : DateTime} {ibBar : IBBar ν} {bar : DecimalBar}
    (h : ibBarToRaw numbers sha256 contract resolution asOfIso ibBar = .ok bar) :
    coerceTsToUtc numbers ibBar.date = .ok bar.ts := by
  obtain ⟨ts, hTs, hBar⟩ := except_bind_ok_iff.mp h
  rw [rawBar_ok hBar, hTs]

theorem mapM_ibBarToRaw_ok {numbers : Numbers ν} {sha256 : String → HexDigest}
    {contract : ContractSymbol} {resolution : BarResolution} {asOfIso : DateTime}
    {ibBars : List (IBBar ν)} {bars : List DecimalBar}
    (h : ibBars.mapM (ibBarToRaw numbers sha256 contract resolution asOfIso) = .ok bars) :
    ibBars.mapM (fun ibBar => coerceTsToUtc numbers ibBar.date) = .ok (bars.map DecimalBar.ts) := by
  rw [except_mapM_ok_iff] at h ⊢
  induction ibBars generalizing bars with
  | nil =>
    cases bars with
    | nil => rfl
    | cons bar rest => cases h
  | cons ibBar rest ih =>
    cases bars with
    | nil => cases h
    | cons bar rest' =>
      obtain ⟨hBar, hRest⟩ := List.cons.inj h
      rw [List.map_cons, List.map_cons, List.map_cons, ibBarToRaw_ok hBar, ih hRest]

theorem request_ok {client : IBClient ν} {req : IBRequest} {ibBars : List (IBBar ν)}
    (h : request client req = .ok ibBars) : client.reqHistoricalData req = .ok ibBars := by
  unfold request at h
  split at h
  · rename_i rows hRows
    rw [hRows, except_pure_ok_iff.mp h]
  · cases h
  · cases h
  · cases h

/-- The bars honour the window exactly when the vendor's rows for the request do. -/
theorem getBars_honours_iff {client : IBClient ν} {numbers : Numbers ν}
    {sha256 : String → HexDigest} {useRth : Bool} {now : DateTime} {contract : ContractSymbol}
    {tsStart tsEnd : DateTime} {resolution : BarResolution} {bars : List DecimalBar}
    (h : getBars client numbers sha256 useRth now contract tsStart tsEnd resolution = .ok bars) :
    ∃ req ibBars times, barsRequest useRth contract tsStart tsEnd resolution = .ok req ∧
      client.reqHistoricalData req = .ok ibBars ∧
      ibBars.mapM (fun ibBar => coerceTsToUtc numbers ibBar.date) = .ok times ∧
      (HonoursWindow tsStart tsEnd bars ↔ OrderedInWindow tsStart tsEnd times) := by
  obtain ⟨req, hReq, h⟩ := except_bind_ok_iff.mp h
  obtain ⟨-, -, h⟩ := except_bind_ok_iff.mp h
  obtain ⟨ibBars, hRequest, h⟩ := except_bind_ok_iff.mp h
  exact ⟨req, ibBars, bars.map DecimalBar.ts, hReq, request_ok hRequest, mapM_ibBarToRaw_ok h,
    honoursWindow_iff⟩

end IBKRHistoricalDataSource

/-! ## Rows of the window in the vendor's order -/

namespace CcxtCryptoDataSource

theorem ohlcvRowToRawBar_ok {self : CcxtCryptoDataSource} {numbers : Numbers ν}
    {sha256 : String → HexDigest} {contract : ContractSymbol} {resolution : BarResolution}
    {asOfIso : DateTime} {row : List ν} {bar : DecimalBar}
    (h : ohlcvRowToRawBar self numbers sha256 contract resolution asOfIso row = .ok bar) :
    rowTs numbers row = .ok bar.ts := by
  unfold ohlcvRowToRawBar at h
  split at h
  · obtain ⟨ts, hTs, hBar⟩ := except_bind_ok_iff.mp h
    rw [rawBar_ok hBar, hTs]
  · cases h

theorem windowBars_ok {numbers : Numbers ν} {tsStart tsEnd : DateTime}
    {convert : List ν → Except SourceError DecimalBar}
    (hConvert : ∀ row bar, convert row = .ok bar → rowTs numbers row = .ok bar.ts)
    {rows : List (List ν)} {bars : List DecimalBar}
    (h : windowBars numbers tsStart tsEnd convert rows = .ok bars) :
    ∃ times, rows.mapM (rowTs numbers) = .ok times ∧
      bars.map DecimalBar.ts = times.filter (tsInWindow tsStart tsEnd) := by
  induction rows generalizing bars with
  | nil =>
    rw [← except_pure_ok_iff.mp h]
    exact ⟨[], rfl, rfl⟩
  | cons row rest ih =>
    obtain ⟨ts, hTs, h⟩ := except_bind_ok_iff.mp h
    split_ifs at h with hIn
    · obtain ⟨bar, hBar, h⟩ := except_bind_ok_iff.mp h
      obtain ⟨bars', hRest, h⟩ := except_bind_ok_iff.mp h
      obtain ⟨times, hTimes, hEq⟩ := ih hRest
      have hSame : bar.ts = ts := by
        have hRow := hConvert row bar hBar
        rw [hTs] at hRow
        exact (Except.ok.inj hRow).symm
      refine ⟨ts :: times, ?_, ?_⟩
      · rw [except_mapM_ok_iff] at hTimes ⊢
        rw [List.map_cons, hTs, hTimes, List.map_cons]
      · rw [← except_pure_ok_iff.mp h, List.map_cons, hSame, hEq, List.filter_cons, if_pos hIn]
    · obtain ⟨times, hTimes, hEq⟩ := ih h
      refine ⟨ts :: times, ?_, ?_⟩
      · rw [except_mapM_ok_iff] at hTimes ⊢
        rw [List.map_cons, hTs, hTimes, List.map_cons]
      · rw [hEq, List.filter_cons, if_neg hIn]

theorem orderedInWindow_filter {tsStart tsEnd : DateTime} {times : List DateTime} :
    OrderedInWindow tsStart tsEnd (times.filter (tsInWindow tsStart tsEnd)) ↔
      Increasing (times.filter (tsInWindow tsStart tsEnd)) := by
  apply and_iff_right
  intro ts hTs
  simpa [tsInWindow] using (List.mem_filter.mp hTs).2

theorem fetch_ok {fetchOhlcv : FetchOhlcv ν} {symbol timeframe : String} {since : DateTime}
    {rows : List (List ν)} (h : fetch fetchOhlcv symbol timeframe since = .ok rows) :
    fetchOhlcv symbol timeframe since = .ok rows := by
  unfold fetch at h
  split at h
  · rename_i rows' hRows
    rw [hRows, except_pure_ok_iff.mp h]
  · cases h
  · cases h
  · cases h

/-- The bars honour the window exactly when the vendor's rows of the window come in order. -/
theorem getBars_honours_iff {self : CcxtCryptoDataSource} {fetchOhlcv : FetchOhlcv ν}
    {numbers : Numbers ν} {sha256 : String → HexDigest} {now : DateTime} {contract : ContractSymbol}
    {tsStart tsEnd : DateTime} {resolution : BarResolution} {bars : List DecimalBar}
    (h : getBars self fetchOhlcv numbers sha256 now contract tsStart tsEnd resolution = .ok bars) :
    ∃ symbol timeframe since rows times, self.symbolMap.get? contract = some symbol ∧
      timeframe? resolution = some timeframe ∧ toUtc tsStart = .ok since ∧
      fetchOhlcv symbol timeframe since = .ok rows ∧ rows.mapM (rowTs numbers) = .ok times ∧
      (HonoursWindow tsStart tsEnd bars ↔
        Increasing (times.filter (tsInWindow tsStart tsEnd))) := by
  obtain ⟨-, h⟩ := except_raise_guard_ok_iff.mp h
  obtain ⟨-, h⟩ := except_raise_guard_ok_iff.mp h
  obtain ⟨-, h⟩ := except_raise_guard_ok_iff.mp h
  split at h
  · cases h
  · cases h
  · rename_i symbol timeframe hSymbol hTimeframe
    obtain ⟨since, hSince, h⟩ := except_bind_ok_iff.mp h
    obtain ⟨rows, hRows, h⟩ := except_bind_ok_iff.mp h
    obtain ⟨times, hTimes, hEq⟩ := windowBars_ok (fun _ _ => ohlcvRowToRawBar_ok) h
    refine ⟨symbol, timeframe, since, rows, times, hSymbol, hTimeframe, hSince, fetch_ok hRows,
      hTimes, ?_⟩
    rw [honoursWindow_iff, hEq, orderedInWindow_filter]

end CcxtCryptoDataSource

end Rows

/-! ## Records of the window, sorted -/

namespace DatabentoHistoricalDataSource

def recordInWindow (tsStart tsEnd : DateTime) (rec : DatabentoBar) : Bool :=
  CcxtCryptoDataSource.tsInWindow tsStart tsEnd rec.ts

theorem windowBars_ok {sha256 : String → HexDigest} {now : DateTime} {contract : ContractSymbol}
    {symbol : String} {tsStart tsEnd : DateTime} {records : List DatabentoBar}
    {bars : List DecimalBar}
    (h : windowBars sha256 now contract symbol tsStart tsEnd records = .ok bars) :
    bars.map DecimalBar.ts =
      (records.filter (recordInWindow tsStart tsEnd)).map DatabentoBar.ts := by
  induction records generalizing bars with
  | nil =>
    rw [← except_pure_ok_iff.mp h]
    rfl
  | cons rec rest ih =>
    obtain ⟨future, -, h⟩ := except_bind_ok_iff.mp h
    obtain ⟨-, h⟩ := except_raise_guard_ok_iff.mp h
    obtain ⟨early, hEarly, h⟩ := except_bind_ok_iff.mp h
    obtain ⟨within, hWithin, h⟩ := except_bind_ok_iff.mp h
    have hRecord : recordInWindow tsStart tsEnd rec = (!early && within) := by
      rw [(before?_ok_iff.mp hEarly).2, (before?_ok_iff.mp hWithin).2, ← decide_not]
      simp [recordInWindow, CcxtCryptoDataSource.tsInWindow]
    rw [← hRecord] at h
    split_ifs at h with hIn
    · obtain ⟨bar, hBar, h⟩ := except_bind_ok_iff.mp h
      obtain ⟨bars', hRest, h⟩ := except_bind_ok_iff.mp h
      rw [← except_pure_ok_iff.mp h, List.map_cons, rawBar_ok hBar, ih hRest, List.filter_cons,
        if_pos hIn, List.map_cons]
    · rw [ih h, List.filter_cons, if_neg hIn]

/-- Sorting leaves nothing to be wished but that no two timestamps are equal. -/
theorem honoursWindow_sortBy_iff {tsStart tsEnd : DateTime} {bars : List DecimalBar}
    (hIn : ∀ bar ∈ bars, tsStart.instant ≤ bar.ts.instant ∧ bar.ts.instant < tsEnd.instant) :
    HonoursWindow tsStart tsEnd (sortBy (fun bar => bar.ts.instant) bars) ↔
      DistinctTimestamps bars := by
  have hSorted := pairwise_sortBy (fun bar : DecimalBar => bar.ts.instant) bars
  have hPerm := sortBy_perm_self (fun bar : DecimalBar => bar.ts.instant) bars
  unfold HonoursWindow DistinctTimestamps
  rw [and_iff_right fun bar hBar => hIn bar (mem_sortBy.mp hBar), ← (hPerm.map _).nodup_iff,
    List.nodup_iff_pairwise_ne, List.pairwise_map]
  simp only [lt_iff_le_and_ne, List.pairwise_and_iff]
  exact and_iff_right hSorted

/-- The bars honour the window exactly when the vendor's records of the window differ in
their timestamps. -/
theorem getBars_honours_iff {client : DatabentoClient} {symbols : Dict String String}
    {sha256 : String → HexDigest} {now : DateTime} {contract : ContractSymbol}
    {tsStart tsEnd : DateTime} {resolution : BarResolution} {bars : List DecimalBar}
    (h : getBars client symbols sha256 now contract tsStart tsEnd resolution = .ok bars) :
    ∃ symbol records, resolveSymbol symbols contract = .ok symbol ∧
      client dataset symbol stypeContinuous tsStart tsEnd = .ok records ∧
      (HonoursWindow tsStart tsEnd bars ↔
        ((records.filter (recordInWindow tsStart tsEnd)).map fun rec => rec.ts.instant).Nodup) := by
  obtain ⟨-, h⟩ := except_raise_guard_ok_iff.mp h
  obtain ⟨-, h⟩ := except_raise_guard_ok_iff.mp h
  obtain ⟨-, h⟩ := except_raise_guard_ok_iff.mp h
  obtain ⟨symbol, hSymbol, h⟩ := except_bind_ok_iff.mp h
  obtain ⟨records, hRecords, h⟩ := except_bind_ok_iff.mp h
  obtain ⟨bars', hBars, h⟩ := except_bind_ok_iff.mp h
  obtain rfl := except_pure_ok_iff.mp h
  have hTimes := windowBars_ok hBars
  refine ⟨symbol, records, hSymbol, hRecords, ?_⟩
  have hInstants : bars'.map (fun bar => bar.ts.instant) =
      (records.filter (recordInWindow tsStart tsEnd)).map fun rec => rec.ts.instant := by
    have hMapped := congrArg (List.map DateTime.instant) hTimes
    rwa [List.map_map, List.map_map] at hMapped
  rw [honoursWindow_sortBy_iff, DistinctTimestamps, hInstants]
  intro bar hBar
  have hMem : bar.ts ∈ bars'.map DecimalBar.ts := List.mem_map_of_mem hBar
  rw [hTimes] at hMem
  obtain ⟨rec, hRec, hTs⟩ := List.mem_map.mp hMem
  rw [← hTs]
  simpa [recordInWindow, CcxtCryptoDataSource.tsInWindow] using (List.mem_filter.mp hRec).2

end DatabentoHistoricalDataSource

/-! ## The three sources -/

/-- When the bars of each source are those of the window in strictly increasing order, told from
the reply to the request that `get_bars` makes:
of Interactive Brokers, when the rows are so already; of a crypto venue, when its rows of the
window are in that order; of Databento, when no two records of the window share a timestamp. -/
theorem honoursWindow_sources_iff {ν : Type} (numbers : Numbers ν) (sha256 : String → HexDigest)
    (now : DateTime) (contract : ContractSymbol) (tsStart tsEnd : DateTime)
    (resolution : BarResolution) :
    (∀ client useRth bars,
      IBKRHistoricalDataSource.getBars client numbers sha256 useRth now contract tsStart tsEnd
        resolution = .ok bars →
      ∃ req ibBars times,
        IBKRHistoricalDataSource.barsRequest useRth contract tsStart tsEnd resolution = .ok req ∧
        client.reqHistoricalData req = .ok ibBars ∧
        ibBars.mapM (fun ibBar => IBKRHistoricalDataSource.coerceTsToUtc numbers ibBar.date) =
          .ok times ∧
        (HonoursWindow tsStart tsEnd bars ↔ OrderedInWindow tsStart tsEnd times)) ∧
    (∀ (venue : CcxtCryptoDataSource) fetchOhlcv bars,
      venue.getBars fetchOhlcv numbers sha256 now contract tsStart tsEnd resolution = .ok bars →
      ∃ symbol timeframe since rows times, venue.symbolMap.get? contract = some symbol ∧
        CcxtCryptoDataSource.timeframe? resolution = some timeframe ∧
        toUtc tsStart = .ok since ∧ fetchOhlcv symbol timeframe since = .ok rows ∧
        rows.mapM (CcxtCryptoDataSource.rowTs numbers) = .ok times ∧
        (HonoursWindow tsStart tsEnd bars ↔
          Increasing (times.filter (CcxtCryptoDataSource.tsInWindow tsStart tsEnd)))) ∧
    ∀ client symbols bars,
      DatabentoHistoricalDataSource.getBars client symbols sha256 now contract tsStart tsEnd
        resolution = .ok bars →
      ∃ symbol records,
        DatabentoHistoricalDataSource.resolveSymbol symbols contract = .ok symbol ∧
        client DatabentoHistoricalDataSource.dataset symbol
          DatabentoHistoricalDataSource.stypeContinuous tsStart tsEnd = .ok records ∧
        (HonoursWindow tsStart tsEnd bars ↔
          ((records.filter (DatabentoHistoricalDataSource.recordInWindow tsStart tsEnd)).map
            fun rec => rec.ts.instant).Nodup) :=
  ⟨fun _ _ _ h => IBKRHistoricalDataSource.getBars_honours_iff h,
    fun _ _ _ h => CcxtCryptoDataSource.getBars_honours_iff h,
    fun _ _ _ h => DatabentoHistoricalDataSource.getBars_honours_iff h⟩

/-! ## One afternoon -/

def dec8Epoch : ℕ := 1765152000

/-- A time of December 8th, given in units of a second's fraction since the epoch. -/
def onDec8 (unit x : ℕ) : Except String { t : DateTime // t.IsUtc } :=
  if h : (x - dec8Epoch * unit) * (1000000 / unit) < dayMicros then
    .ok ⟨⟨.dec8, (x - dec8Epoch * unit) * (1000000 / unit), h, some 0, DateTime.utc_offset_lt⟩, rfl⟩
  else .error "another day"

def wholeNumbers : Numbers ℕ where
  fromtimestamp := onDec8 1
  fromMillis := onDec8 1000
  fromisoformat _ := .error "Invalid isoformat string"
  decimal n := ⟨false, n, 0⟩
  int n := n
  json n := Nat.toDigits 10 n

/-- Seconds since the epoch of a minute after three in the afternoon. -/
def afternoonEpoch (minute : ℕ) : ℕ := dec8Epoch + 54000 + 60 * minute

def ibBarAt (minute : ℕ) : IBBar ℕ :=
  ⟨.epoch (afternoonEpoch minute), 100, 102, 98, 101, some 7⟩

def scriptedIB (minutes : List ℕ) : IBClient ℕ :=
  ⟨true, .ok (), fun _ => .ok (minutes.map ibBarAt)⟩

def scriptedOhlcv (minutes : List ℕ) : FetchOhlcv ℕ :=
  fun _ _ _ => .ok (minutes.map fun minute => [1000 * afternoonEpoch minute, 100, 102, 98, 101, 7])

def scriptedRecords (minutes : List (Fin 90)) : List DatabentoBar :=
  minutes.map fun minute => ⟨afternoon minute, ⟨false, 100, 0⟩, ⟨false, 102, 0⟩, ⟨false, 98, 0⟩,
    ⟨false, 101, 0⟩, 7⟩

def scriptedDatabento (minutes : List (Fin 90)) : DatabentoClient :=
  fun _ _ _ _ _ => .ok (scriptedRecords minutes)

def ibBarsOfHour (minutes : List ℕ) : Except SourceError (List DecimalBar) :=
  IBKRHistoricalDataSource.getBars (scriptedIB minutes) wholeNumbers (fun _ => zeroDigest) false
    (afternoon 80) "ESZ25" (afternoon 0) (afternoon 60) .day1

def venueBarsOfHour (minutes : List ℕ) : Except SourceError (List DecimalBar) :=
  coinbaseCryptoDataSource.getBars (scriptedOhlcv minutes) wholeNumbers (fun _ => zeroDigest)
    (afternoon 80) "BTCUSD" (afternoon 0) (afternoon 60) .day1

def databentoBarsOfHour (minutes : List (Fin 90)) : Except SourceError (List DecimalBar) :=
  DatabentoHistoricalDataSource.getBars (scriptedDatabento minutes)
    DatabentoHistoricalDataSource.continuousSymbols (fun _ => zeroDigest) (afternoon 80) "ESZ25"
    (afternoon 0) (afternoon 60) .day1

theorem exists_of_count {result : Except SourceError (List DecimalBar)} {n : ℕ}
    (h : result.map List.length = .ok n) : ∃ bars, result = .ok bars := by
  obtain ⟨bars, hBars, -⟩ := except_map_ok h
  exact ⟨bars, hBars⟩

/-- Rows in order; a row of a later hour and rows in order; records in any order. -/
theorem honoursWindow_sources_iff_hour :
    (∃ bars, ibBarsOfHour [5, 10] = .ok bars ∧ HonoursWindow (afternoon 0) (afternoon 60) bars) ∧
    (∃ bars, venueBarsOfHour [75, 5, 10] = .ok bars ∧
      HonoursWindow (afternoon 0) (afternoon 60) bars) ∧
    ∃ bars, databentoBarsOfHour [75, 10, 5] = .ok bars ∧
      HonoursWindow (afternoon 0) (afternoon 60) bars := by
  refine ⟨?_, ?_, ?_⟩
  · obtain ⟨bars, hBars⟩ := exists_of_count (show (ibBarsOfHour [5, 10]).map List.length = .ok 2 by
      decide +kernel)
    obtain ⟨req, ibBars, times, -, hRows, hTimes, hIff⟩ := (honoursWindow_sources_iff wholeNumbers
      (fun _ => zeroDigest) (afternoon 80) "ESZ25" (afternoon 0) (afternoon 60) .day1).1 _ _ _ hBars
    cases hRows
    have hScript : ([5, 10].map ibBarAt).mapM
        (fun ibBar => IBKRHistoricalDataSource.coerceTsToUtc wholeNumbers ibBar.date) =
          .ok [afternoon 5, afternoon 10] := by
      decide +kernel
    rw [hScript] at hTimes
    cases hTimes
    exact ⟨bars, hBars, hIff.mpr (by decide +kernel)⟩
  · obtain ⟨bars, hBars⟩ := exists_of_count
      (show (venueBarsOfHour [75, 5, 10]).map List.length = .ok 2 by decide +kernel)
    obtain ⟨symbol, timeframe, since, rows, times, -, -, -, hRows, hTimes, hIff⟩ :=
      (honoursWindow_sources_iff wholeNumbers (fun _ => zeroDigest) (afternoon 80) "BTCUSD"
        (afternoon 0) (afternoon 60) .day1).2.1 _ _ _ hBars
    cases hRows
    have hScript : ([75, 5, 10].map fun minute =>
        [1000 * afternoonEpoch minute, 100, 102, 98, 101, 7]).mapM
          (CcxtCryptoDataSource.rowTs wholeNumbers) =
          .ok [afternoon 75, afternoon 5, afternoon 10] := by
      decide +kernel
    rw [hScript] at hTimes
    cases hTimes
    exact ⟨bars, hBars, hIff.mpr (by decide +kernel)⟩
  · obtain ⟨bars, hBars⟩ := exists_of_count
      (show (databentoBarsOfHour [75, 10, 5]).map List.length = .ok 2 by decide +kernel)
    obtain ⟨symbol, records, -, hRecords, hIff⟩ :=
      (honoursWindow_sources_iff wholeNumbers (fun _ => zeroDigest) (afternoon 80) "ESZ25"
        (afternoon 0) (afternoon 60) .day1).2.2 _ _ _ hBars
    cases hRecords
    exact ⟨bars, hBars, hIff.mpr (by decide +kernel)⟩

theorem exists_dishonouring {result : Except SourceError (List DecimalBar)} (times : List DateTime)
    (h : result.map (fun bars => bars.map DecimalBar.ts) = .ok times)
    (hTimes : ¬OrderedInWindow (afternoon 0) (afternoon 60) times) :
    ∃ bars, result = .ok bars ∧ ¬HonoursWindow (afternoon 0) (afternoon 60) bars := by
  obtain ⟨bars, hBars, rfl⟩ := except_map_ok h
  exact ⟨bars, hBars, fun hHonours => hTimes (honoursWindow_iff.mp hHonours)⟩

/-- A row outside the window is passed on, rows out of order stay so, and a timestamp given
twice is passed on twice. -/
theorem rows_passed_on :
    (∃ bars, ibBarsOfHour [75] = .ok bars ∧ ¬HonoursWindow (afternoon 0) (afternoon 60) bars) ∧
    (∃ bars, venueBarsOfHour [10, 5] = .ok bars ∧
      ¬HonoursWindow (afternoon 0) (afternoon 60) bars) ∧
    ∃ bars, databentoBarsOfHour [5, 5] = .ok bars ∧
      ¬HonoursWindow (afternoon 0) (afternoon 60) bars := by
  refine ⟨?_, ?_, ?_⟩
  · exact exists_dishonouring [afternoon 75] (by decide +kernel) (by decide +kernel)
  · exact exists_dishonouring [afternoon 10, afternoon 5] (by decide +kernel) (by decide +kernel)
  · exact exists_dishonouring [afternoon 5, afternoon 5] (by decide +kernel) (by decide +kernel)

end Futur3.Data
