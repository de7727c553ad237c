import Futur3.Data.Types
import Futur3.Data.Utc
import Futur3.Prelude.Decimal
import Futur3.Prelude.Method
import Mathlib.Data.String.Basic

/-! # Records and their stored rows

Bars and settles with their prices as the decimals they are, and the rows in
which a dataframe holds them: prices as texts, timestamps in UTC. A record
read back from its row is the record with its timestamps in UTC.
-/

namespace Futur3.Storage

open Data Prelude

inductive StorageFailure where
  -- StorageError: "contract symbol too short to parse root: {s}"
  | symbolTooShort (contract : ContractSymbol)
  -- OverflowError of astimezone
  | overflow
  -- ValueError: "ParquetBarStore.read_bars requires query.resolution (bar read)"
  | resolutionRequired
  -- ValueError: "ParquetSettleStore.read_settles: as_of_date_end {end} < as_of_date_start {start}"
  | invertedDates (asOfDateEnd asOfDateStart : Date)
  -- StorageError: "corrupt settle_state in storage: {state_str}"
  | corruptSettleState (state : String)
  -- decimal.InvalidOperation of a text that is no number
  | invalidOperation (text : String)
  -- ValueError of BarResolution(value) or of a record's __post_init__
  | invalidRecord
deriving DecidableEq

@[ext]
structure DecimalBar where
  contract : ContractSymbol
  ts : DateTime
  resolution : BarResolution
  openPrice : Decimal
  high : Decimal
  low : Decimal
  close : Decimal
  volume : ℤ
  oi : Option ℤ
  sourceId : String
  asOfIso : DateTime
  contentBytesSha : String
  ts_aware : ts.isAware
  as_of_aware : asOfIso.isAware
  low_le_high : low.value ≤ high.value
  volume_nonneg : 0 ≤ volume
  oi_nonneg : ∀ n ∈ oi, 0 ≤ n
  sha_length : contentBytesSha.length = sha256HexLength

instance : DecidableEq DecimalBar := fun _ _ => decidable_of_iff' _ DecimalBar.ext_iff

@[ext]
structure DecimalSettle where
  contract : ContractSymbol
  asOfDate : Date
  settle : Decimal
  settleState : SettleState
  openPrice : Decimal
  high : Decimal
  low : Decimal
  last : Decimal
  change : Decimal
  volumeEst : ℤ
  oiPrior : ℤ
  sourceId : String := "cme_public_settlements"
  asOfIso : Option DateTime := none
  contentBytesSha : String := ""
  cmeMonthCode : String := ""
  as_of_aware : ∀ t ∈ asOfIso, t.isAware
  low_le_high : low.value ≤ high.value
  volume_nonneg : 0 ≤ volumeEst
  oi_nonneg : 0 ≤ oiPrior
  sha_length : contentBytesSha ≠ "" → contentBytesSha.length = sha256HexLength

instance : DecidableEq DecimalSettle := fun _ _ => decidable_of_iff' _ DecimalSettle.ext_iff

def DecimalBar.toRawBar (b : DecimalBar) : RawBar where
  contract := b.contract
  ts := b.ts
  resolution := b.resolution
  openPrice := b.openPrice.value
  high := b.high.value
  low := b.low.value
  close := b.close.value
  volume := b.volume
  oi := b.oi
  sourceId := b.sourceId
  asOfIso := b.asOfIso
  contentBytesSha := b.contentBytesSha
  ts_aware := b.ts_aware
  as_of_aware := b.as_of_aware
  low_le_high := b.low_le_high
  volume_nonneg := b.volume_nonneg
  oi_nonneg := b.oi_nonneg
  sha_length := b.sha_length

def DecimalSettle.toSettle (s : DecimalSettle) : Settle where
  contract := s.contract
  asOfDate := s.asOfDate
  settle := s.settle.value
  settleState := s.settleState
  openPrice := s.openPrice.value
  high := s.high.value
  low := s.low.value
  last := s.last.value
  change := s.change.value
  volumeEst := s.volumeEst
  oiPrior := s.oiPrior
  sourceId := s.sourceId
  asOfIso := s.asOfIso
  contentBytesSha := s.contentBytesSha
  cmeMonthCode := s.cmeMonthCode
  as_of_aware := s.as_of_aware
  low_le_high := s.low_le_high
  volume_nonneg := s.volume_nonneg
  oi_nonneg := s.oi_nonneg
  sha_length := s.sha_length

/-! ## Columns -/

def astimezoneUtc (t : DateTime) : Except StorageFailure DateTime :=
  match t.toUtc? with
  | some u => pure u
  | none => throw .overflow

/-- `Decimal(str(row[column]))`. -/
def decimalColumn (text : String) : Except StorageFailure Decimal :=
  match Decimal.ofStr? text with
  | some d => pure d
  | none => throw (.invalidOperation text)

def settleStateText : SettleState → String
  | .live => "live"
  | .preliminary => "preliminary"
  | .final => "final"

/-- The entry of a text in `_SETTLE_STATE_RANK`, with the state it stands for. -/
def settleStateOf? (text : String) : Option (SettleState × ℕ) :=
  if text = "live" then some (.live, 0)
  else if text = "preliminary" then some (.preliminary, 1)
  else if text = "final" then some (.final, 2)
  else none

def resolutionOf? (text : String) : Option BarResolution :=
  [BarResolution.sec1, .sec5, .min1, .min5, .min15, .hour1, .day1, .settle].find? fun r =>
    r.value = text

theorem astimezoneUtc_ok_iff {t u : DateTime} : astimezoneUtc t = .ok u ↔ t.toUtc? = some u := by
  unfold astimezoneUtc
  cases t.toUtc? with
  | none => simp [throw, throwThe, MonadExceptOf.throw]
  | some v => simp [pure, Except.pure]

@[simp] theorem decimalColumn_str (d : Decimal) : decimalColumn d.str = .ok d := by
  unfold decimalColumn
  rw [Decimal.ofStr?_str]
  rfl

theorem settleStateOf?_text (s : SettleState) :
    ∃ rank, settleStateOf? (settleStateText s) = some (s, rank) := by
  cases s
  · exact ⟨0, rfl⟩
  · exact ⟨1, rfl⟩
  · exact ⟨2, rfl⟩

theorem resolutionOf?_value (r : BarResolution) : resolutionOf? r.value = some r := by
  cases r <;> decide

/-! ## Rows -/

structure BarRow where
  contract : String
  ts : DateTime
  resolution : String
  openPrice : String
  high : String
  low : String
  close : String
  volume : ℤ
  oi : Option ℤ
  sourceId : String
  asOfIso : DateTime
  contentBytesSha : String
deriving DecidableEq

structure SettleRow where
  contract : String
  asOfDate : Date
  settle : String
  settleState : String
  openPrice : String
  high : String
  low : String
  last : String
  change : String
  volumeEst : ℤ
  oiPrior : ℤ
  sourceId : String
  asOfIso : Option DateTime
  contentBytesSha : String
  cmeMonthCode : String
deriving DecidableEq

def barToRow (b : DecimalBar) : Except StorageFailure BarRow := do
  let ts ← astimezoneUtc b.ts
  let asOfIso ← astimezoneUtc b.asOfIso
  return {
    contract := b.contract, ts := ts, resolution := b.resolution.value
    openPrice := b.openPrice.str, high := b.high.str, low := b.low.str, close := b.close.str
    volume := b.volume, oi := b.oi, sourceId := b.sourceId, asOfIso := asOfIso
    contentBytesSha := b.contentBytesSha }

def rowToBar (row : BarRow) : Except StorageFailure DecimalBar := do
  let resolution ← match resolutionOf? row.resolution with
    | some r => pure r
    | none => throw .invalidRecord
  let openPrice ← decimalColumn row.openPrice
  let high ← decimalColumn row.high
  let low ← decimalColumn row.low
  let close ← decimalColumn row.close
  if h : row.ts.isAware ∧ row.asOfIso.isAware ∧ low.value ≤ high.value ∧ 0 ≤ row.volume ∧
      (∀ n ∈ row.oi, 0 ≤ n) ∧ row.contentBytesSha.length = sha256HexLength then
    return {
      contract := row.contract, ts := row.ts, resolution := resolution
      openPrice := openPrice, high := high, low := low, close := close
      volume := row.volume, oi := row.oi, sourceId := row.sourceId, asOfIso := row.asOfIso
      contentBytesSha := row.contentBytesSha
      ts_aware := h.1, as_of_aware := h.2.1, low_le_high := h.2.2.1
      volume_nonneg := h.2.2.2.1, oi_nonneg := h.2.2.2.2.1, sha_length := h.2.2.2.2.2 }
  else throw .invalidRecord

/-- One row of a dataframe of settles, with the given column for the capture time. -/
def settleRow (s : DecimalSettle) (asOfIso : Option DateTime) : SettleRow where
  contract := s.contract
  asOfDate := s.asOfDate
  settle := s.settle.str
  settleState := settleStateText s.settleState
  openPrice := s.openPrice.str
  high := s.high.str
  low := s.low.str
  last := s.last.str
  change := s.change.str
  volumeEst := s.volumeEst
  oiPrior := s.oiPrior
  sourceId := s.sourceId
  asOfIso := asOfIso
  contentBytesSha := s.contentBytesSha
  cmeMonthCode := s.cmeMonthCode

def settleToRow (s : DecimalSettle) : Except StorageFailure SettleRow :=
  match s.asOfIso with
  | none => pure (settleRow s none)
  | some t => do
    let u ← astimezoneUtc t
    return settleRow s (some u)

/-- `Settle(...)` from a row whose state and capture time have been read. -/
def buildSettle (row : SettleRow) (state : SettleState) (asOfIso : Option DateTime) :
    Except StorageFailure DecimalSettle := do
  let settle ← decimalColumn row.settle
  let openPrice ← decimalColumn row.openPrice
  let high ← decimalColumn row.high
  let low ← decimalColumn row.low
  let last ← decimalColumn row.last
  let change ← decimalColumn row.change
  if h : (∀ t ∈ asOfIso, t.isAware) ∧ low.value ≤ high.value ∧ 0 ≤ row.volumeEst ∧
      0 ≤ row.oiPrior ∧
      (row.contentBytesSha ≠ "" → row.contentBytesSha.length = sha256HexLength) then
    return {
      contract := row.contract, asOfDate := row.asOfDate, settle := settle, settleState := state
      openPrice := openPrice, high := high, low := low, last := last, change := change
      volumeEst := row.volumeEst, oiPrior := row.oiPrior, sourceId := row.sourceId
      asOfIso := asOfIso, contentBytesSha := row.contentBytesSha
      cmeMonthCode := row.cmeMonthCode
      as_of_aware := h.1, low_le_high := h.2.1, volume_nonneg := h.2.2.1
      oi_nonneg := h.2.2.2.1, sha_length := h.2.2.2.2 }
  else throw .invalidRecord

def rowToSettle (row : SettleRow) : Except StorageFailure DecimalSettle :=
  match settleStateOf? row.settleState with
  | none => throw (.corruptSettleState row.settleState)
  | some (state, _) => buildSettle row state row.asOfIso

/-! ## Round trips -/

/-- Equal in every field; timestamps are equal when they are the same instant. -/
structure SameBar (a b : DecimalBar) : Prop where
  contract : a.contract = b.contract
  ts : a.ts.instant = b.ts.instant
  resolution : a.resolution = b.resolution
  openPrice : a.openPrice = b.openPrice
  high : a.high = b.high
  low : a.low = b.low
  close : a.close = b.close
  volume : a.volume = b.volume
  oi : a.oi = b.oi
  sourceId : a.sourceId = b.sourceId
  asOfIso : a.asOfIso.instant = b.asOfIso.instant
  contentBytesSha : a.contentBytesSha = b.contentBytesSha

structure SameSettle (a b : DecimalSettle) : Prop where
  contract : a.contract = b.contract
  asOfDate : a.asOfDate = b.asOfDate
  settle : a.settle = b.settle
  settleState : a.settleState = b.settleState
  openPrice : a.openPrice = b.openPrice
  high : a.high = b.high
  low : a.low = b.low
  last : a.last = b.last
  change : a.change = b.change
  volumeEst : a.volumeEst = b.volumeEst
  oiPrior : a.oiPrior = b.oiPrior
  sourceId : a.sourceId = b.sourceId
  asOfIso : a.asOfIso.map DateTime.instant = b.asOfIso.map DateTime.instant
  contentBytesSha : a.contentBytesSha = b.contentBytesSha
  cmeMonthCode : a.cmeMonthCode = b.cmeMonthCode

theorem rowToBar_barToRow {b : DecimalBar} {row : BarRow} (h : barToRow b = .ok row) :
    ∃ b', rowToBar row = .ok b' ∧ SameBar b' b := by
  obtain ⟨ts, hts, h⟩ := except_bind_ok_iff.mp h
  obtain ⟨asOfIso, hAsOf, h⟩ := except_bind_ok_iff.mp h
  obtain rfl := except_pure_ok_iff.mp h
  rw [astimezoneUtc_ok_iff] at hts hAsOf
  have hAware := DateTime.isAware_of_isUtc (DateTime.isUtc_of_toUtc? hts)
  have hAware' := DateTime.isAware_of_isUtc (DateTime.isUtc_of_toUtc? hAsOf)
  have hChecks : ts.isAware ∧ asOfIso.isAware ∧ b.low.value ≤ b.high.value ∧ 0 ≤ b.volume ∧
      (∀ n ∈ b.oi, 0 ≤ n) ∧ b.contentBytesSha.length = sha256HexLength :=
    ⟨hAware, hAware', b.low_le_high, b.volume_nonneg, b.oi_nonneg, b.sha_length⟩
  refine ⟨{ b with ts := ts, asOfIso := asOfIso, ts_aware := hAware, as_of_aware := hAware' }, ?_, ?_⟩
  · unfold rowToBar
    simp only [resolutionOf?_value, decimalColumn_str]
    exact dif_pos hChecks
  · exact ⟨rfl, DateTime.instant_toUtc? hts, rfl, rfl, rfl, rfl, rfl, rfl, rfl, rfl,
      DateTime.instant_toUtc? hAsOf, rfl⟩

theorem buildSettle_settleRow (s : DecimalSettle) {asOfIso : Option DateTime}
    (hAware : ∀ t ∈ asOfIso, t.isAware) :
    buildSettle (settleRow s asOfIso) s.settleState asOfIso =
      .ok { s with asOfIso := asOfIso, as_of_aware := hAware } := by
  have hChecks : (∀ t ∈ asOfIso, t.isAware) ∧ s.low.value ≤ s.high.value ∧ 0 ≤ s.volumeEst ∧
      0 ≤ s.oiPrior ∧
      (s.contentBytesSha ≠ "" → s.contentBytesSha.length = sha256HexLength) :=
    ⟨hAware, s.low_le_high, s.volume_nonneg, s.oi_nonneg, s.sha_length⟩
  unfold buildSettle
  simp only [settleRow, decimalColumn_str]
  exact dif_pos hChecks

theorem settleToRow_ok_iff {s : DecimalSettle} {row : SettleRow} :
    settleToRow s = .ok row ↔
      ∃ asOfIso, row = settleRow s asOfIso ∧ s.asOfIso.mapM DateTime.toUtc? = some asOfIso := by
  unfold settleToRow
  cases s.asOfIso with
  | none =>
    rw [except_pure_ok_iff]
    constructor
    · rintro rfl
      exact ⟨none, rfl, rfl⟩
    · rintro ⟨asOfIso, rfl, h⟩
      rw [← Option.some.inj h]
  | some t =>
    simp only [except_bind_ok_iff, astimezoneUtc_ok_iff, except_pure_ok_iff]
    constructor
    · rintro ⟨u, hu, rfl⟩
      exact ⟨some u, rfl, by simp [hu]⟩
    · rintro ⟨asOfIso, rfl, h⟩
      cases hu : t.toUtc? with
      | none => simp [hu] at h
      | some u =>
        have hSome : some u = asOfIso := by simpa [hu] using h
        exact ⟨u, rfl, by rw [hSome]⟩

theorem rowToSettle_settleToRow {s : DecimalSettle} {row : SettleRow} (h : settleToRow s = .ok row) :
    ∃ s', rowToSettle row = .ok s' ∧ SameSettle s' s := by
  obtain ⟨asOfIso, rfl, hUtc⟩ := settleToRow_ok_iff.mp h
  have hTimes : (∀ t ∈ asOfIso, t.isAware) ∧
      asOfIso.map DateTime.instant = s.asOfIso.map DateTime.instant := by
    cases hAsOf : s.asOfIso with
    | none =>
      rw [hAsOf] at hUtc
      obtain rfl : none = asOfIso := Option.some.inj hUtc
      exact ⟨by simp, rfl⟩
    | some t =>
      rw [hAsOf] at hUtc
      cases hu : t.toUtc? with
      | none => simp [hu] at hUtc
      | some u =>
        obtain rfl : some u = asOfIso := by simpa [hu] using hUtc
        refine ⟨?_, congrArg some (DateTime.instant_toUtc? hu)⟩
        rintro t' ⟨⟩
        exact DateTime.isAware_of_isUtc (DateTime.isUtc_of_toUtc? hu)
  obtain ⟨rank, hState⟩ := settleStateOf?_text s.settleState
  have hBuild := buildSettle_settleRow s hTimes.1
  refine ⟨{ s with asOfIso := asOfIso, as_of_aware := hTimes.1 }, ?_, ?_⟩
  · rw [← hBuild]
    unfold rowToSettle
    simp only [settleRow, hState]
  · exact ⟨rfl, rfl, rfl, rfl, rfl, rfl, rfl, rfl, rfl, rfl, rfl, rfl, hTimes.2, rfl, rfl⟩

end Futur3.Storage
