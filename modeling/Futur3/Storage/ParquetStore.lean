import Futur3.Prelude.StoreLaws
import Futur3.Storage.Records
import Mathlib.Data.Prod.Lex

/-! # The Parquet stores of bars and of settles

Both stores are partitioned writers that differ in the partition of a record,
in the key by which duplicates are found and in the order of the rows. A
dataframe written to a file reads back as it was written, and its sort is
stable; a file is known by the values of its partition.
-/

namespace Futur3.Storage

open Data Prelude Selection

/-! ## Roots -/

def symbolSuffixLen : ℕ := 3

/-- `s[:-_SYMBOL_SUFFIX_LEN]`. -/
def rootOf (contract : ContractSymbol) : String :=
  String.ofList (contract.toList.take (contract.toList.length - symbolSuffixLen))

/-- `_bar_root` and `_settle_root`, which the stores define each for itself. -/
def storeRoot (contract : ContractSymbol) : Except StorageFailure String :=
  if contract.toList.length ≤ symbolSuffixLen then throw (.symbolTooShort contract)
  else pure (rootOf contract)

def barRoot (contract : ContractSymbol) : Except StorageFailure String := storeRoot contract

def settleRoot (contract : ContractSymbol) : Except StorageFailure String := storeRoot contract

theorem storeRoot_ok_iff {contract : ContractSymbol} {root : String} :
    storeRoot contract = .ok root ↔
      symbolSuffixLen < contract.toList.length ∧ rootOf contract = root := by
  unfold storeRoot
  rw [except_guard_ok_iff, except_pure_ok_iff, not_le]

/-! ## Bars -/

structure BarKey where
  contract : String
  ts : DateTime
  resolution : String
  contentBytesSha : String
deriving DecidableEq

structure BarPartition where
  root : String
  resolution : String
  year : ℕ
  month : ℕ
deriving DecidableEq

def barKey (row : BarRow) : BarKey := ⟨row.contract, row.ts, row.resolution, row.contentBytesSha⟩

/-- `_SORT_KEYS`: the timestamp, then the hash. -/
def barOrder (row : BarRow) : ℤ ×ₗ String := toLex (row.ts.instant, row.contentBytesSha)

def barPartition (key : BarKey) : BarPartition :=
  ⟨rootOf key.contract, key.resolution, key.ts.date.year, key.ts.date.month⟩

def barPlace (b : DecimalBar) : Except StorageFailure BarPartition := do
  let tsUtc ← astimezoneUtc b.ts
  let root ← barRoot b.contract
  return ⟨root, b.resolution.value, tsUtc.date.year, tsUtc.date.month⟩

theorem barPartition_of_ok {b : DecimalBar} {p : BarPartition} {row : BarRow}
    (hPlace : barPlace b = .ok p) (hRow : barToRow b = .ok row) : barPartition (barKey row) = p := by
  obtain ⟨ts, hts, hPlace⟩ := except_bind_ok_iff.mp hPlace
  obtain ⟨root, hRoot, hPlace⟩ := except_bind_ok_iff.mp hPlace
  obtain rfl := except_pure_ok_iff.mp hPlace
  obtain ⟨ts', hts', hRow⟩ := except_bind_ok_iff.mp hRow
  obtain ⟨asOfIso, -, hRow⟩ := except_bind_ok_iff.mp hRow
  obtain rfl := except_pure_ok_iff.mp hRow
  rw [hts] at hts'
  cases hts'
  obtain ⟨-, rfl⟩ := storeRoot_ok_iff.mp hRoot
  rfl

def barStore : Writer StorageFailure DecimalBar BarRow BarKey BarPartition (ℤ ×ₗ String) where
  key := barKey
  part := barPartition
  order := barOrder
  place := barPlace
  encode := barToRow
  part_key_of_ok := barPartition_of_ok

abbrev BarFiles := Files BarPartition BarRow

def writeBars (bars : List DecimalBar) : Method StorageFailure BarFiles WriteCount :=
  barStore.write bars

structure StoreQuery where
  contract : ContractSymbol
  tsStart : DateTime
  tsEnd : DateTime
  resolution : Option BarResolution := none
  inclusiveEnd : Bool := false
  start_aware : tsStart.isAware
  end_aware : tsEnd.isAware
  start_lt_end : tsStart.instant < tsEnd.instant

def twoDigits (n : ℕ) : String := String.ofList (zeroPadded 2 n)

/-- The parts of a file's path below the directory of its root and resolution. -/
def barPath (p : BarPartition) : String ×ₗ String :=
  toLex ("year=" ++ toString p.year, "month=" ++ twoDigits p.month)

def inBarWindow (query : StoreQuery) (tsStart tsEnd : DateTime) (row : BarRow) : Bool :=
  row.contract = query.contract && tsStart.instant ≤ row.ts.instant &&
    if query.inclusiveEnd then row.ts.instant ≤ tsEnd.instant else row.ts.instant < tsEnd.instant

def readBars (query : StoreQuery) (files : BarFiles) : Except StorageFailure (List DecimalBar) :=
  match query.resolution with
  | none => throw .resolutionRequired
  | some resolution => do
    let root ← barRoot query.contract
    let inDir : BarPartition → Bool := fun p => p.root = root ∧ p.resolution = resolution.value
    if files.keys.any inDir then
      let tsStart ← astimezoneUtc query.tsStart
      let tsEnd ← astimezoneUtc query.tsEnd
      let df := (readFiles inDir barPath files).filter (inBarWindow query tsStart tsEnd)
      (sortBy barOrder df).mapM rowToBar
    else return []

/-! ## Settles -/

structure SettleKey where
  contract : String
  asOfDate : Date
  settleState : String
  contentBytesSha : String
deriving DecidableEq

structure SettlePartition where
  root : String
  year : ℕ
deriving DecidableEq

def settleKey (row : SettleRow) : SettleKey :=
  ⟨row.contract, row.asOfDate, row.settleState, row.contentBytesSha⟩

/-- The chronological rank of a state's text; the table has every text that is stored. -/
def settleTextRank (text : String) : ℕ := ((settleStateOf? text).map Prod.snd).getD 3

/-- `_sort_exprs`: the date, then the rank of the state, then the hash. -/
def settleOrder (row : SettleRow) : Date ×ₗ ℕ ×ₗ String :=
  toLex (row.asOfDate, toLex (settleTextRank row.settleState, row.contentBytesSha))

def settlePartition (key : SettleKey) : SettlePartition := ⟨rootOf key.contract, key.asOfDate.year⟩

def settlePlace (s : DecimalSettle) : Except StorageFailure SettlePartition := do
  let root ← settleRoot s.contract
  return ⟨root, s.asOfDate.year⟩

theorem settlePartition_of_ok {s : DecimalSettle} {p : SettlePartition} {row : SettleRow}
    (hPlace : settlePlace s = .ok p) (hRow : settleToRow s = .ok row) :
    settlePartition (settleKey row) = p := by
  obtain ⟨root, hRoot, hPlace⟩ := except_bind_ok_iff.mp hPlace
  obtain rfl := except_pure_ok_iff.mp hPlace
  obtain ⟨asOfIso, rfl, -⟩ := settleToRow_ok_iff.mp hRow
  obtain ⟨-, rfl⟩ := storeRoot_ok_iff.mp hRoot
  rfl

def settleStore :
    Writer StorageFailure DecimalSettle SettleRow SettleKey SettlePartition (Date ×ₗ ℕ ×ₗ String) where
  key := settleKey
  part := settlePartition
  order := settleOrder
  place := settlePlace
  encode := settleToRow
  part_key_of_ok := settlePartition_of_ok

abbrev SettleFiles := Files SettlePartition SettleRow

def writeSettles (settles : List DecimalSettle) : Method StorageFailure SettleFiles WriteCount :=
  settleStore.write settles

def settlePath (p : SettlePartition) : String := "year=" ++ toString p.year

def inSettleWindow (contract : ContractSymbol) (asOfDateStart asOfDateEnd : Date)
    (row : SettleRow) : Bool :=
  row.contract = contract && asOfDateStart ≤ row.asOfDate && row.asOfDate ≤ asOfDateEnd

def readSettles (contract : ContractSymbol) (asOfDateStart asOfDateEnd : Date)
    (files : SettleFiles) : Except StorageFailure (List DecimalSettle) :=
  if asOfDateEnd < asOfDateStart then throw (.invertedDates asOfDateEnd asOfDateStart)
  else do
    let root ← settleRoot contract
    let inDir : SettlePartition → Bool := fun p => p.root = root
    let df := (readFiles inDir settlePath files).filter
      (inSettleWindow contract asOfDateStart asOfDateEnd)
    (sortBy settleOrder df).mapM rowToSettle

end Futur3.Storage
