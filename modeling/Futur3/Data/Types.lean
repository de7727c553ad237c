import Futur3.Data.Calendar
import Mathlib.Algebra.Order.Ring.Rat

/-! # Records of the data layer

Prices are exact decimals, read as rationals. Each record carries what its
`__post_init__` checks, so a value that the constructor would reject does not
exist.
-/

namespace Futur3.Data

/-- `<root><month_code><year_2digit>`, for instance `ESM26`. -/
abbrev ContractSymbol := String

def sha256HexLength : ℕ := 64

theorem length_zeros :
    (String.ofList (List.replicate sha256HexLength '0')).length = sha256HexLength := by
  simp

theorem no_open_interest : ∀ n ∈ (none : Option ℤ), 0 ≤ n := by simp

/-- Lower value means higher trust. -/
inductive SourceTier where
  | t1ExchangeHistorical
  | t2Exchange
  | t2Broker
  | t2Macro
  | t3Aggregator
  | t4Derived
deriving DecidableEq, Repr

def SourceTier.value : SourceTier → ℕ
  | t1ExchangeHistorical => 1
  | t2Exchange => 2
  | t2Broker => 3
  | t2Macro => 4
  | t3Aggregator => 5
  | t4Derived => 6

theorem SourceTier.value_injective : Function.Injective SourceTier.value := by
  intro a b h
  cases a <;> cases b <;> first | rfl | cases h

inductive BarResolution where
  | sec1
  | sec5
  | min1
  | min5
  | min15
  | hour1
  | day1
  | settle
deriving DecidableEq, Repr

def BarResolution.value : BarResolution → String
  | sec1 => "1s"
  | sec5 => "5s"
  | min1 => "1m"
  | min5 => "5m"
  | min15 => "15m"
  | hour1 => "1h"
  | day1 => "1d"
  | settle => "settle"

theorem BarResolution.value_injective : Function.Injective BarResolution.value := by
  intro a b h
  revert h
  cases a <;> cases b <;> decide

inductive SettleState where
  | live
  | preliminary
  | final
deriving DecidableEq, Repr

@[ext]
structure RawBar where
  contract : ContractSymbol
  ts : DateTime
  resolution : BarResolution
  openPrice : ℚ
  high : ℚ
  low : ℚ
  close : ℚ
  volume : ℤ
  oi : Option ℤ
  sourceId : String
  asOfIso : DateTime
  contentBytesSha : String
  ts_aware : ts.isAware
  as_of_aware : asOfIso.isAware
  low_le_high : low ≤ high
  volume_nonneg : 0 ≤ volume
  oi_nonneg : ∀ n ∈ oi, 0 ≤ n
  sha_length : contentBytesSha.length = sha256HexLength

instance : DecidableEq RawBar := fun _ _ => decidable_of_iff' _ RawBar.ext_iff

/-- The daily settlement record of one source. `oiPrior` is the prior day's open interest. -/
@[ext]
structure Settle where
  contract : ContractSymbol
  asOfDate : Date
  settle : ℚ
  settleState : SettleState
  openPrice : ℚ
  high : ℚ
  low : ℚ
  last : ℚ
  change : ℚ
  volumeEst : ℤ
  oiPrior : ℤ
  sourceId : String := "cme_public_settlements"
  asOfIso : Option DateTime := none
  contentBytesSha : String := ""
  cmeMonthCode : String := ""
  as_of_aware : ∀ t ∈ asOfIso, t.isAware
  low_le_high : low ≤ high
  volume_nonneg : 0 ≤ volumeEst
  oi_nonneg : 0 ≤ oiPrior
  sha_length : contentBytesSha ≠ "" → contentBytesSha.length = sha256HexLength

instance : DecidableEq Settle := fun _ _ => decidable_of_iff' _ Settle.ext_iff

end Futur3.Data
