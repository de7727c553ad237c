import Futur3.Data.Types
import Futur3.Prelude.Dict

/-! # Verifier policies and verified records

A policy is one flat rule per field with an umbrella rule for the rest. Overrides
of overrides are never consulted by the verifier, so an override is a flat rule.
-/

namespace Futur3.Data

open Prelude

inductive PolicyKind where
  | failClosed
  | majorityVote
  | highestTier
deriving DecidableEq, Repr

def PolicyKind.text : PolicyKind → String
  | failClosed => "fail_closed"
  | majorityVote => "majority_vote"
  | highestTier => "highest_tier"

inductive ToleranceBand where
  | tight
  | normal
  | wide
deriving DecidableEq, Repr

def ToleranceBand.text : ToleranceBand → String
  | tight => "TIGHT"
  | normal => "NORMAL"
  | wide => "WIDE"

/-- A consensus rule without per-field overrides. -/
structure FieldPolicy where
  policyId : String
  kind : PolicyKind
  minQuorum : ℤ
  toleranceBand : ToleranceBand
  requireTierT2OrBetter : Bool
deriving DecidableEq

structure VerifierPolicy extends FieldPolicy where
  perFieldPolicy : Dict String FieldPolicy

def VerifierPolicy.resolveForField (policy : VerifierPolicy) (fieldName : String) : FieldPolicy :=
  (policy.perFieldPolicy.get? fieldName).getD policy.toFieldPolicy

def fieldSettle : String := "settle"
def fieldOhlc : String := "ohlc"
def fieldClose : String := "close"

def t2OrBetterMaxTier : SourceTier := .t2Macro

def wideRelativeTolerance : ℚ := 5 / 100

/-! ## Verified records and diagnostics -/

@[ext]
structure VerifiedSettle where
  contract : ContractSymbol
  asOfDate : Date
  settle : ℚ
  settleState : SettleState
  nSourcesAgreed : ℕ
  sourceProvenanceHashes : List String
  verifierRunHash : String
  tierUsed : SourceTier
  policyId : String
  run_hash_length : verifierRunHash.length = sha256HexLength
  provenance_length : ∀ h ∈ sourceProvenanceHashes, h.length = sha256HexLength

instance : DecidableEq VerifiedSettle := fun _ _ => decidable_of_iff' _ VerifiedSettle.ext_iff

@[ext]
structure VerifiedBar where
  contract : ContractSymbol
  ts : DateTime
  resolution : BarResolution
  openPrice : ℚ
  high : ℚ
  low : ℚ
  close : ℚ
  volume : ℤ
  nSourcesAgreed : ℕ
  sourceProvenanceHashes : List String
  verifierRunHash : String
  prevBarHash : Option String
  tierUsed : SourceTier
  policyId : String
  ts_aware : ts.isAware
  run_hash_length : verifierRunHash.length = sha256HexLength
  prev_hash_length : ∀ h ∈ prevBarHash, h.length = sha256HexLength

instance : DecidableEq VerifiedBar := fun _ _ => decidable_of_iff' _ VerifiedBar.ext_iff

/-- Sources responded and disagreed; quoted values are kept as numbers. -/
@[ext]
structure DisagreementEvent where
  contract : ContractSymbol
  barTs : DateTime
  resolution : BarResolution
  field : String
  sources : List String
  values : List ℚ
  diffMagnitudeMax : ℚ
  toleranceUsed : ToleranceBand
  policyKind : PolicyKind
  quorumRequired : ℤ
  quorumAchieved : ℕ
  detectedAt : DateTime
  policyId : String
  detected_aware : detectedAt.isAware
  values_length : sources.length = values.length

instance : DecidableEq DisagreementEvent := fun _ _ => decidable_of_iff' _ DisagreementEvent.ext_iff

@[ext]
structure IncompleteBar where
  contract : ContractSymbol
  barTs : DateTime
  resolution : BarResolution
  nSourcesResponded : ℕ
  nSourcesRequired : ℤ
  sourcesPending : List String
  detectedAt : DateTime
  policyId : String
  detected_aware : detectedAt.isAware

instance : DecidableEq IncompleteBar := fun _ _ => decidable_of_iff' _ IncompleteBar.ext_iff

end Futur3.Data
