import Futur3.Data.VerifierPolicy
import Futur3.Prelude.JsonText
import Futur3.Prelude.Method
import Futur3.Prelude.Selection
import Futur3.Prelude.Sha256
import Mathlib.Algebra.Order.Group.Unbundled.Abs
import Mathlib.Data.String.Basic

/-! # The multi-source verifier

Sources and the clock live in a world of their own: each call may read and
change it. What a source raises is either a data-source error, which makes it
a pending one, or anything else, which ends the call.
-/

namespace Futur3.Data

open Prelude Prelude.Method Selection

/-! ## Hashes -/

abbrev HashText := { text : String // text.length = sha256HexLength }

@[ext]
structure HexDigest where
  text : String
  length_eq : text.length = sha256HexLength
  hex : ∀ c ∈ text.toList, c ∈ "0123456789abcdef".toList

instance : DecidableEq HexDigest := fun _ _ => decidable_of_iff' _ HexDigest.ext_iff

/-- `hashlib.sha256(payload.encode()).hexdigest()`. -/
def sha256Hexdigest (payload : String) : HexDigest :=
  ⟨Sha256.hexdigest payload, Sha256.length_hexdigest payload, Sha256.hex_hexdigest payload⟩

structure SourceStamp where
  sourceId : String
  asOfIso : DateTime
  contentBytesSha : String
deriving DecidableEq

def separator : String := "||"

def SourceStamp.payload (stamp : SourceStamp) : String :=
  separator.intercalate [stamp.sourceId, stamp.asOfIso.isoformat, stamp.contentBytesSha]

def policyJson (policy : FieldPolicy) : String :=
  String.ofList (JsonText.object [
    ("kind", JsonText.quote policy.kind.text.toList),
    ("min_quorum", JsonText.intText policy.minQuorum),
    ("policy_id", JsonText.quote policy.policyId.toList),
    ("require_tier_t2_or_better", JsonText.boolText policy.requireTierT2OrBetter),
    ("tolerance_band", JsonText.quote policy.toleranceBand.text.toList)])

section Hashing

variable (sha256 : String → HexDigest)

def sourceProvenanceHash (stamp : SourceStamp) : HexDigest := sha256 stamp.payload

def toleranceSignature (policy : FieldPolicy) : HexDigest := sha256 (policyJson policy)

def barIdentifier (contract : ContractSymbol) (moment : String) (resolution : BarResolution) :
    String :=
  separator.intercalate [contract, moment, resolution.value]

def runPayload (resolvedPolicy : FieldPolicy) (sourceProvenanceHashes : List HexDigest)
    (barId : String) : String :=
  let sortedProvenance := (sourceProvenanceHashes.map HexDigest.text).insertionSort (· ≤ ·)
  separator.intercalate [resolvedPolicy.policyId, separator.intercalate sortedProvenance,
    (toleranceSignature sha256 resolvedPolicy).text, barId]

def computeVerifierRunHash (resolvedPolicy : FieldPolicy)
    (sourceProvenanceHashes : List HexDigest) (barId : String) : HexDigest :=
  sha256 (runPayload sha256 resolvedPolicy sourceProvenanceHashes barId)

end Hashing

/-! ## Consensus -/

inductive VerifierError where
  | noSources
  | naiveBarTs (barTs : DateTime)
  | unsupportedResolution (resolution : BarResolution)
  | overflow
  | emptyBars
  | emptySettles
  | asOfIsoMissing (sourceId : String)
  | naiveDetectedAt (detectedAt : DateTime)
  | sourceRaised (sourceId exception : String)
deriving DecidableEq

structure Consensus (α : Type) where
  agreed : Bool
  value : α
  maxDiff : ℚ
deriving DecidableEq

/-- `sorted(values)[len(values) // 2]`. -/
def medianOf (values : List ℚ) : ℚ :=
  (values.insertionSort (· ≤ ·)).getD (values.length / 2) 0

def maxOf (values : List ℚ) : ℚ := values.max?.getD 0

/-- Agreement and largest difference under the wide band. -/
def wideAgreement (values : List ℚ) : Bool × ℚ :=
  let median := medianOf values
  if median = 0 then
    let agreed := values.all fun v => decide (v = 0)
    (agreed, if agreed then 0 else maxOf (values.map fun v => |v|))
  else
    let maxRelative := maxOf (values.map fun v => |v - median| / |median|)
    (decide (maxRelative ≤ wideRelativeTolerance), maxRelative)

def checkSettleConsensus (settles : List Settle) (resolvedPolicy : FieldPolicy) : Consensus ℚ :=
  let values := settles.map Settle.settle
  match values with
  | [] => ⟨false, 0, 0⟩
  | first :: _ =>
    match resolvedPolicy.toleranceBand with
    | .wide => ⟨(wideAgreement values).1, medianOf values, (wideAgreement values).2⟩
    | .tight | .normal =>
      ⟨values.all fun v => decide (v = first), first, maxOf (values.map fun v => |v - first|)⟩

def checkBarConsensus (bars : List RawBar) (resolvedPolicy : FieldPolicy) :
    Except VerifierError (Consensus RawBar) :=
  match bars with
  | [] => throw .emptyBars
  | first :: rest =>
    let closes := (first :: rest).map RawBar.close
    let representative := minBy RawBar.sourceId first rest
    match resolvedPolicy.toleranceBand with
    | .wide => pure ⟨(wideAgreement closes).1, representative, (wideAgreement closes).2⟩
    | .tight | .normal =>
      let agreed := (first :: rest).all fun b =>
        decide (b.openPrice = first.openPrice ∧ b.high = first.high ∧ b.low = first.low ∧
          b.close = first.close ∧ b.volume = first.volume)
      pure ⟨agreed, representative, maxOf (closes.map fun c => |c - first.close|)⟩

def settleStateRank : SettleState → ℕ
  | .live => 0
  | .preliminary => 1
  | .final => 2

/-! ## From the responses to the outcome -/

inductive Outcome (α : Type) where
  | verified (record : α)
  | disagreement (event : DisagreementEvent)
  | incomplete (bar : IncompleteBar)
deriving DecidableEq

structure Responder (α : Type) where
  sourceId : String
  tier : SourceTier
  record : α
deriving DecidableEq

section Outcomes

variable {α : Type}

def incompleteBar (contract : ContractSymbol) (barTs : DateTime) (resolution : BarResolution)
    (responding : List (Responder α)) (notResponding : List String) (resolved : FieldPolicy)
    (now : DateTime) : Except VerifierError IncompleteBar :=
  if hNow : now.isAware then
    pure
      { contract := contract
        barTs := barTs
        resolution := resolution
        nSourcesResponded := responding.length
        nSourcesRequired := resolved.minQuorum
        sourcesPending := notResponding
        detectedAt := now
        policyId := resolved.policyId
        detected_aware := hNow }
  else throw (.naiveDetectedAt now)

def disagreementEvent (contract : ContractSymbol) (barTs : DateTime) (resolution : BarResolution)
    (field : String) (responding : List (Responder α)) (quoted : α → ℚ) (maxDiff : ℚ)
    (resolved : FieldPolicy) (now : DateTime) : Except VerifierError DisagreementEvent :=
  if hNow : now.isAware then
    pure
      { contract := contract
        barTs := barTs
        resolution := resolution
        field := field
        sources := responding.map Responder.sourceId
        values := responding.map fun r => quoted r.record
        diffMagnitudeMax := maxDiff
        toleranceUsed := resolved.toleranceBand
        policyKind := resolved.kind
        quorumRequired := resolved.minQuorum
        quorumAchieved := responding.length
        detectedAt := now
        policyId := resolved.policyId
        detected_aware := hNow
        values_length := by rw [List.length_map, List.length_map] }
  else throw (.naiveDetectedAt now)

def bestTier (first : Responder α) (rest : List (Responder α)) : SourceTier :=
  minBy SourceTier.value first.tier (rest.map Responder.tier)

def settleStamp (responder : Responder Settle) : Except VerifierError SourceStamp :=
  match responder.record.asOfIso with
  | none => throw (.asOfIsoMissing responder.sourceId)
  | some asOfIso =>
    pure ⟨responder.record.sourceId, asOfIso, responder.record.contentBytesSha⟩

def barStamp (responder : Responder RawBar) : SourceStamp :=
  ⟨responder.record.sourceId, responder.record.asOfIso, responder.record.contentBytesSha⟩

variable (sha256 : String → HexDigest)

def verifiedSettle (resolved : FieldPolicy) (contract : ContractSymbol) (settle : ℚ)
    (stamps : List SourceStamp) (first : Responder Settle) (rest : List (Responder Settle)) :
    VerifiedSettle :=
  let provHashes := stamps.map (sourceProvenanceHash sha256)
  let barId := barIdentifier contract first.record.asOfDate.isoformat .settle
  let runHash := computeVerifierRunHash sha256 resolved provHashes barId
  { contract := contract
    asOfDate := first.record.asOfDate
    settle := settle
    settleState := maxBy settleStateRank first.record.settleState
      (rest.map fun r => r.record.settleState)
    nSourcesAgreed := (first :: rest).length
    sourceProvenanceHashes := provHashes.map HexDigest.text
    verifierRunHash := runHash.text
    tierUsed := bestTier first rest
    policyId := resolved.policyId
    run_hash_length := runHash.length_eq
    provenance_length := by
      intro text hText
      obtain ⟨digest, -, rfl⟩ := List.mem_map.mp hText
      exact digest.length_eq }

def settleOutcome (resolved : FieldPolicy) (contract : ContractSymbol) (asOf now : DateTime)
    (responding : List (Responder Settle)) (notResponding : List String) :
    Except VerifierError (Outcome VerifiedSettle) :=
  if (responding.length : ℤ) < resolved.minQuorum then
    .incomplete <$>
      incompleteBar contract asOf .settle responding notResponding resolved now
  else
    let consensus := checkSettleConsensus (responding.map Responder.record) resolved
    if consensus.agreed = false then
      .disagreement <$> disagreementEvent contract asOf .settle fieldSettle responding
        Settle.settle consensus.maxDiff resolved now
    else do
      let stamps ← responding.mapM settleStamp
      match responding with
      | [] => throw .emptySettles
      | first :: rest =>
        pure (.verified (verifiedSettle sha256 resolved contract consensus.value stamps first rest))

def verifiedBar (resolved : FieldPolicy) (contract : ContractSymbol) (barTs : DateTime)
    (hAware : barTs.isAware) (resolution : BarResolution) (representative : RawBar)
    (prevHash : Option HashText) (first : Responder RawBar) (rest : List (Responder RawBar)) :
    VerifiedBar :=
  let provHashes := ((first :: rest).map barStamp).map (sourceProvenanceHash sha256)
  let barId := barIdentifier contract barTs.isoformat resolution
  let runHash := computeVerifierRunHash sha256 resolved provHashes barId
  { contract := contract
    ts := barTs
    resolution := resolution
    openPrice := representative.openPrice
    high := representative.high
    low := representative.low
    close := representative.close
    volume := representative.volume
    nSourcesAgreed := (first :: rest).length
    sourceProvenanceHashes := provHashes.map HexDigest.text
    verifierRunHash := runHash.text
    prevBarHash := prevHash.map Subtype.val
    tierUsed := bestTier first rest
    policyId := resolved.policyId
    ts_aware := hAware
    run_hash_length := runHash.length_eq
    prev_hash_length := by
      intro text hText
      obtain ⟨hash, -, rfl⟩ := Option.mem_map.mp hText
      exact hash.property }

def barOutcome (resolved : FieldPolicy) (contract : ContractSymbol) (barTs : DateTime)
    (hAware : barTs.isAware) (resolution : BarResolution) (now : DateTime)
    (responding : List (Responder RawBar)) (notResponding : List String)
    (prevHash : Option HashText) : Except VerifierError (Outcome VerifiedBar) :=
  if (responding.length : ℤ) < resolved.minQuorum then
    .incomplete <$>
      incompleteBar contract barTs resolution responding notResponding resolved now
  else do
    let consensus ← checkBarConsensus (responding.map Responder.record) resolved
    if consensus.agreed = false then
      .disagreement <$> disagreementEvent contract barTs resolution fieldClose responding
        RawBar.close consensus.maxDiff resolved now
    else
      match responding with
      | [] => throw .emptyBars
      | first :: rest =>
        pure (.verified (verifiedBar sha256 resolved contract barTs hAware resolution
          consensus.value prevHash first rest))

end Outcomes

/-! ## Sources and the verifier -/

inductive Answer (α : Type) where
  | returned (value : α)
  | dataSourceError
  | raised (exception : String)

structure DataSource (ω : Type) where
  sourceId : String
  tier : SourceTier
  latestSettle : ContractSymbol → DateTime → ω → Answer (Option Settle) × ω
  getBars : ContractSymbol → DateTime → DateTime → BarResolution → ω → Answer (List RawBar) × ω

structure MultiSourceVerifier (ω : Type) where
  sources : List (DataSource ω)
  policy : VerifierPolicy
  clock : ω → DateTime × ω
  /-- The hash chain per contract and resolution. -/
  prevBarHash : Dict (ContractSymbol × BarResolution) HashText

structure VerifierSession (ω : Type) where
  verifier : MultiSourceVerifier ω
  world : ω

def supportedBarResolutions : List BarResolution :=
  [.sec1, .sec5, .min1, .min5, .min15, .hour1, .day1]

def barWindowEpsilon : ℕ := 1000

/-- The end of the half-open window that holds the bar; none is an overflow. -/
def barWindowEnd? (barTs : DateTime) : Option DateTime :=
  barTs.addMicros? barWindowEpsilon (by decide)

namespace MultiSourceVerifier

variable {ω : Type}

def create (sources : List (DataSource ω)) (policy : VerifierPolicy) (clock : ω → DateTime × ω) :
    Except VerifierError (MultiSourceVerifier ω) :=
  if sources.isEmpty then throw .noSources
  else
    pure ⟨sortBy DataSource.sourceId sources, policy, clock, .empty⟩

def tierFilter (verifier : MultiSourceVerifier ω) (resolved : FieldPolicy) : List (DataSource ω) :=
  if resolved.requireTierT2OrBetter then
    verifier.sources.filter fun s => s.tier.value ≤ t2OrBetterMaxTier.value
  else verifier.sources

abbrev M (ω : Type) := Method VerifierError (VerifierSession ω)

def consult {β : Type} (act : ω → β × ω) : M ω β := do
  let session ← get
  let (answer, world) := act session.world
  set { session with world := world }
  return answer

/-- A source's part in a verification: its record, or its id when it has none. -/
def askSettle (contract : ContractSymbol) (asOf : DateTime) (src : DataSource ω) :
    M ω (Responder Settle ⊕ String) := do
  match ← consult (src.latestSettle contract asOf) with
  | .returned (some settle) => return .inl ⟨src.sourceId, src.tier, settle⟩
  | .returned none => return .inr src.sourceId
  | .dataSourceError => return .inr src.sourceId
  | .raised exception => throw (.sourceRaised src.sourceId exception)

def askBar (contract : ContractSymbol) (barTs tsEnd : DateTime) (resolution : BarResolution)
    (src : DataSource ω) : M ω (Responder RawBar ⊕ String) := do
  match ← consult (src.getBars contract barTs tsEnd resolution) with
  | .returned bars =>
    match bars.find? fun b => b.ts.instant = barTs.instant with
    | some bar => return .inl ⟨src.sourceId, src.tier, bar⟩
    | none => return .inr src.sourceId
  | .dataSourceError => return .inr src.sourceId
  | .raised exception => throw (.sourceRaised src.sourceId exception)

def verifySettle (sha256 : String → HexDigest) (contract : ContractSymbol) (asOf : DateTime) :
    M ω (Outcome VerifiedSettle) := do
  let verifier := (← get).verifier
  let resolved := verifier.policy.resolveForField fieldSettle
  let replies ← each (askSettle contract asOf) (verifier.tierFilter resolved)
  let responding := replies.filterMap Sum.getLeft?
  let notResponding := replies.filterMap Sum.getRight?
  let now ← consult verifier.clock
  Method.liftExcept (settleOutcome sha256 resolved contract asOf now responding notResponding)

/-- `verify_bar` from the first question to the outcome. -/
def decideBar (sha256 : String → HexDigest) (contract : ContractSymbol) (barTs : DateTime)
    (hAware : barTs.isAware) (tsEnd : DateTime) (resolution : BarResolution) :
    M ω (Outcome VerifiedBar) := do
  let verifier := (← get).verifier
  let resolved := verifier.policy.resolveForField fieldOhlc
  let replies ← each (askBar contract barTs tsEnd resolution) (verifier.tierFilter resolved)
  let responding := replies.filterMap Sum.getLeft?
  let notResponding := replies.filterMap Sum.getRight?
  let now ← consult verifier.clock
  let prevHash := (← get).verifier.prevBarHash.get? (contract, resolution)
  Method.liftExcept (barOutcome sha256 resolved contract barTs hAware resolution now responding
    notResponding prevHash)

/-- Only a verified bar moves the chain of its key on. -/
def chainOutcome (key : ContractSymbol × BarResolution) : Outcome VerifiedBar → M ω Unit
  | .verified bar =>
    modify fun session => { session with
      verifier := { session.verifier with
        prevBarHash := session.verifier.prevBarHash.set key
          ⟨bar.verifierRunHash, bar.run_hash_length⟩ } }
  | .disagreement _ | .incomplete _ => pure ()

def verifyBar (sha256 : String → HexDigest) (contract : ContractSymbol) (barTs : DateTime)
    (resolution : BarResolution) : M ω (Outcome VerifiedBar) :=
  if hAware : barTs.isAware then
    if resolution ∉ supportedBarResolutions then throw (.unsupportedResolution resolution)
    else
      match barWindowEnd? barTs with
      | none => throw .overflow
      | some tsEnd => do
        let outcome ← decideBar sha256 contract barTs hAware tsEnd resolution
        chainOutcome (contract, resolution) outcome
        return outcome
  else throw (.naiveBarTs barTs)

end MultiSourceVerifier

end Futur3.Data
