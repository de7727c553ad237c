import Futur3.Data.Verifier
import Mathlib.Algebra.Order.Field.Basic
import Mathlib.Algebra.Order.Ring.Rat
import Mathlib.Tactic.NormNum

/-! # What a verification does

Which sources respond, when a record comes out verified, and what it then says.
The wide band compares every value with the median.
-/

namespace Futur3.Data

open Prelude Prelude.Method Selection MultiSourceVerifier

variable {ω : Type}

/-! ## Responders -/

/-- The sources that answer a settle request in this session, in the verifier's order. -/
def settleResponders (contract : ContractSymbol) (asOf : DateTime) (s : VerifierSession ω) :
    Option (List (Responder Settle)) :=
  match each (askSettle contract asOf)
    (s.verifier.tierFilter (s.verifier.policy.resolveForField fieldSettle)) s with
  | .ok replies _ => some (replies.filterMap Sum.getLeft?)
  | .error _ _ => none

/-- The sources that answer a bar request in this session, in the verifier's order. -/
def barResponders (contract : ContractSymbol) (barTs : DateTime) (resolution : BarResolution)
    (s : VerifierSession ω) : Option (List (Responder RawBar)) :=
  match barWindowEnd? barTs with
  | none => none
  | some tsEnd =>
    match each (askBar contract barTs tsEnd resolution)
      (s.verifier.tierFilter (s.verifier.policy.resolveForField fieldOhlc)) s with
    | .ok replies _ => some (replies.filterMap Sum.getLeft?)
    | .error _ _ => none

theorem consult_ok_iff {β : Type} {act : ω → β × ω} {s s' : VerifierSession ω} {b : β} :
    consult act s = .ok b s' ↔
      b = (act s.world).1 ∧ s' = { s with world := (act s.world).2 } := by
  simp only [consult, bind_ok_iff, get_ok_iff, set_ok_iff, pure_ok_iff]
  constructor
  · rintro ⟨_, _, ⟨rfl, rfl⟩, _, _, rfl, rfl, rfl⟩
    exact ⟨rfl, rfl⟩
  · rintro ⟨rfl, rfl⟩
    exact ⟨s, s, ⟨rfl, rfl⟩, PUnit.unit, _, rfl, rfl, rfl⟩

theorem keeps_consult {β : Type} (act : ω → β × ω) :
    Keeps VerifierSession.verifier (consult act) := fun _ => rfl

theorem keeps_askSettle (contract : ContractSymbol) (asOf : DateTime) (src : DataSource ω) :
    Keeps VerifierSession.verifier (askSettle contract asOf src) := by
  apply keeps_bind (keeps_consult _)
  intro answer
  cases answer with
  | returned settle =>
    cases settle with
    | none => exact keeps_pure _
    | some settle => exact keeps_pure _
  | dataSourceError => exact keeps_pure _
  | raised exception => exact keeps_throw _

theorem keeps_askBar (contract : ContractSymbol) (barTs tsEnd : DateTime)
    (resolution : BarResolution) (src : DataSource ω) :
    Keeps VerifierSession.verifier (askBar contract barTs tsEnd resolution src) := by
  apply keeps_bind (keeps_consult _)
  intro answer
  cases answer with
  | returned bars =>
    simp only
    split
    · exact keeps_pure _
    · exact keeps_pure _
  | dataSourceError => exact keeps_pure _
  | raised exception => exact keeps_throw _

theorem keeps_verifySettle (sha256 : String → HexDigest) (contract : ContractSymbol)
    (asOf : DateTime) :
    Keeps VerifierSession.verifier (verifySettle (ω := ω) sha256 contract asOf) := by
  apply keeps_bind keeps_get
  intro s
  apply keeps_bind (keeps_each (keeps_askSettle contract asOf) _)
  intro replies
  apply keeps_bind (keeps_consult _)
  intro now
  exact keeps_liftExcept _

theorem keeps_decideBar (sha256 : String → HexDigest) (contract : ContractSymbol)
    (barTs : DateTime) (hAware : barTs.isAware) (tsEnd : DateTime) (resolution : BarResolution) :
    Keeps VerifierSession.verifier
      (decideBar (ω := ω) sha256 contract barTs hAware tsEnd resolution) := by
  apply keeps_bind keeps_get
  intro s
  apply keeps_bind (keeps_each (keeps_askBar contract barTs tsEnd resolution) _)
  intro replies
  apply keeps_bind (keeps_consult _)
  intro now
  apply keeps_bind keeps_get
  intro s'
  exact keeps_liftExcept _

/-! ## Agreement -/

theorem maxOf_le_iff {values : List ℚ} {c : ℚ} (hc : 0 ≤ c) :
    maxOf values ≤ c ↔ ∀ v ∈ values, v ≤ c := by
  unfold maxOf
  cases hMax : values.max? with
  | none =>
    rw [List.max?_eq_none_iff.mp hMax]
    simpa using hc
  | some greatest => exact List.max?_le_iff hMax

theorem wideRelativeTolerance_nonneg : 0 ≤ wideRelativeTolerance := by
  norm_num [wideRelativeTolerance]

/-- The wide band: every value is within the tolerance of the median. -/
theorem wideAgreement_iff (values : List ℚ) :
    (wideAgreement values).1 = true ↔
      ∀ v ∈ values, |v - medianOf values| ≤ wideRelativeTolerance * |medianOf values| := by
  unfold wideAgreement
  by_cases hMedian : medianOf values = 0
  · simp [hMedian]
  · have hPos : 0 < |medianOf values| := abs_pos.mpr hMedian
    simp only [hMedian, if_false, decide_eq_true_eq, maxOf_le_iff wideRelativeTolerance_nonneg,
      List.forall_mem_map, div_le_iff₀ hPos]

theorem settle_agreed_exact (first : Settle) (rest : List Settle) {resolved : FieldPolicy}
    (hBand : resolved.toleranceBand ≠ .wide) :
    (checkSettleConsensus (first :: rest) resolved).value = first.settle ∧
    ((checkSettleConsensus (first :: rest) resolved).agreed = true ↔
      ∀ s ∈ first :: rest, s.settle = first.settle) := by
  cases h : resolved.toleranceBand with
  | wide => exact absurd h hBand
  | tight => simp [checkSettleConsensus, h]
  | normal => simp [checkSettleConsensus, h]

theorem settle_agreed_wide {settles : List Settle} {resolved : FieldPolicy} (hNil : settles ≠ [])
    (hBand : resolved.toleranceBand = .wide) :
    (checkSettleConsensus settles resolved).value = medianOf (settles.map Settle.settle) ∧
    ((checkSettleConsensus settles resolved).agreed = true ↔
      ∀ s ∈ settles, |s.settle - medianOf (settles.map Settle.settle)| ≤
        wideRelativeTolerance * |medianOf (settles.map Settle.settle)|) := by
  cases settles with
  | nil => exact absurd rfl hNil
  | cons first rest =>
    simp only [checkSettleConsensus, hBand, wideAgreement_iff, List.map_cons]
    simp

theorem bar_consensus_ok {bars : List RawBar} {resolved : FieldPolicy} {consensus : Consensus RawBar}
    (h : checkBarConsensus bars resolved = .ok consensus) :
    LeastFirst RawBar.sourceId bars consensus.value ∧
    (resolved.toleranceBand ≠ .wide → consensus.agreed = true → ∀ b ∈ bars,
      b.openPrice = consensus.value.openPrice ∧ b.high = consensus.value.high ∧
        b.low = consensus.value.low ∧ b.close = consensus.value.close) := by
  cases bars with
  | nil => cases h
  | cons first rest =>
    have hLeast := minBy_spec RawBar.sourceId first rest
    cases hBand : resolved.toleranceBand with
    | wide =>
      rw [checkBarConsensus, hBand] at h
      cases h
      exact ⟨hLeast, fun hExact => absurd rfl hExact⟩
    | tight | normal =>
      rw [checkBarConsensus, hBand] at h
      cases h
      refine ⟨hLeast, fun _ hAgreed b hb => ?_⟩
      have hSame : ∀ b ∈ first :: rest, b.openPrice = first.openPrice ∧ b.high = first.high ∧
          b.low = first.low ∧ b.close = first.close ∧ b.volume = first.volume := by
        intro b hb
        exact of_decide_eq_true (List.all_eq_true.mp hAgreed b hb)
      obtain ⟨hOpen, hHigh, hLow, hClose, -⟩ := hSame b hb
      obtain ⟨hOpen', hHigh', hLow', hClose', -⟩ := hSame _ hLeast.mem
      exact ⟨hOpen.trans hOpen'.symm, hHigh.trans hHigh'.symm, hLow.trans hLow'.symm,
        hClose.trans hClose'.symm⟩

/-! ## The run hash -/

/-- The run text does not depend on the order of the provenance hashes. -/
theorem runPayload_perm (sha256 : String → HexDigest) (resolved : FieldPolicy)
    {hashes hashes' : List HexDigest} (h : hashes.Perm hashes') (barId : String) :
    runPayload sha256 resolved hashes barId = runPayload sha256 resolved hashes' barId := by
  unfold runPayload
  rw [sort_eq_of_perm (h.map HexDigest.text)]

theorem computeVerifierRunHash_perm (sha256 : String → HexDigest) (resolved : FieldPolicy)
    {hashes hashes' : List HexDigest} (h : hashes.Perm hashes') (barId : String) :
    computeVerifierRunHash sha256 resolved hashes barId =
      computeVerifierRunHash sha256 resolved hashes' barId := by
  unfold computeVerifierRunHash
  rw [runPayload_perm sha256 resolved h]

/-! ## Stamps -/

/-- What is hashed of a settle that says when it was retrieved. -/
def stamp? (settle : Settle) : Option SourceStamp :=
  settle.asOfIso.map fun asOfIso => ⟨settle.sourceId, asOfIso, settle.contentBytesSha⟩

theorem settleStamp_ok_iff {r : Responder Settle} {stamp : SourceStamp} :
    settleStamp r = .ok stamp ↔ stamp? r.record = some stamp := by
  unfold settleStamp stamp?
  cases r.record.asOfIso with
  | none => simp [except_throw_ok_iff]
  | some asOf => simp [except_pure_ok_iff]

theorem mapM_settleStamp_ok_iff {responding : List (Responder Settle)}
    {stamps : List SourceStamp} :
    responding.mapM settleStamp = .ok stamps ↔
      (responding.map fun r => stamp? r.record) = stamps.map some := by
  induction responding generalizing stamps with
  | nil => cases stamps <;> simp [except_pure_ok_iff]
  | cons r rest ih =>
    simp only [List.mapM_cons, except_bind_ok_iff, except_pure_ok_iff, settleStamp_ok_iff, ih,
      List.map_cons]
    constructor
    · rintro ⟨stamp, hStamp, others, hOthers, rfl⟩
      rw [hStamp, hOthers, List.map_cons]
    · intro h
      cases stamps with
      | nil => cases h
      | cons stamp others =>
        obtain ⟨hStamp, hOthers⟩ := List.cons.inj h
        exact ⟨stamp, hStamp, others, hOthers, rfl⟩

theorem exists_stamps_iff (responding : List (Responder Settle)) :
    (∃ stamps, responding.mapM settleStamp = .ok stamps) ↔
      ∀ r ∈ responding, (stamp? r.record).isSome := by
  constructor
  · rintro ⟨stamps, hStamps⟩ r hr
    have hMem : stamp? r.record ∈ responding.map fun r => stamp? r.record :=
      List.mem_map.mpr ⟨r, hr, rfl⟩
    rw [mapM_settleStamp_ok_iff.mp hStamps] at hMem
    obtain ⟨stamp, -, hStamp⟩ := List.mem_map.mp hMem
    exact Option.isSome_of_eq_some hStamp.symm
  · intro h
    apply except_mapM_returns
    intro r hr
    obtain ⟨stamp, hStamp⟩ := Option.isSome_iff_exists.mp (h r hr)
    exact ⟨stamp, settleStamp_ok_iff.mpr hStamp⟩

/-! ## Verified settles -/

/-- What it takes for the responses to yield this verified settle. -/
def SettleVerified (sha256 : String → HexDigest) (resolved : FieldPolicy)
    (contract : ContractSymbol) (responding : List (Responder Settle)) (vs : VerifiedSettle) :
    Prop :=
  resolved.minQuorum ≤ responding.length ∧
  ∃ first rest stamps, responding = first :: rest ∧
    (checkSettleConsensus (responding.map Responder.record) resolved).agreed = true ∧
    responding.mapM settleStamp = .ok stamps ∧
    vs = verifiedSettle sha256 resolved contract
      (checkSettleConsensus (responding.map Responder.record) resolved).value stamps first rest

theorem settleOutcome_verified_iff {sha256 : String → HexDigest} {resolved : FieldPolicy}
    {contract : ContractSymbol} {asOf now : DateTime} {responding : List (Responder Settle)}
    {notResponding : List String} {vs : VerifiedSettle} :
    settleOutcome sha256 resolved contract asOf now responding notResponding =
        .ok (.verified vs) ↔
      SettleVerified sha256 resolved contract responding vs := by
  unfold settleOutcome SettleVerified
  by_cases hQuorum : (responding.length : ℤ) < resolved.minQuorum
  · rw [if_pos hQuorum]
    constructor
    · intro h
      cases hBar : incompleteBar contract asOf .settle responding notResponding resolved now <;>
        rw [hBar] at h <;> cases h
    · rintro ⟨hEnough, -⟩
      omega
  · rw [if_neg hQuorum]
    cases hAgreed : (checkSettleConsensus (responding.map Responder.record) resolved).agreed with
    | false =>
      simp only [hAgreed, if_true]
      constructor
      · intro h
        cases hEvent : disagreementEvent contract asOf .settle fieldSettle responding Settle.settle
            (checkSettleConsensus (responding.map Responder.record) resolved).maxDiff resolved now
          <;> rw [hEvent] at h <;> cases h
      · rintro ⟨-, first, rest, stamps, -, hFalse, -⟩
        cases hFalse
    | true =>
      simp only [hAgreed, Bool.true_eq_false, if_false, except_bind_ok_iff]
      constructor
      · rintro ⟨stamps, hStamps, h⟩
        cases responding with
        | nil => cases h
        | cons first rest =>
          cases h
          exact ⟨not_lt.mp hQuorum, first, rest, stamps, rfl, trivial, hStamps, rfl⟩
      · rintro ⟨-, first, rest, stamps, rfl, -, hStamps, rfl⟩
        exact ⟨stamps, hStamps, rfl⟩

theorem verifySettle_verified_iff {sha256 : String → HexDigest} {contract : ContractSymbol}
    {asOf : DateTime} {s : VerifierSession ω} {responding : List (Responder Settle)}
    (hAsk : settleResponders contract asOf s = some responding) {vs : VerifiedSettle} :
    (∃ s', verifySettle sha256 contract asOf s = .ok (.verified vs) s') ↔
      SettleVerified sha256 (s.verifier.policy.resolveForField fieldSettle) contract responding
        vs := by
  unfold settleResponders at hAsk
  simp only [verifySettle, bind_ok_iff, get_ok_iff, consult_ok_iff, liftExcept_ok_iff]
  cases hEach : each (askSettle contract asOf)
      (s.verifier.tierFilter (s.verifier.policy.resolveForField fieldSettle)) s with
  | error e s₁ =>
    rw [hEach] at hAsk
    cases hAsk
  | ok replies s₁ =>
    rw [hEach] at hAsk
    cases hAsk
    constructor
    · rintro ⟨s', _, _, ⟨rfl, rfl⟩, replies', s₂, hRun, now, s₃, ⟨-, -⟩, hOutcome, -⟩
      rw [hEach] at hRun
      cases hRun
      exact settleOutcome_verified_iff.mp hOutcome
    · intro hVerified
      exact ⟨_, s, s, ⟨rfl, rfl⟩, replies, s₁, hEach, _, _, ⟨rfl, rfl⟩,
        settleOutcome_verified_iff.mpr hVerified, rfl⟩

/-! ## Verified bars -/

def BarVerified (sha256 : String → HexDigest) (resolved : FieldPolicy) (contract : ContractSymbol)
    (barTs : DateTime) (hAware : barTs.isAware) (resolution : BarResolution)
    (prevHash : Option HashText) (responding : List (Responder RawBar)) (vb : VerifiedBar) : Prop :=
  resolved.minQuorum ≤ responding.length ∧
  ∃ first rest consensus, responding = first :: rest ∧
    checkBarConsensus (responding.map Responder.record) resolved = .ok consensus ∧
    consensus.agreed = true ∧
    vb = verifiedBar sha256 resolved contract barTs hAware resolution consensus.value prevHash
      first rest

theorem barOutcome_verified_iff {sha256 : String → HexDigest} {resolved : FieldPolicy}
    {contract : ContractSymbol} {barTs : DateTime} {hAware : barTs.isAware}
    {resolution : BarResolution} {now : DateTime} {responding : List (Responder RawBar)}
    {notResponding : List String} {prevHash : Option HashText} {vb : VerifiedBar} :
    barOutcome sha256 resolved contract barTs hAware resolution now responding notResponding
        prevHash = .ok (.verified vb) ↔
      BarVerified sha256 resolved contract barTs hAware resolution prevHash responding vb := by
  unfold barOutcome BarVerified
  by_cases hQuorum : (responding.length : ℤ) < resolved.minQuorum
  · rw [if_pos hQuorum]
    constructor
    · intro h
      cases hBar : incompleteBar contract barTs resolution responding notResponding resolved now <;>
        rw [hBar] at h <;> cases h
    · rintro ⟨hEnough, -⟩
      omega
  · rw [if_neg hQuorum]
    cases hConsensus : checkBarConsensus (responding.map Responder.record) resolved with
    | error e =>
      constructor
      · intro h
        cases h
      · rintro ⟨-, first, rest, consensus, -, h, -⟩
        cases h
    | ok consensus =>
      simp only [except_bind_ok_iff, Except.ok.injEq, exists_eq_left']
      cases hAgreed : consensus.agreed with
      | false =>
        simp only [if_true]
        constructor
        · intro h
          cases hEvent : disagreementEvent contract barTs resolution fieldClose responding
              RawBar.close consensus.maxDiff resolved now <;> rw [hEvent] at h <;> cases h
        · rintro ⟨-, first, rest, consensus', -, rfl, hTrue, -⟩
          rw [hAgreed] at hTrue
          cases hTrue
      | true =>
        simp only [Bool.true_eq_false, if_false]
        constructor
        · intro h
          cases responding with
          | nil => cases h
          | cons first rest =>
            cases h
            exact ⟨not_lt.mp hQuorum, first, rest, consensus, rfl, rfl, hAgreed, rfl⟩
        · rintro ⟨-, first, rest, consensus', rfl, rfl, -, rfl⟩
          rfl

/-- The session after a key's chain has moved on to a verified bar. -/
def VerifierSession.chain (s : VerifierSession ω) (key : ContractSymbol × BarResolution)
    (bar : VerifiedBar) : MultiSourceVerifier ω :=
  { s.verifier with
    prevBarHash := s.verifier.prevBarHash.set key ⟨bar.verifierRunHash, bar.run_hash_length⟩ }

theorem decideBar_verified {sha256 : String → HexDigest} {contract : ContractSymbol}
    {barTs : DateTime} {hAware : barTs.isAware} {tsEnd : DateTime} {resolution : BarResolution}
    {s s' : VerifierSession ω} {vb : VerifiedBar}
    (hEnd : barWindowEnd? barTs = some tsEnd)
    (hRun : decideBar sha256 contract barTs hAware tsEnd resolution s = .ok (.verified vb) s') :
    ∃ responding, barResponders contract barTs resolution s = some responding ∧
      BarVerified sha256 (s.verifier.policy.resolveForField fieldOhlc) contract barTs hAware
        resolution (s.verifier.prevBarHash.get? (contract, resolution)) responding vb := by
  simp only [decideBar, bind_ok_iff, get_ok_iff, consult_ok_iff, liftExcept_ok_iff] at hRun
  obtain ⟨_, _, ⟨rfl, rfl⟩, replies, s₁, hEach, now, s₂, ⟨rfl, rfl⟩, _, _, ⟨rfl, rfl⟩, hOutcome, -⟩ :=
    hRun
  have hKept := (keeps_each (keeps_askBar contract barTs tsEnd resolution) _).ok hEach
  have hAsk : barResponders contract barTs resolution s =
      some (replies.filterMap Sum.getLeft?) := by
    unfold barResponders
    simp only [hEnd, hEach]
  have hVerified := barOutcome_verified_iff.mp hOutcome
  rw [hKept] at hVerified
  exact ⟨_, hAsk, hVerified⟩

theorem verifyBar_verified {sha256 : String → HexDigest} {contract : ContractSymbol}
    {barTs : DateTime} {resolution : BarResolution} {s s' : VerifierSession ω} {vb : VerifiedBar}
    (hRun : verifyBar sha256 contract barTs resolution s = .ok (.verified vb) s') :
    ∃ hAware responding, barResponders contract barTs resolution s = some responding ∧
      BarVerified sha256 (s.verifier.policy.resolveForField fieldOhlc) contract barTs hAware
        resolution (s.verifier.prevBarHash.get? (contract, resolution)) responding vb ∧
      s'.verifier = s.chain (contract, resolution) vb := by
  unfold verifyBar at hRun
  split at hRun
  · rename_i hAware
    obtain ⟨-, hRun⟩ := guard_ok_iff.mp hRun
    cases hEnd : barWindowEnd? barTs with
    | none =>
      rw [hEnd] at hRun
      cases hRun
    | some tsEnd =>
      rw [hEnd] at hRun
      simp only [bind_ok_iff, pure_ok_iff] at hRun
      obtain ⟨outcome, s₁, hDecide, _, s₂, hChain, rfl, rfl⟩ := hRun
      obtain ⟨responding, hAsk, hVerified⟩ := decideBar_verified hEnd hDecide
      refine ⟨hAware, responding, hAsk, hVerified, ?_⟩
      have hKept := (keeps_decideBar sha256 contract barTs hAware tsEnd resolution).ok hDecide
      obtain rfl := modify_ok_iff.mp hChain
      simp only [VerifierSession.chain, hKept]
  · cases hRun

/-! ## Scripted sources -/

def firstDay : Date := .dec8

def secondDay : Date := .of 2025 12 9

def quotedSettle (sourceId : String) (asOfDate : Date) (settle : ℚ) : Settle where
  contract := "CLF26"
  asOfDate := asOfDate
  settle := settle
  settleState := .final
  openPrice := settle
  high := settle
  low := settle
  last := settle
  change := 0
  volumeEst := 0
  oiPrior := 0
  sourceId := sourceId
  asOfIso := some (.utcMidnight asOfDate)
  as_of_aware := by simp [DateTime.utcMidnight, DateTime.isAware]
  low_le_high := le_rfl
  volume_nonneg := le_rfl
  oi_nonneg := le_rfl
  sha_length := fun h => absurd rfl h

theorem quoted_range : (90 : ℚ) ≤ 110 := by decide +kernel

def quotedBar (sourceId : String) (date : Date) (openPrice high low close : ℚ)
    (hRange : low ≤ high) : RawBar where
  contract := "CLF26"
  ts := .utcMidnight date
  resolution := .day1
  openPrice := openPrice
  high := high
  low := low
  close := close
  volume := 0
  oi := none
  sourceId := sourceId
  asOfIso := .utcMidnight date
  contentBytesSha := String.ofList (List.replicate sha256HexLength '0')
  ts_aware := DateTime.utcMidnight_aware date
  as_of_aware := DateTime.utcMidnight_aware date
  low_le_high := hRange
  volume_nonneg := le_rfl
  oi_nonneg := no_open_interest
  sha_length := length_zeros

def scriptedSource (sourceId : String) (settle : Option Settle) (bars : List RawBar) :
    DataSource Unit where
  sourceId := sourceId
  tier := .t2Exchange
  latestSettle _ _ world := (.returned settle, world)
  getBars _ _ _ _ world := (.returned bars, world)

/-- A new session of a verifier that uses one rule for every field. -/
def scriptedSession (sources : List (DataSource Unit)) (rule : FieldPolicy) (today : Date) :
    VerifierSession Unit :=
  ⟨⟨sortBy DataSource.sourceId sources, ⟨rule, .empty⟩,
    fun world => (.utcMidnight today, world), .empty⟩, ()⟩

def Outcome.record? {α : Type} : Outcome α → Option α
  | .verified record => some record
  | .disagreement _ | .incomplete _ => none

theorem exists_verified_of_returns {α : Type} {x : M ω (Outcome α)} {s : VerifierSession ω}
    {test : α → Bool} (h : returns x s (fun outcome _ => outcome.record?.any test) = true) :
    ∃ record s', x s = .ok (.verified record) s' ∧ test record = true := by
  obtain ⟨outcome, s', hRun, hTest⟩ := exists_ok_of_returns h
  cases outcome with
  | verified record => exact ⟨record, s', hRun, hTest⟩
  | disagreement event => cases hTest
  | incomplete bar => cases hTest

end Futur3.Data
