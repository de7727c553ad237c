import Futur3.Data.VerifierSpec

/-! # One trading date behind a verified settle

The verifier never compares the dates of the settles it counts. As long as
they are all the same, the verified settle is the same whichever source comes
first; otherwise it carries the first one's date for all.
-/

namespace Futur3.Data

open Prelude Prelude.Method Selection MultiSourceVerifier

variable {ω : Type}

def SameDates (responding : List (Responder Settle)) : Prop :=
  ∀ r ∈ responding, ∀ r' ∈ responding, r.record.asOfDate = r'.record.asOfDate

/-- The same records from the same tiers, whatever the sources are called. -/
def SameResponses (responding responding' : List (Responder Settle)) : Prop :=
  (responding.map fun r => (r.tier, r.record)).Perm (responding'.map fun r => (r.tier, r.record))

/-- Equal but for the order in which the provenance hashes are listed. -/
structure SameSettle (a b : VerifiedSettle) : Prop where
  contract : a.contract = b.contract
  asOfDate : a.asOfDate = b.asOfDate
  settle : a.settle = b.settle
  settleState : a.settleState = b.settleState
  nSourcesAgreed : a.nSourcesAgreed = b.nSourcesAgreed
  provenance : a.sourceProvenanceHashes.Perm b.sourceProvenanceHashes
  verifierRunHash : a.verifierRunHash = b.verifierRunHash
  tierUsed : a.tierUsed = b.tierUsed
  policyId : a.policyId = b.policyId

/-- All counted responders quote the emitted date, and the same responses in
another order make the same settle. -/
def DatesUnmixed (sha256 : String → HexDigest) (contract : ContractSymbol) (asOf : DateTime)
    (s : VerifierSession ω) (responding : List (Responder Settle)) (vs : VerifiedSettle) : Prop :=
  vs.nSourcesAgreed = responding.length ∧
  (∀ r ∈ responding, r.record.asOfDate = vs.asOfDate) ∧
  ∀ (t : VerifierSession ω) responding',
    t.verifier.policy.resolveForField fieldSettle =
      s.verifier.policy.resolveForField fieldSettle →
    settleResponders contract asOf t = some responding' →
    SameResponses responding responding' →
    ∃ vs' t', verifySettle sha256 contract asOf t = .ok (.verified vs') t' ∧ SameSettle vs vs'

theorem settleStateRank_injective : Function.Injective settleStateRank := by
  intro a b h
  cases a <;> cases b <;> first | rfl | cases h

namespace SameResponses

variable {responding responding' : List (Responder Settle)}

theorem map {β : Type} (h : SameResponses responding responding') (f : SourceTier → Settle → β) :
    (responding.map fun r => f r.tier r.record).Perm
      (responding'.map fun r => f r.tier r.record) := by
  have hMap := List.Perm.map (fun p : SourceTier × Settle => f p.1 p.2) h
  rw [List.map_map, List.map_map] at hMap
  exact hMap

theorem length_eq (h : SameResponses responding responding') :
    responding.length = responding'.length := by
  have hLength := h.map (fun _ _ => ()) |>.length_eq
  rw [List.length_map, List.length_map] at hLength
  exact hLength

end SameResponses

theorem consensus_perm {settles settles' : List Settle} {resolved : FieldPolicy}
    (h : settles.Perm settles') (hAgreed : (checkSettleConsensus settles resolved).agreed = true) :
    (checkSettleConsensus settles' resolved).agreed = true ∧
      (checkSettleConsensus settles' resolved).value =
        (checkSettleConsensus settles resolved).value := by
  cases settles with
  | nil => cases hAgreed
  | cons first rest =>
    have hNil' : settles' ≠ [] := by
      intro hNil
      rw [hNil] at h
      exact List.cons_ne_nil _ _ h.eq_nil
    obtain ⟨first', rest', rfl⟩ := List.exists_cons_of_ne_nil hNil'
    by_cases hBand : resolved.toleranceBand = .wide
    · obtain ⟨hValue, hIff⟩ := settle_agreed_wide (List.cons_ne_nil first rest) hBand
      obtain ⟨hValue', hIff'⟩ := settle_agreed_wide hNil' hBand
      have hMedian : medianOf ((first' :: rest').map Settle.settle) =
          medianOf ((first :: rest).map Settle.settle) := by
        have hPrices := h.map Settle.settle
        unfold medianOf
        rw [sort_eq_of_perm hPrices, hPrices.length_eq]
      rw [hMedian] at hValue' hIff'
      refine ⟨hIff'.mpr ?_, hValue'.trans hValue.symm⟩
      intro s hs
      exact hIff.mp hAgreed s (h.symm.subset hs)
    · obtain ⟨hValue, hIff⟩ := settle_agreed_exact first rest hBand
      obtain ⟨hValue', hIff'⟩ := settle_agreed_exact first' rest' hBand
      have hSame := hIff.mp hAgreed
      have hFirst' := hSame first' (h.symm.subset List.mem_cons_self)
      refine ⟨hIff'.mpr ?_, hValue'.trans (hFirst'.trans hValue.symm)⟩
      intro s hs
      exact (hSame s (h.symm.subset hs)).trans hFirst'.symm

theorem stamps_perm {responding responding' : List (Responder Settle)} {stamps : List SourceStamp}
    (h : SameResponses responding responding') (hStamps : responding.mapM settleStamp = .ok stamps) :
    ∃ stamps', responding'.mapM settleStamp = .ok stamps' ∧ stamps.Perm stamps' := by
  have hPerm := h.map fun _ settle => stamp? settle
  rw [mapM_settleStamp_ok_iff] at hStamps
  rw [hStamps] at hPerm
  have hStamped : ∀ r ∈ responding', (stamp? r.record).isSome := by
    intro r hr
    have hMem : stamp? r.record ∈ stamps.map some := hPerm.symm.subset (List.mem_map_of_mem hr)
    obtain ⟨stamp, -, hStamp⟩ := List.mem_map.mp hMem
    rw [← hStamp]
    rfl
  obtain ⟨stamps', hStamps'⟩ := (exists_stamps_iff responding').mpr hStamped
  refine ⟨stamps', hStamps', ?_⟩
  rw [mapM_settleStamp_ok_iff] at hStamps'
  rw [hStamps'] at hPerm
  have hBack := hPerm.filterMap id
  simpa [List.filterMap_map] using hBack

/-- The same responses, all of one date, make the same settle. -/
theorem settleVerified_of_same {sha256 : String → HexDigest} {resolved : FieldPolicy}
    {contract : ContractSymbol} {responding responding' : List (Responder Settle)}
    {vs : VerifiedSettle} (hSame : SameResponses responding responding')
    (hDates : SameDates responding)
    (h : SettleVerified sha256 resolved contract responding vs) :
    ∃ vs', SettleVerified sha256 resolved contract responding' vs' ∧ SameSettle vs vs' := by
  obtain ⟨hQuorum, first, rest, stamps, rfl, hAgreed, hStamps, rfl⟩ := h
  have hLength := hSame.length_eq
  obtain ⟨first', rest', rfl⟩ : ∃ first' rest', responding' = first' :: rest' := by
    cases responding' with
    | nil => cases hLength
    | cons first' rest' => exact ⟨first', rest', rfl⟩
  have hRecords := hSame.map fun _ settle => settle
  obtain ⟨hAgreed', hValue⟩ := consensus_perm hRecords hAgreed
  obtain ⟨stamps', hStamps', hPerm⟩ := stamps_perm hSame hStamps
  have hDate : first.record.asOfDate = first'.record.asOfDate := by
    have hMem : first'.record ∈ (first :: rest).map Responder.record :=
      hRecords.symm.subset List.mem_cons_self
    obtain ⟨r, hr, hRecord⟩ := List.mem_map.mp hMem
    rw [← hRecord]
    exact hDates first List.mem_cons_self r hr
  have hHashes := hPerm.map (sourceProvenanceHash sha256)
  refine ⟨_, ⟨?_, first', rest', stamps', rfl, hAgreed', hStamps', rfl⟩, ?_⟩
  · rw [← hLength]
    exact hQuorum
  · constructor
    · rfl
    · exact hDate
    · exact hValue.symm
    · exact maxBy_perm settleStateRank_injective (hSame.map fun _ settle => settle.settleState)
    · exact hLength
    · exact hHashes.map HexDigest.text
    · change (computeVerifierRunHash sha256 resolved _ _).text = _
      rw [computeVerifierRunHash_perm sha256 resolved hHashes, hDate]
      rfl
    · exact minBy_perm SourceTier.value_injective (hSame.map fun tier _ => tier)
    · rfl

/-- The exact condition: all responders quote the same date. -/
theorem dates_unmixed_iff {sha256 : String → HexDigest} {contract : ContractSymbol}
    {asOf : DateTime} {s s' : VerifierSession ω} {responding : List (Responder Settle)}
    {vs : VerifiedSettle} (hAsk : settleResponders contract asOf s = some responding)
    (hRun : verifySettle sha256 contract asOf s = .ok (.verified vs) s') :
    DatesUnmixed sha256 contract asOf s responding vs ↔ SameDates responding := by
  have hVerified := (verifySettle_verified_iff hAsk).mp ⟨s', hRun⟩
  constructor
  · rintro ⟨-, hDates, -⟩ r hr r' hr'
    rw [hDates r hr, hDates r' hr']
  · intro hDates
    refine ⟨?_, ?_, ?_⟩
    · obtain ⟨-, first, rest, stamps, rfl, -, -, rfl⟩ := hVerified
      rfl
    · obtain ⟨-, first, rest, stamps, rfl, -, -, rfl⟩ := hVerified
      intro r hr
      exact hDates r hr first List.mem_cons_self
    · intro t responding' hPolicy hAsk' hSame
      obtain ⟨vs', hVerified', hEqual⟩ := settleVerified_of_same hSame hDates hVerified
      rw [← hPolicy] at hVerified'
      obtain ⟨t', hRun'⟩ := (verifySettle_verified_iff hAsk').mpr hVerified'
      exact ⟨vs', t', hRun', hEqual⟩

def failClosedOfTwo : FieldPolicy := ⟨"two_sources", .failClosed, 2, .tight, true⟩

/-- Two sources quote the same price, each for a date of its own. -/
def quotesFor (a b : Date) : List (DataSource Unit) :=
  [scriptedSource "a" (some (quotedSettle "a" a 70)) [],
    scriptedSource "b" (some (quotedSettle "b" b 70)) []]

def respondersFor (a b : Date) : List (Responder Settle) :=
  [⟨"a", .t2Exchange, quotedSettle "a" a 70⟩, ⟨"b", .t2Exchange, quotedSettle "b" b 70⟩]

theorem dates_unmixed_iff_oneDay : ∃ vs s',
    verifySettle sha256Hexdigest "CLF26" (.utcMidnight secondDay)
      (scriptedSession (quotesFor firstDay firstDay) failClosedOfTwo secondDay) =
        .ok (.verified vs) s' ∧
    DatesUnmixed sha256Hexdigest "CLF26" (.utcMidnight secondDay)
      (scriptedSession (quotesFor firstDay firstDay) failClosedOfTwo secondDay)
      (respondersFor firstDay firstDay) vs := by
  have hReturns : returns
      (verifySettle sha256Hexdigest "CLF26" (.utcMidnight secondDay))
      (scriptedSession (quotesFor firstDay firstDay) failClosedOfTwo secondDay)
      (fun outcome _ => outcome.record?.any fun _ => true) = true := by
    decide +kernel
  obtain ⟨vs, s', hRun, -⟩ := exists_verified_of_returns hReturns
  have hAsk : settleResponders "CLF26" (.utcMidnight secondDay)
      (scriptedSession (quotesFor firstDay firstDay) failClosedOfTwo secondDay) =
        some (respondersFor firstDay firstDay) := by
    decide +kernel
  refine ⟨vs, s', hRun, (dates_unmixed_iff hAsk hRun).mpr ?_⟩
  simp [SameDates, respondersFor, quotedSettle]

/-- Equal prices of two sessions are verified under the date of the first. -/
theorem dates_of_two_sessions_mixed :
    ¬∀ (s : VerifierSession Unit) contract asOf s' vs responding,
      settleResponders contract asOf s = some responding →
      verifySettle sha256Hexdigest contract asOf s = .ok (.verified vs) s' →
      DatesUnmixed sha256Hexdigest contract asOf s responding vs := by
  intro hAlways
  have hReturns : returns
      (verifySettle sha256Hexdigest "CLF26" (.utcMidnight secondDay))
      (scriptedSession (quotesFor firstDay secondDay) failClosedOfTwo secondDay)
      (fun outcome _ => outcome.record?.any fun vs => decide (vs.asOfDate = firstDay)) = true := by
    decide +kernel
  obtain ⟨vs, s', hRun, hDate⟩ := exists_verified_of_returns hReturns
  have hAsk : settleResponders "CLF26" (.utcMidnight secondDay)
      (scriptedSession (quotesFor firstDay secondDay) failClosedOfTwo secondDay) =
        some (respondersFor firstDay secondDay) := by
    decide +kernel
  obtain ⟨-, hDates, -⟩ := hAlways _ _ _ s' vs _ hAsk hRun
  have hSecond := hDates _ (List.mem_cons_of_mem _ List.mem_cons_self)
  rw [of_decide_eq_true hDate] at hSecond
  exact absurd hSecond (by decide)

end Futur3.Data
