import Futur3.Data.BrrSpec
import Futur3.Data.ConsensusSpec
import Mathlib.Data.List.Dedup
import Mathlib.Data.List.Induction

/-! # Whether a quorum is made of distinct sources

Neither the verifier nor the reconstructor looks at whether two of its sources
bear one id. The verifier counts responses; the reconstructor keeps the bars of
the last source of each id and counts them once for every source of that id.
-/

namespace Futur3.Data

open Prelude Prelude.Method Storage Selection MultiSourceVerifier

variable {ω : Type}

def distinctCount (ids : List String) : ℕ := ids.dedup.length

theorem distinctCount_eq_length_iff {ids : List String} :
    ids.length = distinctCount ids ↔ ids.Nodup := by
  constructor
  · intro h
    exact List.dedup_eq_self.mp ((List.dedup_sublist ids).eq_of_length h.symm)
  · intro h
    rw [distinctCount, h.dedup]

theorem two_le_distinctCount_iff {ids : List String} :
    2 ≤ distinctCount ids ↔ ∃ a ∈ ids, ∃ b ∈ ids, a ≠ b := by
  unfold distinctCount
  have hNodup := List.nodup_dedup ids
  simp only [← List.mem_dedup (l := ids)]
  revert hNodup
  generalize ids.dedup = kept
  intro hNodup
  rcases kept with _ | ⟨a, _ | ⟨b, rest⟩⟩
  · simp
  · simp
  · have hNe : a ≠ b := fun h => (List.nodup_cons.mp hNodup).1 (h ▸ List.mem_cons_self)
    refine iff_of_true (Nat.le_add_left 2 rest.length) ⟨a, List.mem_cons_self, b, ?_, hNe⟩
    exact List.mem_cons_of_mem a List.mem_cons_self

/-! ## Verified records -/

/-- The record counts at least a quorum, and as many sources as there are ids. -/
def QuorumOf (resolved : FieldPolicy) (ids : List String) (nSourcesAgreed : ℕ) : Prop :=
  resolved.minQuorum ≤ nSourcesAgreed ∧ nSourcesAgreed = distinctCount ids

theorem quorumOf_length_iff {α : Type} {resolved : FieldPolicy} {responding : List (Responder α)}
    (hEnough : resolved.minQuorum ≤ responding.length) :
    QuorumOf resolved (responding.map Responder.sourceId) responding.length ↔
      (responding.map Responder.sourceId).Nodup := by
  rw [← distinctCount_eq_length_iff, List.length_map]
  exact and_iff_right hEnough

theorem verifySettle_asks {sha256 : String → HexDigest} {contract : ContractSymbol}
    {asOf : DateTime} {s s' : VerifierSession ω} {outcome : Outcome VerifiedSettle}
    (hRun : verifySettle sha256 contract asOf s = .ok outcome s') :
    ∃ responding, settleResponders contract asOf s = some responding := by
  simp only [verifySettle, bind_ok_iff, get_ok_iff] at hRun
  obtain ⟨_, _, ⟨rfl, rfl⟩, replies, s₁, hEach, -⟩ := hRun
  unfold settleResponders
  rw [hEach]
  exact ⟨_, rfl⟩

theorem settle_quorumOf_iff {sha256 : String → HexDigest} {contract : ContractSymbol}
    {asOf : DateTime} {s s' : VerifierSession ω} {vs : VerifiedSettle}
    (hRun : verifySettle sha256 contract asOf s = .ok (.verified vs) s') :
    ∃ responding, settleResponders contract asOf s = some responding ∧
      (QuorumOf (s.verifier.policy.resolveForField fieldSettle)
        (responding.map Responder.sourceId) vs.nSourcesAgreed ↔
        (responding.map Responder.sourceId).Nodup) := by
  obtain ⟨responding, hAsk⟩ := verifySettle_asks hRun
  obtain ⟨hEnough, first, rest, stamps, hResponding, -, -, rfl⟩ :=
    (verifySettle_verified_iff hAsk).mp ⟨s', hRun⟩
  refine ⟨responding, hAsk, ?_⟩
  rw [show (verifiedSettle _ _ _ _ _ first rest).nSourcesAgreed = responding.length from
    hResponding ▸ rfl]
  exact quorumOf_length_iff hEnough

theorem bar_quorumOf_iff {sha256 : String → HexDigest} {contract : ContractSymbol}
    {barTs : DateTime} {resolution : BarResolution} {s s' : VerifierSession ω} {vb : VerifiedBar}
    (hRun : verifyBar sha256 contract barTs resolution s = .ok (.verified vb) s') :
    ∃ responding, barResponders contract barTs resolution s = some responding ∧
      (QuorumOf (s.verifier.policy.resolveForField fieldOhlc)
        (responding.map Responder.sourceId) vb.nSourcesAgreed ↔
        (responding.map Responder.sourceId).Nodup) := by
  obtain ⟨hAware, responding, hAsk, hVerified, -⟩ := verifyBar_verified hRun
  obtain ⟨hEnough, first, rest, consensus, hResponding, -, -, rfl⟩ := hVerified
  refine ⟨responding, hAsk, ?_⟩
  rw [show (verifiedBar _ _ _ _ _ _ _ _ first rest).nSourcesAgreed = responding.length from
    hResponding ▸ rfl]
  exact quorumOf_length_iff hEnough

/-! ## Partitions of a reference rate -/

def lastOf (venues : List Venue) (id : String) : Option Venue :=
  (ofKey Venue.sourceId id venues).getLast?

theorem lastOf_sortBy (venues : List Venue) (id : String) :
    lastOf (sortBy Venue.sourceId venues) id = lastOf venues id := by
  rw [lastOf, ofKey_sortBy, lastOf]

theorem get?_fetchedBars (venues : List Venue) (contract : ContractSymbol) (start stop : DateTime)
    (id : String) : (Dict.ofList (fetchedBars venues contract start stop)).get? id =
      (lastOf venues id).map fun venue => venue.barsIn contract start stop := by
  rw [Dict.get?_ofList]
  unfold lastOf fetchedBars ofKey
  induction venues using List.reverseRecOn with
  | nil => rfl
  | append_singleton venues venue ih =>
    rw [List.map_append, List.reverse_append, List.filter_append]
    by_cases hId : venue.sourceId = id
    · simp [Dict.lookup, hId]
    · simpa [Dict.lookup, hId] using ih

def Reaches (venues : List Venue) (contract : ContractSymbol) (start stop : DateTime) (i : ℕ)
    (id : String) : Prop :=
  ∃ venue, lastOf venues id = some venue ∧
    ∃ bar ∈ venue.barsIn contract start stop, inPartition start i bar = true

/-- The partition is reached under one id alone, and several sources bear it. -/
def ReachedUnderSharedId (venues : List Venue) (contract : ContractSymbol) (start stop : DateTime)
    (i : ℕ) : Prop :=
  ∃ id, 2 ≤ (ofKey Venue.sourceId id venues).length ∧ Reaches venues contract start stop i id ∧
    ∀ id', Reaches venues contract start stop i id' → id' = id

/-- The closes that are averaged in a partition, with the ids of their sources. -/
def averagedCloses (venues : List Venue) (contract : ContractSymbol) (start stop : DateTime)
    (i : ℕ) : List (String × ℚ) :=
  BRRReconstructor.partitionCloses (sortBy Venue.sourceId venues)
    (.ofList (fetchedBars (sortBy Venue.sourceId venues) contract start stop)) start i

/-- Two ids at least, and each close one that a source of its id returned there. -/
def Backed (venues : List Venue) (contract : ContractSymbol) (start stop : DateTime) (i : ℕ)
    (closes : List (String × ℚ)) : Prop :=
  2 ≤ distinctCount (closes.map Prod.fst) ∧
  ∀ quoted ∈ closes, ∃ venue ∈ venues, venue.sourceId = quoted.1 ∧
    ∃ bar ∈ venue.barsIn contract start stop, inPartition start i bar = true ∧
      bar.close.value = quoted.2

theorem exists_of_lastClose {bars : List DecimalBar} {close : ℚ} (h : lastClose bars = some close) :
    ∃ bar ∈ bars, bar.close.value = close := by
  cases bars with
  | nil => cases h
  | cons first rest => exact ⟨_, maxBy_mem _ first rest, Option.some.inj h⟩

theorem exists_lastClose {bars : List DecimalBar} {bar : DecimalBar} (h : bar ∈ bars) :
    ∃ close, lastClose bars = some close := by
  cases bars with
  | nil => cases h
  | cons first rest => exact ⟨_, rfl⟩

/-- What the loop over the sources finds for one of them, in any order of the sources. -/
def closeUnder (venues : List Venue) (contract : ContractSymbol) (start stop : DateTime) (i : ℕ)
    (id : String) : Option ℚ :=
  (lastOf venues id).bind fun venue => venue.closeIn contract start stop i

theorem averagedCloses_eq (venues : List Venue) (contract : ContractSymbol) (start stop : DateTime)
    (i : ℕ) : averagedCloses venues contract start stop i =
      (sortBy Venue.sourceId venues).filterMap fun venue =>
        (closeUnder venues contract start stop i venue.sourceId).map fun close =>
          (venue.sourceId, close) := by
  unfold averagedCloses BRRReconstructor.partitionCloses closeUnder Venue.closeIn
  apply List.filterMap_congr
  intro venue _
  rw [get?_fetchedBars, lastOf_sortBy]
  cases lastOf venues venue.sourceId <;> rfl

theorem reaches_iff {venues : List Venue} {contract : ContractSymbol} {start stop : DateTime}
    {i : ℕ} {id : String} : Reaches venues contract start stop i id ↔
      ∃ close, closeUnder venues contract start stop i id = some close := by
  unfold Reaches closeUnder Venue.closeIn
  constructor
  · rintro ⟨venue, hLast, bar, hBar, hIn⟩
    rw [hLast]
    exact exists_lastClose (List.mem_filter.mpr ⟨hBar, hIn⟩)
  · rintro ⟨close, hClose⟩
    obtain ⟨venue, hLast, hClose⟩ := Option.bind_eq_some_iff.mp hClose
    obtain ⟨bar, hBar, -⟩ := exists_of_lastClose hClose
    exact ⟨venue, hLast, bar, List.mem_filter.mp hBar⟩

theorem mem_of_lastOf {venues : List Venue} {id : String} {venue : Venue}
    (h : lastOf venues id = some venue) : venue ∈ venues ∧ venue.sourceId = id :=
  mem_ofKey.mp (List.mem_of_getLast? h)

theorem mem_averagedCloses {venues : List Venue} {contract : ContractSymbol} {start stop : DateTime}
    {i : ℕ} {id : String} {close : ℚ} :
    (id, close) ∈ averagedCloses venues contract start stop i ↔
      closeUnder venues contract start stop i id = some close := by
  rw [averagedCloses_eq, List.mem_filterMap]
  constructor
  · rintro ⟨venue, -, hQuoted⟩
    obtain ⟨close', hClose, hPair⟩ := Option.map_eq_some_iff.mp hQuoted
    obtain ⟨rfl, rfl⟩ := Prod.mk.inj hPair
    exact hClose
  · intro hClose
    obtain ⟨venue, hLast, -⟩ := Option.bind_eq_some_iff.mp hClose
    obtain ⟨hMem, rfl⟩ := mem_of_lastOf hLast
    exact ⟨venue, mem_sortBy.mpr hMem, by rw [hClose, Option.map_some]⟩

theorem mem_averagedIds {venues : List Venue} {contract : ContractSymbol} {start stop : DateTime}
    {i : ℕ} {id : String} : id ∈ (averagedCloses venues contract start stop i).map Prod.fst ↔
      Reaches venues contract start stop i id := by
  rw [reaches_iff, List.mem_map]
  constructor
  · rintro ⟨⟨id', close⟩, hMem, rfl⟩
    exact ⟨close, mem_averagedCloses.mp hMem⟩
  · rintro ⟨close, hClose⟩
    exact ⟨(id, close), mem_averagedCloses.mpr hClose, rfl⟩

/-- Closes under one id come from as many sources that bear it. -/
theorem length_averagedCloses_le {venues : List Venue} {contract : ContractSymbol}
    {start stop : DateTime} {i : ℕ} {id : String}
    (hAlone : ∀ id', Reaches venues contract start stop i id' → id' = id) :
    (averagedCloses venues contract start stop i).length ≤
      (ofKey Venue.sourceId id venues).length := by
  rw [averagedCloses_eq, ← ofKey_sortBy Venue.sourceId id venues]
  have hBearers : (sortBy Venue.sourceId venues).filterMap (fun venue =>
        (closeUnder venues contract start stop i venue.sourceId).map fun close =>
          (venue.sourceId, close)) =
      (ofKey Venue.sourceId id (sortBy Venue.sourceId venues)).filterMap fun venue =>
        (closeUnder venues contract start stop i venue.sourceId).map fun close =>
          (venue.sourceId, close) := by
    rw [ofKey, List.filterMap_filter]
    apply List.filterMap_congr
    intro venue _
    by_cases hId : venue.sourceId = id
    · rw [if_pos (decide_eq_true hId)]
    · rw [if_neg (by simpa using hId)]
      cases hClose : closeUnder venues contract start stop i venue.sourceId with
      | none => rfl
      | some close => exact absurd (hAlone _ (reaches_iff.mpr ⟨close, hClose⟩)) hId
  rw [hBearers]
  exact List.length_filterMap_le ..

theorem averagedCloses_returned {venues : List Venue} {contract : ContractSymbol}
    {start stop : DateTime} {i : ℕ} :
    ∀ quoted ∈ averagedCloses venues contract start stop i, ∃ venue ∈ venues,
      venue.sourceId = quoted.1 ∧ ∃ bar ∈ venue.barsIn contract start stop,
        inPartition start i bar = true ∧ bar.close.value = quoted.2 := by
  rintro ⟨id, close⟩ hMem
  obtain ⟨venue, hLast, hClose⟩ := Option.bind_eq_some_iff.mp (mem_averagedCloses.mp hMem)
  obtain ⟨hVenue, hId⟩ := mem_of_lastOf hLast
  obtain ⟨bar, hBar, hValue⟩ := exists_of_lastClose hClose
  obtain ⟨hReturned, hIn⟩ := List.mem_filter.mp hBar
  exact ⟨venue, hVenue, hId, bar, hReturned, hIn, hValue⟩

theorem backed_iff {venues : List Venue} {contract : ContractSymbol} {start stop : DateTime} {i : ℕ}
    (hEnough : minVenues ≤ (averagedCloses venues contract start stop i).length) :
    Backed venues contract start stop i (averagedCloses venues contract start stop i) ↔
      ¬ReachedUnderSharedId venues contract start stop i := by
  unfold Backed
  rw [and_iff_left averagedCloses_returned, two_le_distinctCount_iff]
  simp only [mem_averagedIds]
  constructor
  · rintro ⟨a, ha, b, hb, hNe⟩ ⟨id, -, -, hAlone⟩
    exact hNe ((hAlone a ha).trans (hAlone b hb).symm)
  · intro hNotShared
    by_contra hSame
    push Not at hSame
    obtain ⟨⟨id, close⟩, hFirst⟩ := List.exists_mem_of_length_pos (lt_of_lt_of_le (by decide) hEnough)
    have hReaches : Reaches venues contract start stop i id :=
      mem_averagedIds.mp (List.mem_map_of_mem hFirst)
    have hAlone : ∀ id', Reaches venues contract start stop i id' → id' = id :=
      fun id' hReaches' => hSame id' hReaches' id hReaches
    exact hNotShared ⟨id, hEnough.trans (length_averagedCloses_le hAlone), hReaches, hAlone⟩

theorem partition_backed_iff {venues : List Venue} {sha256 : String → HexDigest} {london : TimeZone}
    {contract : ContractSymbol} {fixDate : Date} {result : BRRReconstruction}
    (h : reconstructFrom venues sha256 london contract fixDate = .ok result) :
    ∃ start stop, londonWindowUtc? london fixDate = some (start, stop) ∧
      ∀ i value, result.partitionValues[i]? = some (some value) →
        value = arithmeticMean ((averagedCloses venues contract start stop i).map Prod.snd) ∧
        (Backed venues contract start stop i (averagedCloses venues contract start stop i) ↔
          ¬ReachedUnderSharedId venues contract start stop i) := by
  obtain ⟨start, stop, hComputed⟩ := reconstructFrom_ok h
  refine ⟨start, stop, hComputed.window, ?_⟩
  intro i value hValue
  rw [hComputed.partitionValues, List.getElem?_map] at hValue
  obtain ⟨j, hj, hPartition⟩ := Option.map_eq_some_iff.mp hValue
  obtain ⟨hLength, hIndex⟩ := List.getElem?_eq_some_iff.mp hj
  rw [List.getElem_range] at hIndex
  subst hIndex
  change (if ((averagedCloses venues contract start stop i).map Prod.snd).length < minVenues then none
    else some _) = some value at hPartition
  split_ifs at hPartition with hFew
  rw [List.length_map] at hFew
  exact ⟨(Option.some.inj hPartition).symm, backed_iff (not_lt.mp hFew)⟩

/-! ## Both quorums -/

/-- A verified record counts distinct sources exactly when no two responders share an id;
a valid partition is backed by two ids exactly when it is not reached under one id alone
that several sources bear. -/
theorem quorum_distinct_iff (sha256 : String → HexDigest) :
    (∀ (s s' : VerifierSession ω) contract asOf vs,
      verifySettle sha256 contract asOf s = .ok (.verified vs) s' →
      ∃ responding, settleResponders contract asOf s = some responding ∧
        (QuorumOf (s.verifier.policy.resolveForField fieldSettle)
          (responding.map Responder.sourceId) vs.nSourcesAgreed ↔
          (responding.map Responder.sourceId).Nodup)) ∧
    (∀ (s s' : VerifierSession ω) contract barTs resolution vb,
      verifyBar sha256 contract barTs resolution s = .ok (.verified vb) s' →
      ∃ responding, barResponders contract barTs resolution s = some responding ∧
        (QuorumOf (s.verifier.policy.resolveForField fieldOhlc)
          (responding.map Responder.sourceId) vb.nSourcesAgreed ↔
          (responding.map Responder.sourceId).Nodup)) ∧
    ∀ venues london contract fixDate result,
      reconstructFrom venues sha256 london contract fixDate = .ok result →
      ∃ start stop, londonWindowUtc? london fixDate = some (start, stop) ∧
        ∀ i value, result.partitionValues[i]? = some (some value) →
          value = arithmeticMean ((averagedCloses venues contract start stop i).map Prod.snd) ∧
          (Backed venues contract start stop i (averagedCloses venues contract start stop i) ↔
            ¬ReachedUnderSharedId venues contract start stop i) :=
  ⟨fun _ _ _ _ _ hRun => settle_quorumOf_iff hRun, fun _ _ _ _ _ _ hRun => bar_quorumOf_iff hRun,
    fun _ _ _ _ _ hRun => partition_backed_iff hRun⟩

theorem not_reachedUnderSharedId {venues : List Venue} (hIds : (venues.map Venue.sourceId).Nodup)
    (contract : ContractSymbol) (start stop : DateTime) (i : ℕ) :
    ¬ReachedUnderSharedId venues contract start stop i := by
  rintro ⟨id, hSeveral, -⟩
  have hNodup : ((ofKey Venue.sourceId id venues).map Venue.sourceId).Nodup :=
    hIds.sublist (List.filter_sublist.map _)
  have hKeys : ∀ venue ∈ ofKey Venue.sourceId id venues, venue.sourceId = id :=
    fun venue hVenue => (mem_ofKey.mp hVenue).2
  generalize ofKey Venue.sourceId id venues = bearers at hSeveral hNodup hKeys
  rcases bearers with _ | ⟨a, _ | ⟨b, rest⟩⟩
  · simp at hSeveral
  · simp at hSeveral
  · have hSame : a.sourceId = b.sourceId :=
      (hKeys a List.mem_cons_self).trans (hKeys b (List.mem_cons_of_mem a List.mem_cons_self)).symm
    exact (List.nodup_cons.mp hNodup).1 (hSame ▸ List.mem_cons_self)

theorem quorum_distinct_iff_two :
    (∃ vs s', verifySettle sha256Hexdigest "CLF26" (.utcMidnight firstDay)
        (scriptedSession (twoSources 100) (twoOfBand .normal) firstDay) =
          .ok (.verified vs) s' ∧ QuorumOf (twoOfBand .normal) ["a", "b"] vs.nSourcesAgreed) ∧
    (∃ vb s', verifyBar sha256Hexdigest "CLF26" (.utcMidnight firstDay) .day1
        (scriptedSession (twoSources 100) (twoOfBand .normal) firstDay) =
          .ok (.verified vb) s' ∧ QuorumOf (twoOfBand .normal) ["a", "b"] vb.nSourcesAgreed) ∧
    ∃ result, reconstructFrom twoVenues sha256Hexdigest winter "BTCUSD" .dec8 = .ok result ∧
      ∀ i value, result.partitionValues[i]? = some (some value) →
        Backed twoVenues "BTCUSD" (afternoon 0) (afternoon 60) i
          (averagedCloses twoVenues "BTCUSD" (afternoon 0) (afternoon 60) i) := by
  obtain ⟨hSettle, hBar, hPartitions⟩ := quorum_distinct_iff (ω := Unit) sha256Hexdigest
  refine ⟨?_, ?_, ?_⟩
  · have hReturns : returns
        (verifySettle sha256Hexdigest "CLF26" (.utcMidnight firstDay))
        (scriptedSession (twoSources 100) (twoOfBand .normal) firstDay)
        (fun outcome _ => outcome.record?.any fun _ => true) = true := by
      decide +kernel
    obtain ⟨vs, s', hRun, -⟩ := exists_verified_of_returns hReturns
    obtain ⟨responding, hAsk, hIff⟩ := hSettle _ _ _ _ _ hRun
    have hTwo : settleResponders "CLF26" (.utcMidnight firstDay)
        (scriptedSession (twoSources 100) (twoOfBand .normal) firstDay) = some twoSettles := by
      decide +kernel
    rw [hTwo] at hAsk
    cases hAsk
    exact ⟨vs, s', hRun, hIff.mpr (by decide +kernel)⟩
  · have hReturns : returns
        (verifyBar sha256Hexdigest "CLF26" (.utcMidnight firstDay) .day1)
        (scriptedSession (twoSources 100) (twoOfBand .normal) firstDay)
        (fun outcome _ => outcome.record?.any fun _ => true) = true := by
      decide +kernel
    obtain ⟨vb, s', hRun, -⟩ := exists_verified_of_returns hReturns
    obtain ⟨responding, hAsk, hIff⟩ := hBar _ _ _ _ _ _ hRun
    have hTwo : barResponders "CLF26" (.utcMidnight firstDay) .day1
        (scriptedSession (twoSources 100) (twoOfBand .normal) firstDay) = some (twoBars 100) := by
      decide +kernel
    rw [hTwo] at hAsk
    cases hAsk
    exact ⟨vb, s', hRun, hIff.mpr (by decide +kernel)⟩
  · obtain ⟨result, hResult, -⟩ := reconstructFrom_twoVenues
    obtain ⟨start, stop, hWindow, hBacked⟩ := hPartitions _ _ _ _ _ hResult
    rw [londonWindowUtc?_winter] at hWindow
    cases hWindow
    refine ⟨result, hResult, fun i value hValue => (hBacked i value hValue).2.mpr ?_⟩
    exact not_reachedUnderSharedId (by decide +kernel) _ _ _ _

def twiceTheSame : List (DataSource Unit) :=
  [scriptedSource "databento" (some (quotedSettle "databento" firstDay 70)) [],
    scriptedSource "databento" (some (quotedSettle "databento" firstDay 70)) []]

/-- Two sources of one id: the first has no bar in the second partition of the hour. -/
def sharedVenues : List Venue := [
  quotingVenue "coinbase" [venueBar "coinbase" 12 100],
  quotingVenue "coinbase" [venueBar "coinbase" 7 104]]

theorem one_id_is_a_quorum :
    (¬∀ sources policy clock (verifier : MultiSourceVerifier Unit),
      MultiSourceVerifier.create sources policy clock = .ok verifier →
      ∀ contract asOf vs s',
        verifySettle sha256Hexdigest contract asOf ⟨verifier, ()⟩ = .ok (.verified vs) s' →
        ∃ responding, settleResponders contract asOf ⟨verifier, ()⟩ = some responding ∧
          QuorumOf (policy.resolveForField fieldSettle) (responding.map Responder.sourceId)
            vs.nSourcesAgreed) ∧
    ¬∀ venues contract result,
      reconstructFrom venues sha256Hexdigest winter contract .dec8 = .ok result →
      ∀ i value, result.partitionValues[i]? = some (some value) →
        Backed venues contract (afternoon 0) (afternoon 60) i
          (averagedCloses venues contract (afternoon 0) (afternoon 60) i) := by
  constructor
  · intro hAlways
    have hReturns : returns (verifySettle sha256Hexdigest "CLF26" (.utcMidnight firstDay))
        (scriptedSession twiceTheSame (twoOfBand .normal) firstDay)
        (fun outcome _ => outcome.record?.any fun vs => decide (vs.nSourcesAgreed = 2)) = true := by
      decide +kernel
    obtain ⟨vs, s', hRun, hTwo⟩ := exists_verified_of_returns hReturns
    have hResponders : (settleResponders "CLF26" (.utcMidnight firstDay)
        (scriptedSession twiceTheSame (twoOfBand .normal) firstDay)).map
          (fun responding => responding.map Responder.sourceId) =
        some ["databento", "databento"] := by
      decide +kernel
    obtain ⟨responding, hAsk, -, hCount⟩ := hAlways twiceTheSame ⟨twoOfBand .normal, .empty⟩
      (fun world => (.utcMidnight firstDay, world)) _ rfl _ _ vs s' hRun
    change settleResponders "CLF26" (.utcMidnight firstDay)
      (scriptedSession twiceTheSame (twoOfBand .normal) firstDay) = some responding at hAsk
    rw [hAsk, Option.map_some, Option.some.injEq] at hResponders
    rw [hResponders, of_decide_eq_true hTwo] at hCount
    exact absurd hCount (by decide +kernel)
  · intro hAlways
    obtain ⟨result, hResult, hRates⟩ : ∃ result,
        reconstructFrom sharedVenues sha256Hexdigest winter "BTCUSD" .dec8 = .ok result ∧
          result.rates = (104, [none, some 104, none, none, none, none, none, none, none, none,
            none, none]) :=
      exists_reconstruction (by decide +kernel) sha256Hexdigest
    have hValue : result.partitionValues[1]? = some (some 104) := by
      rw [show result.partitionValues = _ from congrArg Prod.snd hRates]
      rfl
    have hIds := (hAlways _ _ _ hResult 1 104 hValue).1
    exact absurd hIds (by decide +kernel)

end Futur3.Data
