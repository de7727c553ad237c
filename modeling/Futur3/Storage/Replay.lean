import Futur3.Storage.CmeArchive

/-! # Replaying the archive

The replay source reads the archive back and picks, among the rows of a
contract that are dated by the query, the latest by date, state and hash. It
goes by the date that a settle is for, not by the time it was captured.
-/

namespace Futur3.Storage

open Data Prelude Selection

inductive ReplayFailure where
  -- ContractNotConfigured: "{source_id}: contract {s} too short for root parse (...)"
  | contractNotConfigured (contract : ContractSymbol)
  -- DataSourceError: "{source_id}: archive row has unknown settle_state {raw}; valid: [...]"
  | unknownSettleState (text : String)
  -- DataSourceError: "{source_id}: archive row as_of_iso is naive {raw}; (...)"
  | naiveAsOf (asOfIso : DateTime)
  -- what astimezone, Decimal and Settle raise
  | reconstruction (failure : StorageFailure)
deriving DecidableEq

def minContractSymbolLength : ℕ := 4

def parseContractRoot (contract : ContractSymbol) : Except ReplayFailure String :=
  if contract.toList.length < minContractSymbolLength then throw (.contractNotConfigured contract)
  else pure (rootOf contract)

def reconstruct {α : Type} (x : Except StorageFailure α) : Except ReplayFailure α :=
  x.mapError .reconstruction

/-- The capture time of a row, refused when it has no timezone. -/
def replayAsOfIso : Option DateTime → Except ReplayFailure (Option DateTime)
  | none => pure none
  | some t =>
    if t.isAware then do
      let u ← reconstruct (astimezoneUtc t)
      return some u
    else throw (.naiveAsOf t)

def replayRow (row : SettleRow) : Except ReplayFailure DecimalSettle :=
  match settleStateOf? row.settleState with
  | none => throw (.unknownSettleState row.settleState)
  | some (state, _) => do
    let asOfIso ← replayAsOfIso row.asOfIso
    reconstruct (buildSettle row state asOfIso)

/-- The key by which candidates are sorted: `_SETTLE_STATE_RANK` in the middle. -/
def replayOrder (s : DecimalSettle) : Date ×ₗ ℕ ×ₗ String :=
  toLex (s.asOfDate, toLex (settleTextRank (settleStateText s.settleState), s.contentBytesSha))

/-- The name of a file's directory below the directory of its root. -/
def yearDir (p : ArchivePartition) : String := "year=" ++ toString p.year

def eligible (contract : ContractSymbol) (asOfDate : Date) (row : SettleRow) : Bool :=
  row.contract = contract && row.asOfDate ≤ asOfDate

def latestSettle (contract : ContractSymbol) (asOf : DateTime) (archive : Archive) :
    Except ReplayFailure (Option DecimalSettle) := do
  let root ← parseContractRoot contract
  let inDir : ArchivePartition → Bool := fun p => p.contractRoot = root ∧ p.year ≤ asOf.date.year
  let matching := (readFiles inDir yearDir archive).filter (eligible contract asOf.date)
  let candidates ← matching.mapM replayRow
  return (sortBy replayOrder candidates).getLast?

/-! ## Reading a row back -/

theorem reconstruct_ok_iff {α : Type} {x : Except StorageFailure α} {a : α} :
    reconstruct x = .ok a ↔ x = .ok a := by
  cases x <;> simp [reconstruct, Except.mapError]

theorem buildSettle_ok {row : SettleRow} {state : SettleState} {asOfIso : Option DateTime}
    {s : DecimalSettle} (h : buildSettle row state asOfIso = .ok s) :
    s.contract = row.contract ∧ s.asOfDate = row.asOfDate ∧ s.settleState = state ∧
      s.contentBytesSha = row.contentBytesSha ∧ s.asOfIso = asOfIso := by
  unfold buildSettle at h
  simp only [except_bind_ok_iff] at h
  obtain ⟨settle, -, openPrice, -, high, -, low, -, last, -, change, -, h⟩ := h
  split at h
  · obtain rfl := except_pure_ok_iff.mp h
    exact ⟨rfl, rfl, rfl, rfl, rfl⟩
  · exact absurd h (by rw [except_throw_ok_iff]; exact not_false)

theorem settleStateText_of_settleStateOf? {text : String} {state : SettleState} {rank : ℕ}
    (h : settleStateOf? text = some (state, rank)) : settleStateText state = text := by
  unfold settleStateOf? at h
  split_ifs at h with hLive hPreliminary hFinal <;> cases h
  · exact hLive.symm
  · exact hPreliminary.symm
  · exact hFinal.symm

/-- What a row that can be read gives: its own dates, order and instant of capture. -/
theorem replayRow_ok {row : SettleRow} {s : DecimalSettle} (h : replayRow row = .ok s) :
    s.asOfDate = row.asOfDate ∧ replayOrder s = settleOrder row ∧
      s.asOfIso.map DateTime.instant = row.asOfIso.map DateTime.instant := by
  unfold replayRow at h
  cases hState : settleStateOf? row.settleState with
  | none =>
    rw [hState] at h
    exact absurd h (by simp [throw, throwThe, MonadExceptOf.throw])
  | some entry =>
    obtain ⟨state, rank⟩ := entry
    rw [hState] at h
    obtain ⟨asOfIso, hAsOf, h⟩ := except_bind_ok_iff.mp h
    obtain ⟨-, hDate, hState', hSha, hIso⟩ := buildSettle_ok (reconstruct_ok_iff.mp h)
    refine ⟨hDate, ?_, ?_⟩
    · unfold replayOrder settleOrder
      rw [hDate, hState', hSha, settleStateText_of_settleStateOf? hState]
    · rw [hIso]
      unfold replayAsOfIso at hAsOf
      cases hRow : row.asOfIso with
      | none =>
        rw [hRow] at hAsOf
        rw [← except_pure_ok_iff.mp hAsOf]
      | some t =>
        rw [hRow] at hAsOf
        split at hAsOf
        · contradiction
        · rename_i t' hEq
          cases hEq
          split at hAsOf
          · obtain ⟨u, hu, hAsOf⟩ := except_bind_ok_iff.mp hAsOf
            rw [← except_pure_ok_iff.mp hAsOf]
            exact congrArg some (DateTime.instant_toUtc? (astimezoneUtc_ok_iff.mp
              (reconstruct_ok_iff.mp hu)))
          · exact absurd hAsOf (by rw [except_throw_ok_iff]; exact not_false)

def UtcCapture (s : DecimalSettle) : Prop := ∀ t ∈ s.asOfIso, t.IsUtc

theorem replayRow_settleRow {s : DecimalSettle} (h : UtcCapture s) :
    replayRow (settleRow s s.asOfIso) = .ok s := by
  obtain ⟨rank, hState⟩ := settleStateOf?_text s.settleState
  have hAsOf : replayAsOfIso s.asOfIso = .ok s.asOfIso := by
    cases hIso : s.asOfIso with
    | none => rfl
    | some t =>
      have hUtc := h t hIso
      unfold replayAsOfIso
      simp only [DateTime.isAware_of_isUtc hUtc, if_true,
        astimezoneUtc_ok_iff.mpr (DateTime.toUtc?_of_isUtc hUtc)]
      rfl
  unfold replayRow
  have hText : (settleRow s s.asOfIso).settleState = settleStateText s.settleState := rfl
  rw [hText, hState]
  change (replayAsOfIso s.asOfIso >>= _) = _
  rw [hAsOf]
  exact reconstruct_ok_iff.mpr (buildSettle_settleRow s s.as_of_aware)

/-! ## The latest settle -/

/-- Every row lies in the file of its contract's root and of its year. -/
def Placed (archive : Archive) : Prop :=
  ∀ p, ∀ row ∈ rowsAt archive p, p = ⟨rootOf row.contract, row.asOfDate.year⟩

def Eligible (contract : ContractSymbol) (asOfDate : Date) (row : SettleRow) : Prop :=
  row.contract = contract ∧ row.asOfDate ≤ asOfDate

/-- Nothing when the archive has no eligible row, or else the settle of an eligible row that no
eligible row is after. -/
def Latest (contract : ContractSymbol) (asOfDate : Date) (archive : Archive) :
    Option DecimalSettle → Prop
  | none => ∀ row ∈ allRows archive, ¬Eligible contract asOfDate row
  | some s => ∃ row ∈ allRows archive, Eligible contract asOfDate row ∧ replayRow row = .ok s ∧
      ∀ row' ∈ allRows archive, Eligible contract asOfDate row' → settleOrder row' ≤ settleOrder row

theorem year_le_of_le {d e : Date} (h : d ≤ e) : d.year ≤ e.year := by
  have hRank : d.rank ≤ e.rank := h
  have hMonth := e.month_le
  have hDay := e.day_le.trans (daysInMonth_le e.year e.month)
  unfold Date.rank at hRank
  omega

theorem parseContractRoot_ok_iff {contract : ContractSymbol} {root : String} :
    parseContractRoot contract = .ok root ↔
      symbolSuffixLen < contract.toList.length ∧ rootOf contract = root := by
  unfold parseContractRoot
  rw [except_guard_ok_iff, except_pure_ok_iff]
  apply and_congr_left
  intro _
  unfold minContractSymbolLength symbolSuffixLen
  omega

/-- The rows that a query reads: every eligible one lies in a file that it opens. -/
theorem mem_matching {archive : Archive} (hPlaced : Placed archive) {contract : ContractSymbol}
    {asOfDate : Date} {row : SettleRow} :
    row ∈ (readFiles (fun p => p.contractRoot = rootOf contract ∧ p.year ≤ asOfDate.year) yearDir
        archive).filter (eligible contract asOfDate) ↔
      row ∈ allRows archive ∧ Eligible contract asOfDate row := by
  have hTest : eligible contract asOfDate row ↔ Eligible contract asOfDate row := by
    simp [eligible, Eligible]
  rw [List.mem_filter, mem_readFiles, mem_allRows, hTest]
  constructor
  · rintro ⟨⟨p, -, hRow⟩, hEligible⟩
    exact ⟨⟨p, hRow⟩, hEligible⟩
  · rintro ⟨⟨p, hRow⟩, hEligible⟩
    refine ⟨⟨p, ?_, hRow⟩, hEligible⟩
    rw [hPlaced p row hRow, decide_eq_true_iff]
    exact ⟨congrArg rootOf hEligible.1, year_le_of_le hEligible.2⟩

/-- The last of the sorted candidates comes from a row of greatest order. -/
theorem getLast?_sortBy {rows : List SettleRow} {candidates : List DecimalSettle}
    {s : DecimalSettle} (hCandidates : rows.mapM replayRow = .ok candidates)
    (h : (sortBy replayOrder candidates).getLast? = some s) :
    ∃ row ∈ rows, replayRow row = .ok s ∧ ∀ row' ∈ rows, settleOrder row' ≤ settleOrder row := by
  have hMap := except_mapM_ok_iff.mp hCandidates
  obtain ⟨before, hSorted⟩ := List.getLast?_eq_some_iff.mp h
  have hMem : s ∈ sortBy replayOrder candidates := by
    rw [hSorted]
    exact List.mem_append_right before (List.mem_singleton_self s)
  have hRow : Except.ok s ∈ rows.map replayRow := by
    rw [hMap]
    exact List.mem_map_of_mem (mem_sortBy.mp hMem)
  obtain ⟨row, hRow, hReplay⟩ := List.mem_map.mp hRow
  refine ⟨row, hRow, hReplay, ?_⟩
  intro row' hRow'
  have hOk : replayRow row' ∈ candidates.map Except.ok := by
    rw [← hMap]
    exact List.mem_map_of_mem hRow'
  obtain ⟨s', hs', hReplay'⟩ := List.mem_map.mp hOk
  rw [← (replayRow_ok hReplay).2.1, ← (replayRow_ok hReplay'.symm).2.1]
  have hPairwise := pairwise_sortBy replayOrder candidates
  have hs' : s' ∈ sortBy replayOrder candidates := mem_sortBy.mpr hs'
  rw [hSorted] at hs'
  rw [hSorted, List.pairwise_append] at hPairwise
  rcases List.mem_append.mp hs' with hs' | hs'
  · exact hPairwise.2.2 s' hs' s (List.mem_singleton_self s)
  · rw [List.mem_singleton.mp hs']

theorem latestSettle_ok_iff {contract : ContractSymbol} {asOf : DateTime} {archive : Archive}
    {latest : Option DecimalSettle} :
    latestSettle contract asOf archive = .ok latest ↔
      symbolSuffixLen < contract.toList.length ∧ ∃ candidates,
        ((readFiles (fun p => p.contractRoot = rootOf contract ∧ p.year ≤ asOf.date.year) yearDir
          archive).filter (eligible contract asOf.date)).mapM replayRow = .ok candidates ∧
        (sortBy replayOrder candidates).getLast? = latest := by
  unfold latestSettle
  simp only [except_bind_ok_iff, except_pure_ok_iff, parseContractRoot_ok_iff]
  constructor
  · rintro ⟨root, ⟨hLength, rfl⟩, hCandidates⟩
    exact ⟨hLength, hCandidates⟩
  · rintro ⟨hLength, hCandidates⟩
    exact ⟨rootOf contract, ⟨hLength, rfl⟩, hCandidates⟩

theorem latest_of_ok {archive : Archive} (hPlaced : Placed archive) {contract : ContractSymbol}
    {asOf : DateTime} {latest : Option DecimalSettle}
    (h : latestSettle contract asOf archive = .ok latest) :
    Latest contract asOf.date archive latest := by
  obtain ⟨-, candidates, hCandidates, rfl⟩ := latestSettle_ok_iff.mp h
  cases hLast : (sortBy replayOrder candidates).getLast? with
  | none =>
    rw [List.getLast?_eq_none_iff, sortBy_eq_nil_iff] at hLast
    rw [hLast, except_mapM_ok_iff, List.map_nil, List.map_eq_nil_iff] at hCandidates
    intro row hRow hEligible
    have hMem := (mem_matching hPlaced).mpr ⟨hRow, hEligible⟩
    rw [hCandidates] at hMem
    cases hMem
  | some s =>
    obtain ⟨row, hRow, hReplay, hGreatest⟩ := getLast?_sortBy hCandidates hLast
    obtain ⟨hRow, hEligible⟩ := (mem_matching hPlaced).mp hRow
    refine ⟨row, hRow, hEligible, hReplay, ?_⟩
    intro row' hRow' hEligible'
    exact hGreatest row' ((mem_matching hPlaced).mpr ⟨hRow', hEligible'⟩)

theorem latestSettle_returns {archive : Archive} (hPlaced : Placed archive)
    (hReplay : ∀ row ∈ allRows archive, ∃ s, replayRow row = .ok s) {contract : ContractSymbol}
    (hLength : symbolSuffixLen < contract.toList.length) (asOf : DateTime) :
    ∃ latest, latestSettle contract asOf archive = .ok latest := by
  have hMatching : ∀ row ∈ (readFiles (fun p => p.contractRoot = rootOf contract ∧
      p.year ≤ asOf.date.year) yearDir archive).filter (eligible contract asOf.date),
      ∃ s, replayRow row = .ok s :=
    fun row hRow => hReplay row ((mem_matching hPlaced).mp hRow).1
  obtain ⟨candidates, hCandidates⟩ := except_mapM_returns hMatching
  exact ⟨_, latestSettle_ok_iff.mpr ⟨hLength, candidates, hCandidates, rfl⟩⟩

/-! ## Histories of writes -/

/-- One archive after calls of `_write_archive`, each with its root and its settles. -/
def writes (calls : List (String × List DecimalSettle)) : Archive :=
  calls.foldl (fun archive call => writeArchive call.1 call.2 archive) .empty

structure Captured (written : List DecimalSettle) (archive : Archive) : Prop where
  placed : Placed archive
  encoded : ∀ p, ∀ row ∈ rowsAt archive p, ∃ s ∈ written, row = settleRow s s.asOfIso
  kept : ∀ s ∈ written,
    keyOf s ∈ (rowsAt archive ⟨rootOf s.contract, s.asOfDate.year⟩).map settleKey

theorem mem_keys_appended {file : Option (List SettleRow)} {rows : List SettleRow} {k : SettleKey}
    (h : k ∈ (file.getD []).map settleKey ∨ k ∈ rows.map settleKey) :
    k ∈ (appended file rows).map settleKey := by
  cases file with
  | none =>
    rcases h with h | h
    · cases h
    · exact h
  | some existing =>
    change k ∈ (keepLast settleKey (existing ++ rows)).map settleKey
    rw [mem_map_keepLast, List.map_append, List.mem_append]
    exact h

theorem mem_keys_writeArchive {contractRoot : String} {settles : List DecimalSettle}
    {archive : Archive} {p : ArchivePartition} {k : SettleKey}
    (h : k ∈ (rowsAt archive p).map settleKey) :
    k ∈ (rowsAt (writeArchive contractRoot settles archive) p).map settleKey := by
  rw [rowsAt, get?_writeArchive]
  split
  · exact mem_keys_appended (Or.inl h)
  · exact h

theorem Captured.write {written : List DecimalSettle} {archive : Archive}
    (h : Captured written archive) {contractRoot : String} {settles : List DecimalSettle}
    (hRoot : ∀ s ∈ settles, rootOf s.contract = contractRoot) :
    Captured (written ++ settles) (writeArchive contractRoot settles archive) := by
  have hNew : ∀ year, ∀ row ∈ yearRows year settles, ∃ s ∈ settles,
      row = settleRow s s.asOfIso ∧ s.asOfDate.year = year := by
    intro year row hRow
    obtain ⟨s, hs, rfl⟩ := List.mem_map.mp hRow
    obtain ⟨hs, hYear⟩ := List.mem_filter.mp hs
    exact ⟨s, hs, rfl, of_decide_eq_true hYear⟩
  constructor
  · intro p row hRow
    rcases mem_writeArchive hRow with hRow | ⟨hPart, hRow⟩
    · exact h.placed p row hRow
    · obtain ⟨s, hs, rfl, hYear⟩ := hNew p.year row hRow
      obtain ⟨root, year⟩ := p
      rw [ArchivePartition.mk.injEq]
      exact ⟨hPart.trans (hRoot s hs).symm, hYear.symm⟩
  · intro p row hRow
    rcases mem_writeArchive hRow with hRow | ⟨-, hRow⟩
    · obtain ⟨s, hs, hEncoded⟩ := h.encoded p row hRow
      exact ⟨s, List.mem_append_left settles hs, hEncoded⟩
    · obtain ⟨s, hs, hEncoded, -⟩ := hNew p.year row hRow
      exact ⟨s, List.mem_append_right written hs, hEncoded⟩
  · intro s hs
    rcases List.mem_append.mp hs with hs | hs
    · exact mem_keys_writeArchive (h.kept s hs)
    · rw [rowsAt, get?_writeArchive, if_pos ⟨hRoot s hs, List.mem_map_of_mem hs⟩]
      apply mem_keys_appended
      right
      apply List.mem_map.mpr
      refine ⟨settleRow s s.asOfIso, List.mem_map_of_mem (List.mem_filter.mpr ⟨hs, ?_⟩), rfl⟩
      exact decide_eq_true rfl

theorem captured_writes (calls : List (String × List DecimalSettle))
    (hRoot : ∀ call ∈ calls, ∀ s ∈ call.2, rootOf s.contract = call.1) :
    Captured (calls.flatMap Prod.snd) (writes calls) := by
  induction calls using List.reverseRecOn with
  | nil => exact ⟨by simp [Placed, writes, rowsAt], by simp [writes, rowsAt], by simp⟩
  | append_singleton calls call ih =>
    have hCalls := ih fun call' hCall => hRoot call' (List.mem_append_left [call] hCall)
    have hLast := hRoot call (List.mem_append_right calls (List.mem_singleton_self call))
    rw [List.flatMap_append, List.flatMap_singleton, writes, List.foldl_append]
    exact hCalls.write hLast

theorem Captured.replays {written : List DecimalSettle} {archive : Archive}
    (h : Captured written archive) (hUtc : ∀ s ∈ written, UtcCapture s) {row : SettleRow}
    (hRow : row ∈ allRows archive) : ∃ s ∈ written, replayRow row = .ok s := by
  obtain ⟨p, hp⟩ := mem_allRows.mp hRow
  obtain ⟨s, hs, rfl⟩ := h.encoded p row hp
  exact ⟨s, hs, replayRow_settleRow (hUtc s hs)⟩

/-- Settles read back as they were written; after any writes every key is archived, and the latest
settle of a contract is a written one, of an archived row that no eligible row is after. -/
theorem archive_round_trip :
    (∀ settles : List DecimalSettle, (∀ s ∈ settles, UtcCapture s) →
      (settlesToDataframe settles).mapM replayRow = .ok settles) ∧
    ∀ calls : List (String × List DecimalSettle),
      (∀ call ∈ calls, ∀ s ∈ call.2, rootOf s.contract = call.1 ∧ UtcCapture s) →
      (∀ call ∈ calls, ∀ s ∈ call.2, keyOf s ∈ (allRows (writes calls)).map settleKey) ∧
      ∀ (contract : ContractSymbol) (asOf : DateTime), symbolSuffixLen < contract.toList.length →
        ∃ latest, latestSettle contract asOf (writes calls) = .ok latest ∧
          Latest contract asOf.date (writes calls) latest ∧
          ∀ s ∈ latest, ∃ call ∈ calls, s ∈ call.2 := by
  constructor
  · intro settles hUtc
    rw [except_mapM_ok_iff, settlesToDataframe, List.map_map]
    exact List.map_congr_left fun s hs => replayRow_settleRow (hUtc s hs)
  · intro calls hCalls
    have hCaptured := captured_writes calls fun call hCall s hs => (hCalls call hCall s hs).1
    have hReplays : ∀ row ∈ allRows (writes calls), ∃ s ∈ calls.flatMap Prod.snd,
        replayRow row = .ok s := by
      intro row hRow
      apply hCaptured.replays _ hRow
      intro s hs
      obtain ⟨call, hCall, hs⟩ := List.mem_flatMap.mp hs
      exact (hCalls call hCall s hs).2
    constructor
    · intro call hCall s hs
      obtain ⟨row, hRow, hKey⟩ :=
        List.mem_map.mp (hCaptured.kept s (List.mem_flatMap.mpr ⟨call, hCall, hs⟩))
      exact List.mem_map.mpr ⟨row, mem_allRows.mpr ⟨_, hRow⟩, hKey⟩
    · intro contract asOf hLength
      obtain ⟨latest, hLatest⟩ := latestSettle_returns hCaptured.placed
        (fun row hRow => (hReplays row hRow).imp fun s hs => hs.2) hLength asOf
      have hSpec := latest_of_ok hCaptured.placed hLatest
      refine ⟨latest, hLatest, hSpec, ?_⟩
      rintro s ⟨⟩
      obtain ⟨row, hRow, -, hReplay, -⟩ := hSpec
      obtain ⟨s', hs', hReplay'⟩ := hReplays row hRow
      rw [hReplay] at hReplay'
      cases hReplay'
      obtain ⟨call, hCall, hs⟩ := List.mem_flatMap.mp hs'
      exact ⟨call, hCall, hs⟩

/-- The sample settle as it is first published, a day before it is final. -/
def preliminarySettle : DecimalSettle :=
  { sampleSettle "ESM26" 1 with settleState := .preliminary }

/-- Two captures. The second repeats the preliminary settle and captures the final one again. -/
def twoCaptures : List (String × List DecimalSettle) :=
  [("ES", [preliminarySettle, sampleSettle "ESM26" 1]),
    ("ES", [preliminarySettle, sampleSettle "ESU26" 1, recapturedSettle])]

theorem utcCapture_iff {s : DecimalSettle} : UtcCapture s ↔ s.asOfIso.all fun t => t.IsUtc := by
  rw [Option.all_eq_true]
  exact forall₂_congr fun t _ => (decide_eq_true_iff).symm

theorem archive_round_trip_twoCaptures :
    (settlesToDataframe (twoCaptures.flatMap Prod.snd)).mapM replayRow = .ok (twoCaptures.flatMap Prod.snd) ∧
      (∀ call ∈ twoCaptures, ∀ s ∈ call.2, keyOf s ∈ (allRows (writes twoCaptures)).map settleKey) ∧
      (allRows (writes twoCaptures)).length = 3 ∧
      Latest "ESM26" (.of 2026 5 22) (writes twoCaptures) (some recapturedSettle) := by
  have hUtc : ∀ call ∈ twoCaptures, ∀ s ∈ call.2, rootOf s.contract = call.1 ∧ UtcCapture s := by
    simp only [utcCapture_iff]
    decide +kernel
  obtain ⟨hKept, hLatest⟩ := archive_round_trip.2 twoCaptures hUtc
  refine ⟨archive_round_trip.1 _ fun s hs => ?_, hKept, by decide +kernel, ?_⟩
  · obtain ⟨call, hCall, hs⟩ := List.mem_flatMap.mp hs
    exact (hUtc call hCall s hs).2
  · obtain ⟨latest, hOk, hSpec, -⟩ := hLatest "ESM26" (.utcMidnight (.of 2026 5 22)) (by decide +kernel)
    have hFinal : latestSettle "ESM26" (.utcMidnight (.of 2026 5 22)) (writes twoCaptures) =
        .ok (some recapturedSettle) := by decide +kernel
    obtain rfl := Except.ok.inj (hOk.symm.trans hFinal)
    exact hSpec

/-! ## What a query can see -/

def CapturedBy (asOf : DateTime) (asOfIso : Option DateTime) : Prop :=
  ∀ i ∈ asOfIso.map DateTime.instant, i ≤ asOf.instant

/-- The archives differ at most in rows dated after the date. -/
def SameUpTo (asOfDate : Date) (archive archive' : Archive) : Prop :=
  ∀ p, (rowsAt archive p).filter (fun row => row.asOfDate ≤ asOfDate) =
    (rowsAt archive' p).filter (fun row => row.asOfDate ≤ asOfDate)

theorem yearDir_injOn {p q : ArchivePartition} (hRoot : p.contractRoot = q.contractRoot)
    (h : yearDir p = yearDir q) : p = q := by
  have hYear : p.year = q.year := yearText_injective h
  cases p
  cases q
  simp_all

theorem latestSettle_congr {contract : ContractSymbol} {asOf : DateTime} {archive archive' : Archive}
    (h : SameUpTo asOf.date archive archive') :
    latestSettle contract asOf archive = latestSettle contract asOf archive' := by
  have hEligible : ∀ rows : List SettleRow, rows.filter (eligible contract asOf.date) =
      (rows.filter fun row => row.asOfDate ≤ asOf.date).filter fun row =>
        row.contract = contract := by
    intro rows
    rw [List.filter_filter]
    rfl
  have hMatching : ∀ root : String,
      (readFiles (fun p => p.contractRoot = root ∧ p.year ≤ asOf.date.year) yearDir archive).filter
          (eligible contract asOf.date) =
        (readFiles (fun p => p.contractRoot = root ∧ p.year ≤ asOf.date.year) yearDir
          archive').filter (eligible contract asOf.date) := by
    intro root
    apply filter_readFiles_congr
    · intro p
      rw [hEligible, h p, ← hEligible]
    · intro p q hp hq
      exact yearDir_injOn ((of_decide_eq_true hp).1.trans (of_decide_eq_true hq).1.symm)
  unfold latestSettle
  simp only [hMatching]

/-- A query sees the rows dated on or before its date, whenever captured, and none that is dated
later; it returns the latest of them. -/
theorem latest_settle_by_date :
    (∀ archive : Archive, Placed archive →
      ∀ (contract : ContractSymbol) (asOf : DateTime) (s : DecimalSettle),
        latestSettle contract asOf archive = .ok (some s) →
        s.asOfDate ≤ asOf.date ∧ Latest contract asOf.date archive (some s) ∧
          ((∀ row ∈ allRows archive, Eligible contract asOf.date row →
            CapturedBy asOf row.asOfIso) → CapturedBy asOf s.asOfIso)) ∧
    ∀ (archive archive' : Archive) (contract : ContractSymbol) (asOf : DateTime),
      SameUpTo asOf.date archive archive' →
      latestSettle contract asOf archive = latestSettle contract asOf archive' := by
  constructor
  · intro archive hPlaced contract asOf s h
    have hLatest := latest_of_ok hPlaced h
    have hFound := hLatest
    obtain ⟨row, hRow, hEligible, hReplay, -⟩ := hFound
    obtain ⟨hDate, -, hInstant⟩ := replayRow_ok hReplay
    refine ⟨hDate ▸ hEligible.2, hLatest, ?_⟩
    intro hCaptured
    unfold CapturedBy
    rw [hInstant]
    exact hCaptured row hRow hEligible
  · intro archive archive' contract asOf h
    exact latestSettle_congr h

def nextSettle : DecimalSettle :=
  { sampleSettle "ESM26" 1 with asOfDate := .of 2026 5 26 }

/-- The settles of one day, preliminary and final, and one of a later day. -/
def twoDays : List (String × List DecimalSettle) :=
  [("ES", [sampleSettle "ESM26" 1, preliminarySettle]), ("ES", [nextSettle])]

theorem rowsAt_elsewhere {calls : List (String × List DecimalSettle)}
    (hCalls : ∀ call ∈ calls, ∀ s ∈ call.2, rootOf s.contract = call.1) {part p : ArchivePartition}
    (hPart : ∀ call ∈ calls, ∀ s ∈ call.2, (⟨rootOf s.contract, s.asOfDate.year⟩ : ArchivePartition) = part)
    (hOther : p ≠ part) : rowsAt (writes calls) p = [] := by
  have hCaptured := captured_writes calls hCalls
  refine List.eq_nil_iff_forall_not_mem.mpr fun row hRow => hOther ?_
  obtain ⟨s, hs, hEncoded⟩ := hCaptured.encoded p row hRow
  obtain ⟨call, hCall, hs⟩ := List.mem_flatMap.mp hs
  rw [hCaptured.placed p row hRow, hEncoded]
  exact hPart call hCall s hs

/-- The final settle is the latest of its day, whatever a later day brings. -/
theorem latest_settle_by_date_twoDays :
    (Latest "ESM26" (.of 2026 5 22) (writes [("ES", [sampleSettle "ESM26" 1, preliminarySettle])])
        (some (sampleSettle "ESM26" 1)) ∧
      CapturedBy (.utcMidnight (.of 2026 5 22)) (sampleSettle "ESM26" 1).asOfIso) ∧
      latestSettle "ESM26" (.utcMidnight (.of 2026 5 21)) (writes twoDays) =
        latestSettle "ESM26" (.utcMidnight (.of 2026 5 21))
          (writes [("ES", [sampleSettle "ESM26" 1, preliminarySettle])]) := by
  have hCalls : ∀ call ∈ [("ES", [sampleSettle "ESM26" 1, preliminarySettle])], ∀ s ∈ call.2,
      rootOf s.contract = call.1 := by
    decide +kernel
  constructor
  · obtain ⟨-, hLatest, hCaptured⟩ := latest_settle_by_date.1 _ (captured_writes _ hCalls).placed "ESM26"
      (.utcMidnight (.of 2026 5 22)) (sampleSettle "ESM26" 1) (by decide +kernel)
    refine ⟨hLatest, hCaptured fun row hRow _ => ?_⟩
    have hTimes : ∀ row ∈ allRows (writes [("ES", [sampleSettle "ESM26" 1, preliminarySettle])]),
        row.asOfIso = some (.utcMidnight (.of 2026 5 22)) := by
      decide +kernel
    rw [hTimes row hRow]
    rintro i ⟨rfl⟩
    rfl
  · apply latest_settle_by_date.2
    intro p
    by_cases hPart : p = ⟨"ES", 2026⟩
    · subst hPart
      decide +kernel
    · rw [rowsAt_elsewhere (by decide +kernel) (by decide +kernel) hPart,
        rowsAt_elsewhere hCalls (by decide +kernel) hPart]

/-- The final settle is returned at a time when only the preliminary one had been captured. -/
theorem final_seen_early :
    latestSettle "ESM26" (.utcMidnight (.of 2026 5 22))
        (writes [("ES", [preliminarySettle, recapturedSettle])]) = .ok (some recapturedSettle) ∧
      ¬CapturedBy (.utcMidnight (.of 2026 5 22)) recapturedSettle.asOfIso ∧
      latestSettle "ESM26" (.utcMidnight (.of 2026 5 22)) (writes [("ES", [preliminarySettle])]) =
        .ok (some preliminarySettle) := by
  refine ⟨by decide +kernel, ?_, by decide +kernel⟩
  intro h
  have hInstant := h _ rfl
  revert hInstant
  decide +kernel

end Futur3.Storage
