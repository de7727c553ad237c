import Futur3.Storage.ParquetStore

/-! # The stores as keyed maps

After any calls each store holds one row for every key it was given, equal to
a record that was submitted under that key, and reads it back.
-/

namespace Futur3.Storage

open Data Prelude Selection

/-! ## After any calls -/

section Laws

variable {α ρ κ π τ : Type} [DecidableEq κ] [DecidableEq π] [LinearOrder τ]

/-- What a store holds after the calls of this log, of which some may have raised. -/
structure StoreLaws (W : Writer StorageFailure α ρ κ π τ) (decode : ρ → Except StorageFailure α)
    (Same : α → α → Prop) (log : List (List α × Except StorageFailure WriteCount))
    (files : Files π ρ) : Prop where
  /-- No key has two rows. -/
  one_row : ((allRows files).map W.key).Nodup
  /-- A row is the row of a submitted record and reads back as that record. -/
  submitted : ∀ row ∈ allRows files, ∃ call ∈ log, ∃ a ∈ call.1,
    W.encode a = .ok row ∧ ∃ a', decode row = .ok a' ∧ Same a' a
  /-- A call that returns has stored every key it was given. -/
  stored : ∀ call ∈ log, ∀ c, call.2 = .ok c → ∀ a ∈ call.1,
    ∃ row, W.encode a = .ok row ∧ W.key row ∈ (allRows files).map W.key
  /-- The counts returned add up to the records that were submitted. -/
  counted : ((log.filterMap fun call => call.2.toOption).map fun c => c.written + c.deduped).sum =
    ((log.filter fun call => call.2.toOption.isSome).map fun call => call.1.length).sum
  /-- Only a record that has no partition or no row makes a call raise. -/
  returned : ∀ call ∈ log, (∀ a ∈ call.1, W.Accepts a) → ∃ c, call.2 = .ok c

omit [DecidableEq κ] in
theorem storeLaws_of_filled {W : Writer StorageFailure α ρ κ π τ}
    {decode : ρ → Except StorageFailure α} (Same : α → α → Prop)
    (hDecode : ∀ {a row}, W.encode a = .ok row → ∃ a', decode row = .ok a' ∧ Same a' a)
    {log : List (List α × Except StorageFailure WriteCount)} {files : Files π ρ}
    (h : W.Filled log files) : StoreLaws W decode Same log files where
  one_row := h.sound.nodup_allRows
  submitted row hRow := by
    obtain ⟨call, hCall, hMem⟩ := h.submitted row hRow
    obtain ⟨a, ha, hEncode⟩ := Writer.mem_rows.mp hMem
    exact ⟨call, hCall, a, ha, hEncode, hDecode hEncode⟩
  stored call hCall c hc a ha := by
    obtain ⟨row, hRow⟩ := (h.accepted call hCall c hc a ha).2
    exact ⟨row, hRow, h.kept call hCall c hc row (Writer.mem_rows.mpr ⟨a, ha, hRow⟩)⟩
  counted := h.sum_counts
  returned := h.returned

/-- The stored rows that pass a test, decoded in the order of a read. -/
def ReadsWindow (order : ρ → τ) (decode : ρ → Except StorageFailure α) (files : Files π ρ)
    (window : ρ → Prop) (result : Except StorageFailure (List α)) : Prop :=
  ∃ (rows : List ρ) (records : List α), result = .ok records ∧ rows.map decode = records.map .ok ∧ rows.Nodup ∧
    (∀ row, row ∈ rows ↔ row ∈ allRows files ∧ window row) ∧
    rows.Pairwise fun a b => order a ≤ order b

variable {ℓ : Type} [LinearOrder ℓ]

omit [DecidableEq κ] in
theorem readsWindow_of_sound {W : Writer StorageFailure α ρ κ π τ}
    {decode : ρ → Except StorageFailure α} {files : Files π ρ} (hSound : W.Sound files)
    (hDecode : ∀ row ∈ allRows files, ∃ a, decode row = .ok a)
    (inDir : π → Bool) (path : π → ℓ) (test : ρ → Bool) {window : ρ → Prop}
    (hWindow : ∀ row, window row ↔ inDir (W.part (W.key row)) ∧ test row) :
    ReadsWindow W.order decode files window
      ((sortBy W.order ((readFiles inDir path files).filter test)).mapM decode) := by
  have hMem : ∀ row, row ∈ sortBy W.order ((readFiles inDir path files).filter test) ↔
      row ∈ allRows files ∧ window row := by
    intro row
    rw [mem_sortBy, List.mem_filter, mem_readFiles, mem_allRows, hWindow]
    constructor
    · rintro ⟨⟨p, hDir, hRow⟩, hTest⟩
      refine ⟨⟨p, hRow⟩, ?_, hTest⟩
      rwa [hSound.placed p row hRow]
    · rintro ⟨⟨p, hRow⟩, hDir, hTest⟩
      refine ⟨⟨p, ?_, hRow⟩, hTest⟩
      rwa [hSound.placed p row hRow] at hDir
  obtain ⟨records, hRecords⟩ :=
    except_mapM_returns fun row hRow => hDecode row ((hMem row).mp hRow).1
  refine ⟨_, records, hRecords, except_mapM_ok_iff.mp hRecords, ?_, hMem, pairwise_sortBy _ _⟩
  apply List.Nodup.of_map W.key
  rw [((sortBy_perm_self W.order _).map W.key).nodup_iff]
  exact (hSound.nodup_readFiles inDir path).sublist (List.filter_sublist.map W.key)

end Laws

/-! ## What a store accepts -/

theorem barStore_accepts_iff {b : DecimalBar} :
    barStore.Accepts b ↔ symbolSuffixLen < b.contract.toList.length ∧ b.ts.toUtc?.isSome ∧
      b.asOfIso.toUtc?.isSome := by
  simp only [Option.isSome_iff_exists]
  constructor
  · rintro ⟨⟨p, hPlace⟩, row, hRow⟩
    obtain ⟨ts, -, hPlace⟩ := except_bind_ok_iff.mp hPlace
    obtain ⟨root, hRoot, -⟩ := except_bind_ok_iff.mp hPlace
    obtain ⟨ts, hts, hRow⟩ := except_bind_ok_iff.mp hRow
    obtain ⟨asOfIso, hAsOf, -⟩ := except_bind_ok_iff.mp hRow
    rw [astimezoneUtc_ok_iff] at hts hAsOf
    exact ⟨(storeRoot_ok_iff.mp hRoot).1, ⟨ts, hts⟩, asOfIso, hAsOf⟩
  · rintro ⟨hLength, ⟨ts, hts⟩, asOfIso, hAsOf⟩
    rw [← astimezoneUtc_ok_iff] at hts hAsOf
    have hRoot : barRoot b.contract = .ok (rootOf b.contract) := storeRoot_ok_iff.mpr ⟨hLength, rfl⟩
    constructor
    · refine ⟨_, except_bind_ok_iff.mpr ⟨ts, hts, except_bind_ok_iff.mpr ⟨_, hRoot, rfl⟩⟩⟩
    · exact ⟨_, except_bind_ok_iff.mpr ⟨ts, hts, except_bind_ok_iff.mpr ⟨asOfIso, hAsOf, rfl⟩⟩⟩

theorem settleStore_accepts_iff {s : DecimalSettle} :
    settleStore.Accepts s ↔ symbolSuffixLen < s.contract.toList.length ∧
      ∀ t ∈ s.asOfIso, t.toUtc?.isSome := by
  constructor
  · rintro ⟨⟨p, hPlace⟩, row, hRow⟩
    obtain ⟨root, hRoot, -⟩ := except_bind_ok_iff.mp hPlace
    obtain ⟨asOfIso, -, hUtc⟩ := settleToRow_ok_iff.mp hRow
    refine ⟨(storeRoot_ok_iff.mp hRoot).1, ?_⟩
    intro t ht
    rw [ht] at hUtc
    cases hu : t.toUtc? with
    | none => simp [hu] at hUtc
    | some u => rfl
  · rintro ⟨hLength, hTimes⟩
    have hRoot : settleRoot s.contract = .ok (rootOf s.contract) :=
      storeRoot_ok_iff.mpr ⟨hLength, rfl⟩
    refine ⟨⟨_, except_bind_ok_iff.mpr ⟨_, hRoot, rfl⟩⟩, ?_⟩
    cases hAsOf : s.asOfIso with
    | none => exact ⟨settleRow s none, settleToRow_ok_iff.mpr ⟨none, rfl, by rw [hAsOf]; rfl⟩⟩
    | some t =>
      obtain ⟨u, hu⟩ := Option.isSome_iff_exists.mp (hTimes t hAsOf)
      exact ⟨settleRow s (some u), settleToRow_ok_iff.mpr ⟨some u, rfl, by simp [hAsOf, hu]⟩⟩

/-! ## Reads -/

def QueryWindow (query : StoreQuery) (resolution : BarResolution) (row : BarRow) : Prop :=
  row.contract = query.contract ∧ row.resolution = resolution.value ∧
    query.tsStart.instant ≤ row.ts.instant ∧
    if query.inclusiveEnd then row.ts.instant ≤ query.tsEnd.instant
    else row.ts.instant < query.tsEnd.instant

/-- A read whose contract has a root and whose times can be converted returns the rows of its window. -/
def BarReads (files : BarFiles) : Prop :=
  ∀ (query : StoreQuery) (resolution : BarResolution), query.resolution = some resolution →
    symbolSuffixLen < query.contract.toList.length → query.tsStart.toUtc?.isSome →
    query.tsEnd.toUtc?.isSome →
    ReadsWindow barOrder rowToBar files (QueryWindow query resolution) (readBars query files)

def SettleReads (files : SettleFiles) : Prop :=
  ∀ (contract : ContractSymbol) (asOfDateStart asOfDateEnd : Date), asOfDateStart ≤ asOfDateEnd →
    symbolSuffixLen < contract.toList.length →
    ReadsWindow settleOrder rowToSettle files
      (fun row => row.contract = contract ∧ asOfDateStart ≤ row.asOfDate ∧
        row.asOfDate ≤ asOfDateEnd)
      (readSettles contract asOfDateStart asOfDateEnd files)

theorem inBarWindow_iff {query : StoreQuery} {tsStart tsEnd : DateTime} {row : BarRow} :
    inBarWindow query tsStart tsEnd row ↔
      row.contract = query.contract ∧ tsStart.instant ≤ row.ts.instant ∧
        if query.inclusiveEnd then row.ts.instant ≤ tsEnd.instant
        else row.ts.instant < tsEnd.instant := by
  unfold inBarWindow
  cases query.inclusiveEnd <;> simp [and_assoc]

theorem inSettleWindow_iff {contract : ContractSymbol} {asOfDateStart asOfDateEnd : Date}
    {row : SettleRow} :
    inSettleWindow contract asOfDateStart asOfDateEnd row ↔
      row.contract = contract ∧ asOfDateStart ≤ row.asOfDate ∧ row.asOfDate ≤ asOfDateEnd := by
  simp [inSettleWindow, and_assoc]

theorem barReads_of_sound {files : BarFiles} (hSound : barStore.Sound files)
    (hDecode : ∀ row ∈ allRows files, ∃ b, rowToBar row = .ok b) : BarReads files := by
  intro query resolution hResolution hLength hStart hEnd
  obtain ⟨tsStart, hStart⟩ := Option.isSome_iff_exists.mp hStart
  obtain ⟨tsEnd, hEnd⟩ := Option.isSome_iff_exists.mp hEnd
  have hRoot : barRoot query.contract = .ok (rootOf query.contract) :=
    storeRoot_ok_iff.mpr ⟨hLength, rfl⟩
  have hInstant := DateTime.instant_toUtc? hStart
  have hInstant' := DateTime.instant_toUtc? hEnd
  rw [← astimezoneUtc_ok_iff] at hStart hEnd
  unfold readBars
  rw [hResolution]
  simp only [hRoot, hStart, hEnd]
  change ReadsWindow barOrder rowToBar files _ (if _ then _ else _)
  split
  · apply readsWindow_of_sound hSound hDecode
    intro row
    have hPart : barStore.part (barStore.key row) = barPartition (barKey row) := rfl
    rw [hPart, inBarWindow_iff, hInstant, hInstant', decide_eq_true_iff]
    constructor
    · rintro ⟨hContract, hSame, hFrom, hTo⟩
      exact ⟨⟨congrArg rootOf hContract, hSame⟩, hContract, hFrom, hTo⟩
    · rintro ⟨⟨-, hSame⟩, hContract, hFrom, hTo⟩
      exact ⟨hContract, hSame, hFrom, hTo⟩
  · rename_i hAny
    refine ⟨[], [], rfl, rfl, List.nodup_nil, ?_, List.Pairwise.nil⟩
    intro row
    constructor
    · intro hNil
      cases hNil
    · rintro ⟨hRow, hContract, hSame, -⟩
      obtain ⟨p, hp⟩ := mem_allRows.mp hRow
      have hPlaced : barPartition (barKey row) = p := hSound.placed p row hp
      apply absurd _ hAny
      rw [List.any_eq_true]
      refine ⟨p, ?_, ?_⟩
      · rw [Dict.mem_keys_iff]
        unfold rowsAt at hp
        cases hFile : files.get? p with
        | none => simp [hFile] at hp
        | some rows => exact ⟨rows, rfl⟩
      · rw [← hPlaced]
        simp [barPartition, barKey, hContract, hSame]

theorem settleReads_of_sound {files : SettleFiles} (hSound : settleStore.Sound files)
    (hDecode : ∀ row ∈ allRows files, ∃ s, rowToSettle row = .ok s) : SettleReads files := by
  intro contract asOfDateStart asOfDateEnd hDates hLength
  have hRoot : settleRoot contract = .ok (rootOf contract) := storeRoot_ok_iff.mpr ⟨hLength, rfl⟩
  unfold readSettles
  rw [if_neg (not_lt.mpr hDates), hRoot]
  apply readsWindow_of_sound hSound hDecode
  intro row
  have hPart : settleStore.part (settleStore.key row) = settlePartition (settleKey row) := rfl
  rw [hPart, inSettleWindow_iff, decide_eq_true_iff]
  constructor
  · intro hWindow
    exact ⟨congrArg rootOf hWindow.1, hWindow⟩
  · rintro ⟨-, hWindow⟩
    exact hWindow

/-- Both stores are keyed maps, whatever calls are made: one row for a key, equal to a
record submitted under it, nothing lost, everything counted, and reads by window. -/
theorem stores_are_keyed_maps :
    (∀ calls : List (List DecimalBar),
      StoreLaws barStore rowToBar SameBar (transcript writeBars .empty calls).1
          (transcript writeBars .empty calls).2 ∧
        BarReads (transcript writeBars .empty calls).2) ∧
    ∀ calls : List (List DecimalSettle),
      StoreLaws settleStore rowToSettle SameSettle (transcript writeSettles .empty calls).1
          (transcript writeSettles .empty calls).2 ∧
        SettleReads (transcript writeSettles .empty calls).2 := by
  constructor
  · intro calls
    have hFilled : barStore.Filled (transcript writeBars .empty calls).1
        (transcript writeBars .empty calls).2 := Writer.filled_transcript calls
    have hLaws := storeLaws_of_filled SameBar rowToBar_barToRow hFilled
    refine ⟨hLaws, barReads_of_sound hFilled.sound ?_⟩
    intro row hRow
    obtain ⟨-, -, -, -, -, b, hb, -⟩ := hLaws.submitted row hRow
    exact ⟨b, hb⟩
  · intro calls
    have hFilled : settleStore.Filled (transcript writeSettles .empty calls).1
        (transcript writeSettles .empty calls).2 := Writer.filled_transcript calls
    have hLaws := storeLaws_of_filled SameSettle rowToSettle_settleToRow hFilled
    refine ⟨hLaws, settleReads_of_sound hFilled.sound ?_⟩
    intro row hRow
    obtain ⟨-, -, -, -, -, s, hs, -⟩ := hLaws.submitted row hRow
    exact ⟨s, hs⟩

end Futur3.Storage
