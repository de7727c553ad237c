import Futur3.Storage.StoreSpec

/-! # How the calls show in the files

Two levels of deduplication keep different rows: inside a batch the last one,
against the file the one that is there. And the sort keys of both stores leave
out part of what identifies a row, so that rows which tie keep the order in
which they came.
-/

namespace Futur3.Storage

open Data Prelude Selection Writer

/-! ## Records for concrete runs -/

def sampleSha : String := String.ofList (List.replicate 64 'a')

/-- A daily bar of May 21st 2026 that differs from the others only as said. -/
def sampleBar (contract : ContractSymbol) (volume : ℕ) : DecimalBar where
  contract := contract
  ts := .utcMidnight (.of 2026 5 21)
  resolution := .day1
  openPrice := ⟨false, 526025, -2⟩
  high := ⟨false, 526025, -2⟩
  low := ⟨false, 526025, -2⟩
  close := ⟨false, 526025, -2⟩
  volume := volume
  oi := none
  sourceId := "databento"
  asOfIso := .utcMidnight (.of 2026 5 22)
  contentBytesSha := sampleSha
  ts_aware := rfl
  as_of_aware := rfl
  low_le_high := le_rfl
  volume_nonneg := Int.natCast_nonneg volume
  oi_nonneg := no_open_interest
  sha_length := by decide +kernel

def sampleSettle (contract : ContractSymbol) (volume : ℕ) : DecimalSettle where
  contract := contract
  asOfDate := .of 2026 5 21
  settle := ⟨false, 526025, -2⟩
  settleState := .final
  openPrice := ⟨false, 526025, -2⟩
  high := ⟨false, 526025, -2⟩
  low := ⟨false, 526025, -2⟩
  last := ⟨false, 526025, -2⟩
  change := ⟨true, 5, -1⟩
  volumeEst := volume
  oiPrior := 0
  asOfIso := some (.utcMidnight (.of 2026 5 22))
  contentBytesSha := sampleSha
  as_of_aware := by simp [DateTime.isAware, DateTime.utcMidnight]
  low_le_high := le_rfl
  volume_nonneg := Int.natCast_nonneg volume
  oi_nonneg := Int.natCast_nonneg 0
  sha_length := fun _ => by decide +kernel

/-! ## Splitting a batch -/

/-- Writing two batches in one call or one after the other leaves the same rows exactly when
every key that is new and comes in both has the same last row in both. -/
theorem split_batches_iff (files : BarFiles) (xs ys : List DecimalBar) (settleFiles : SettleFiles)
    (ss ts : List DecimalSettle) :
    (barStore.Sound files → (∀ b ∈ xs ++ ys, barStore.Accepts b) →
      (SameRows ((writeBars (xs ++ ys)).after files)
          ((writeBars ys).after ((writeBars xs).after files)) ↔
        SplitsAlike barStore files xs ys)) ∧
    (settleStore.Sound settleFiles → (∀ s ∈ ss ++ ts, settleStore.Accepts s) →
      (SameRows ((writeSettles (ss ++ ts)).after settleFiles)
          ((writeSettles ts).after ((writeSettles ss).after settleFiles)) ↔
        SplitsAlike settleStore settleFiles ss ts)) := by
  constructor
  · intro hSound hAccepts
    exact sameRows_split_iff hSound hAccepts
  · intro hSound hAccepts
    exact sameRows_split_iff hSound hAccepts

theorem accepts_sampleBar {contract : ContractSymbol}
    (h : symbolSuffixLen < contract.toList.length) (volume : ℕ) :
    barStore.Accepts (sampleBar contract volume) := by
  have hUtc : (DateTime.utcMidnight (.of 2026 5 21)).toUtc?.isSome := by decide +kernel
  have hUtc' : (DateTime.utcMidnight (.of 2026 5 22)).toUtc?.isSome := by decide +kernel
  exact barStore_accepts_iff.mpr ⟨h, hUtc, hUtc'⟩

theorem accepts_sampleSettle {contract : ContractSymbol}
    (h : symbolSuffixLen < contract.toList.length) (volume : ℕ) :
    settleStore.Accepts (sampleSettle contract volume) := by
  apply settleStore_accepts_iff.mpr
  refine ⟨h, ?_⟩
  rintro t ⟨⟩
  decide +kernel

theorem split_batches_twice :
    SameRows ((writeBars ([sampleBar "ESM26" 1] ++ [sampleBar "ESM26" 1])).after .empty)
        ((writeBars [sampleBar "ESM26" 1]).after ((writeBars [sampleBar "ESM26" 1]).after .empty)) ∧
      SameRows ((writeSettles ([sampleSettle "ESM26" 1] ++ [sampleSettle "ESM26" 1])).after .empty)
        ((writeSettles [sampleSettle "ESM26" 1]).after
          ((writeSettles [sampleSettle "ESM26" 1]).after .empty)) := by
  constructor
  · apply ((split_batches_iff .empty [sampleBar "ESM26" 1] [sampleBar "ESM26" 1] .empty [] []).1
      Schema.sound_empty _).mpr
    · intro k _ _ _
      rfl
    · intro b hb
      have hSample : b = sampleBar "ESM26" 1 := by simpa using hb
      rw [hSample]
      exact accepts_sampleBar (by decide +kernel) 1
  · apply ((split_batches_iff .empty [] [] .empty [sampleSettle "ESM26" 1]
      [sampleSettle "ESM26" 1]).2 Schema.sound_empty _).mpr
    · intro k _ _ _
      rfl
    · intro s hs
      have hSample : s = sampleSettle "ESM26" 1 := by simpa using hs
      rw [hSample]
      exact accepts_sampleSettle (by decide +kernel) 1

/-- The same bar fetched again with another volume: one call keeps the second, two calls the first. -/
theorem split_batches_differ :
    ¬SameRows ((writeBars ([sampleBar "ESM26" 1] ++ [sampleBar "ESM26" 2])).after .empty)
        ((writeBars [sampleBar "ESM26" 2]).after ((writeBars [sampleBar "ESM26" 1]).after .empty)) ∧
      ¬SameRows ((writeSettles ([sampleSettle "ESM26" 1] ++ [sampleSettle "ESM26" 2])).after .empty)
        ((writeSettles [sampleSettle "ESM26" 2]).after
          ((writeSettles [sampleSettle "ESM26" 1]).after .empty)) := by
  constructor
  · intro h
    have hVolumes := (h ⟨"ES", "1d", 2026, 5⟩).map BarRow.volume
    have hWhole : (rowsAt ((writeBars ([sampleBar "ESM26" 1] ++ [sampleBar "ESM26" 2])).after .empty)
        ⟨"ES", "1d", 2026, 5⟩).map BarRow.volume = [2] := by decide +kernel
    have hSplit : (rowsAt ((writeBars [sampleBar "ESM26" 2]).after
        ((writeBars [sampleBar "ESM26" 1]).after .empty)) ⟨"ES", "1d", 2026, 5⟩).map
          BarRow.volume = [1] := by decide +kernel
    rw [hWhole, hSplit] at hVolumes
    simp at hVolumes
  · intro h
    have hVolumes := (h ⟨"ES", 2026⟩).map SettleRow.volumeEst
    have hWhole : (rowsAt ((writeSettles ([sampleSettle "ESM26" 1] ++
        [sampleSettle "ESM26" 2])).after .empty) ⟨"ES", 2026⟩).map SettleRow.volumeEst = [2] := by
      decide +kernel
    have hSplit : (rowsAt ((writeSettles [sampleSettle "ESM26" 2]).after
        ((writeSettles [sampleSettle "ESM26" 1]).after .empty)) ⟨"ES", 2026⟩).map
          SettleRow.volumeEst = [1] := by decide +kernel
    rw [hWhole, hSplit] at hVolumes
    simp at hVolumes

/-! ## The order of the rows -/

/-- However the bars are ordered and grouped into calls, the files and the reads are the same. -/
def ReproducibleBars (bars : List DecimalBar) : Prop :=
  ∀ calls calls' : List (List DecimalBar), calls.flatten.Perm bars → calls'.flatten.Perm bars →
    (∀ p, (transcript writeBars .empty calls).2.get? p =
      (transcript writeBars .empty calls').2.get? p) ∧
    ∀ query, readBars query (transcript writeBars .empty calls).2 =
      readBars query (transcript writeBars .empty calls').2

def ReproducibleSettles (settles : List DecimalSettle) : Prop :=
  ∀ calls calls' : List (List DecimalSettle), calls.flatten.Perm settles →
    calls'.flatten.Perm settles →
    (∀ p, (transcript writeSettles .empty calls).2.get? p =
      (transcript writeSettles .empty calls').2.get? p) ∧
    ∀ contract asOfDateStart asOfDateEnd,
      readSettles contract asOfDateStart asOfDateEnd (transcript writeSettles .empty calls).2 =
        readSettles contract asOfDateStart asOfDateEnd (transcript writeSettles .empty calls').2

theorem yearText_injective : Function.Injective fun year : ℕ => "year=" ++ toString year := by
  intro y y' h
  have hChars := congrArg String.toList h
  simp only [String.toList_append, Nat.toString_eq_repr, Nat.toList_repr] at hChars
  have hDigits := congrArg (Nat.ofDigitChars 10 · 0) (List.append_cancel_left hChars)
  simpa using hDigits

theorem barPath_injOn {p q : BarPartition} (hRoot : p.root = q.root)
    (hResolution : p.resolution = q.resolution) (h : barPath p = barPath q) : p = q := by
  have hPair := Prod.ext_iff.mp (toLex.injective h)
  have hYear : p.year = q.year := yearText_injective hPair.1
  have hMonth : p.month = q.month := by
    have hChars := congrArg String.toList hPair.2
    simp only [String.toList_append, twoDigits, String.toList_ofList] at hChars
    have hDigits := congrArg (Nat.ofDigitChars 10 · 0) (List.append_cancel_left hChars)
    simpa [ofDigitChars_zeroPadded] using hDigits
  cases p
  cases q
  simp_all

theorem settlePath_injOn {p q : SettlePartition} (hRoot : p.root = q.root)
    (h : settlePath p = settlePath q) : p = q := by
  have hYear : p.year = q.year := yearText_injective h
  cases p
  cases q
  simp_all

theorem readBars_congr {files files' : BarFiles} (hFiles : ∀ p, files.get? p = files'.get? p)
    (query : StoreQuery) : readBars query files = readBars query files' := by
  have hPaths : ∀ root resolution : String,
      readFiles (fun p => p.root = root ∧ p.resolution = resolution) barPath files =
        readFiles (fun p => p.root = root ∧ p.resolution = resolution) barPath files' := by
    intro root resolution
    apply readFiles_congr hFiles
    intro p q hp hq
    have hp := of_decide_eq_true hp
    have hq := of_decide_eq_true hq
    exact barPath_injOn (hp.1.trans hq.1.symm) (hp.2.trans hq.2.symm)
  unfold readBars
  simp only [hPaths, any_keys_congr _ hFiles]

theorem readSettles_congr {files files' : SettleFiles}
    (hFiles : ∀ p, files.get? p = files'.get? p) (contract : ContractSymbol)
    (asOfDateStart asOfDateEnd : Date) :
    readSettles contract asOfDateStart asOfDateEnd files =
      readSettles contract asOfDateStart asOfDateEnd files' := by
  have hPaths : ∀ root : String, readFiles (fun p => p.root = root) settlePath files =
      readFiles (fun p => p.root = root) settlePath files' := by
    intro root
    apply readFiles_congr hFiles
    intro p q hp hq
    exact settlePath_injOn ((of_decide_eq_true hp).trans (of_decide_eq_true hq).symm)
  unfold readSettles
  simp only [hPaths]

/-- Rows with distinct keys come out in one order exactly when no two rows of a partition
share the timestamp (or the date and the state) and the hash. -/
theorem reproducible_iff (bars : List DecimalBar) (settles : List DecimalSettle) :
    ((∀ b ∈ bars, barStore.Accepts b) → ((barStore.rows bars).map barKey).Nodup →
      (ReproducibleBars bars ↔ OrderTellsApart barStore bars)) ∧
    ((∀ s ∈ settles, settleStore.Accepts s) → ((settleStore.rows settles).map settleKey).Nodup →
      (ReproducibleSettles settles ↔ OrderTellsApart settleStore settles)) := by
  constructor
  · intro hAccepts hKeys
    rw [← canonical_iff hAccepts hKeys]
    constructor
    · exact fun h calls calls' hCalls hCalls' => (h calls calls' hCalls hCalls').1
    · intro h calls calls' hCalls hCalls'
      have hFiles := h calls calls' hCalls hCalls'
      exact ⟨hFiles, readBars_congr hFiles⟩
  · intro hAccepts hKeys
    rw [← canonical_iff hAccepts hKeys]
    constructor
    · exact fun h calls calls' hCalls hCalls' => (h calls calls' hCalls hCalls').1
    · intro h calls calls' hCalls hCalls'
      have hFiles := h calls calls' hCalls hCalls'
      exact ⟨hFiles, readSettles_congr hFiles⟩

theorem length_repeated (digit : Char) : (String.ofList (List.replicate 64 digit)).length = 64 := by
  rw [String.length_ofList, List.length_replicate]

theorem length_repeated_of_ne (digit : Char) (_ : String.ofList (List.replicate 64 digit) ≠ "") :
    (String.ofList (List.replicate 64 digit)).length = sha256HexLength :=
  length_repeated digit

/-- The sample bar as it comes from a response with another hash. -/
def hashedBar (contract : ContractSymbol) (digit : Char) : DecimalBar :=
  { sampleBar contract 1 with
    contentBytesSha := String.ofList (List.replicate 64 digit), sha_length := length_repeated digit }

def hashedSettle (contract : ContractSymbol) (digit : Char) : DecimalSettle :=
  { sampleSettle contract 1 with
    contentBytesSha := String.ofList (List.replicate 64 digit), sha_length := length_repeated_of_ne digit }

/-- Two contracts of one root captured with different contents are stored in one order, the one that comes
second first. -/
theorem reproducible_hashed :
    ReproducibleBars [hashedBar "ESM26" 'b', hashedBar "ESU26" 'a'] ∧
      ReproducibleSettles [hashedSettle "ESM26" 'b', hashedSettle "ESU26" 'a'] := by
  have hUtc : (DateTime.utcMidnight (.of 2026 5 21)).toUtc?.isSome := by decide +kernel
  have hUtc' : (DateTime.utcMidnight (.of 2026 5 22)).toUtc?.isSome := by decide +kernel
  have hLength : symbolSuffixLen < ("ESM26" : ContractSymbol).toList.length := by decide +kernel
  have hLength' : symbolSuffixLen < ("ESU26" : ContractSymbol).toList.length := by decide +kernel
  constructor
  · apply ((reproducible_iff [hashedBar "ESM26" 'b', hashedBar "ESU26" 'a'] []).1 ?_ (by decide +kernel)).mpr
    · unfold Writer.OrderTellsApart
      decide +kernel
    · simp only [List.forall_mem_cons, barStore_accepts_iff]
      exact ⟨⟨hLength, hUtc, hUtc'⟩, ⟨hLength', hUtc, hUtc'⟩, by simp⟩
  · apply ((reproducible_iff [] [hashedSettle "ESM26" 'b', hashedSettle "ESU26" 'a']).2 ?_ (by decide +kernel)).mpr
    · unfold Writer.OrderTellsApart
      decide +kernel
    · simp only [List.forall_mem_cons, settleStore_accepts_iff]
      refine ⟨⟨hLength, ?_⟩, ⟨hLength', ?_⟩, by simp⟩
      · rintro t ⟨⟩
        exact hUtc'
      · rintro t ⟨⟩
        exact hUtc'

/-- Two contracts of one root captured with the same content: their order is the order of arrival. -/
theorem order_of_arrival :
    ¬ReproducibleBars [sampleBar "ESM26" 1, sampleBar "ESU26" 1] ∧
      ¬ReproducibleSettles [sampleSettle "ESM26" 1, sampleSettle "ESU26" 1] := by
  constructor
  · intro h
    have hFiles := (h [[sampleBar "ESM26" 1, sampleBar "ESU26" 1]]
      [[sampleBar "ESU26" 1, sampleBar "ESM26" 1]] (by simp) (List.Perm.swap _ _ _)).1
      ⟨"ES", "1d", 2026, 5⟩
    revert hFiles
    decide +kernel
  · intro h
    have hFiles := (h [[sampleSettle "ESM26" 1, sampleSettle "ESU26" 1]]
      [[sampleSettle "ESU26" 1, sampleSettle "ESM26" 1]] (by simp) (List.Perm.swap _ _ _)).1
      ⟨"ES", 2026⟩
    revert hFiles
    decide +kernel

end Futur3.Storage
