import Futur3.Storage.WriteOrder

/-! # The archive of captured settles

The capturing source appends to one file for each root and year and keeps the
last row of a key, the first write of a year as it comes. The settle store,
given the same settles, keeps the row it has.
-/

namespace Futur3.Storage

open Data Prelude Selection Writer

structure ArchivePartition where
  contractRoot : String
  year : ℕ
deriving DecidableEq

abbrev Archive := Files ArchivePartition SettleRow

/-- `_settles_to_dataframe`: a capture time is stored as it is. -/
def settlesToDataframe (settles : List DecimalSettle) : List SettleRow :=
  settles.map fun s => settleRow s s.asOfIso

/-- One year's part of `_write_archive`. -/
def writeYear (contractRoot : String) (year : ℕ) (yearSettles : List DecimalSettle)
    (archive : Archive) : Archive :=
  let newDf := settlesToDataframe yearSettles
  match archive.get? ⟨contractRoot, year⟩ with
  | some existing => archive.set ⟨contractRoot, year⟩ (keepLast settleKey (existing ++ newDf))
  | none => archive.set ⟨contractRoot, year⟩ newDf

def writeArchive (contractRoot : String) (settles : List DecimalSettle) (archive : Archive) : Archive :=
  (groupBy (fun s => s.asOfDate.year) settles).items.foldl
    (fun archive group => writeYear contractRoot group.1 group.2 archive) archive

/-! ## What a write does to each file -/

def yearRows (year : ℕ) (settles : List DecimalSettle) : List SettleRow :=
  settlesToDataframe (settles.filter fun s => s.asOfDate.year = year)

def appended (file : Option (List SettleRow)) (rows : List SettleRow) : List SettleRow :=
  match file with
  | some existing => keepLast settleKey (existing ++ rows)
  | none => rows

theorem writeYear_eq (contractRoot : String) (year : ℕ) (yearSettles : List DecimalSettle)
    (archive : Archive) :
    writeYear contractRoot year yearSettles archive = archive.set ⟨contractRoot, year⟩
      (appended (archive.get? ⟨contractRoot, year⟩) (settlesToDataframe yearSettles)) := by
  unfold writeYear appended
  cases archive.get? ⟨contractRoot, year⟩ <;> rfl

/-- A call touches the files of its root for the years of its settles, each once. -/
theorem get?_writeArchive (contractRoot : String) (settles : List DecimalSettle) (archive : Archive)
    (p : ArchivePartition) :
    (writeArchive contractRoot settles archive).get? p =
      if p.contractRoot = contractRoot ∧ p.year ∈ settles.map (fun s => s.asOfDate.year) then
        some (appended (archive.get? p) (yearRows p.year settles))
      else archive.get? p := by
  have hFold : ∀ (groups : List (ℕ × List DecimalSettle)) (archive : Archive),
      (groups.map Prod.fst).Nodup →
      (∀ g ∈ groups, g.2 = settles.filter fun s => s.asOfDate.year = g.1) →
      (groups.foldl (fun archive g => writeYear contractRoot g.1 g.2 archive) archive).get? p =
        if p.contractRoot = contractRoot ∧ p.year ∈ groups.map Prod.fst then
          some (appended (archive.get? p) (yearRows p.year settles))
        else archive.get? p := by
    intro groups
    induction groups with
    | nil => simp
    | cons g rest ih =>
      intro archive hNodup hGroups
      obtain ⟨hg, hRest⟩ := List.nodup_cons.mp hNodup
      rw [List.foldl_cons, ih _ hRest fun g' hg' => hGroups g' (List.mem_cons_of_mem g hg'),
        writeYear_eq, Dict.get?_set]
      by_cases hp : p = ⟨contractRoot, g.1⟩
      · subst hp
        rw [if_neg fun h => hg h.2, if_pos rfl, if_pos ⟨rfl, List.mem_cons_self⟩, yearRows,
          ← hGroups g List.mem_cons_self]
      · rw [if_neg hp]
        have hIff : (p.contractRoot = contractRoot ∧ p.year ∈ (g :: rest).map Prod.fst) ↔
            (p.contractRoot = contractRoot ∧ p.year ∈ rest.map Prod.fst) := by
          apply and_congr_right
          intro hRoot
          rw [List.map_cons, List.mem_cons]
          apply or_iff_right
          intro hYear
          apply hp
          cases p
          simp_all
        simp only [hIff]
  unfold writeArchive
  rw [hFold _ archive (groupBy _ settles).nodup_keys fun g hg => (mem_groupBy hg).1]
  have hKeys : p.year ∈ (groupBy (fun s : DecimalSettle => s.asOfDate.year) settles).items.map
      Prod.fst ↔ p.year ∈ settles.map fun s => s.asOfDate.year := mem_keys_groupBy
  simp only [hKeys]

theorem mem_appended {file : Option (List SettleRow)} {rows : List SettleRow} {row : SettleRow}
    (h : row ∈ appended file rows) : row ∈ file.getD [] ∨ row ∈ rows := by
  cases file with
  | none => exact Or.inr h
  | some existing => exact List.mem_append.mp ((keepLast_sublist _).subset h)

theorem mem_writeArchive {contractRoot : String} {settles : List DecimalSettle} {archive : Archive}
    {p : ArchivePartition} {row : SettleRow}
    (h : row ∈ rowsAt (writeArchive contractRoot settles archive) p) :
    row ∈ rowsAt archive p ∨ p.contractRoot = contractRoot ∧ row ∈ yearRows p.year settles := by
  unfold rowsAt at h
  rw [get?_writeArchive] at h
  split_ifs at h with hTouched
  · rcases mem_appended h with h | h
    · exact Or.inl h
    · exact Or.inr ⟨hTouched.1, h⟩
  · exact Or.inl h

/-! ## Writing what is archived already -/

def keyOf (s : DecimalSettle) : SettleKey :=
  ⟨s.contract, s.asOfDate, settleStateText s.settleState, s.contentBytesSha⟩

def Unchanged (archive archive' : Archive) : Prop :=
  SameRows archive' archive ∧ ∀ p, ((rowsAt archive' p).map settleKey).Nodup

def KeysArchived (contractRoot : String) (settles : List DecimalSettle) (archive : Archive) : Prop :=
  ∀ s ∈ settles, keyOf s ∈ (rowsAt archive ⟨contractRoot, s.asOfDate.year⟩).map settleKey

/-- No key is archived twice, and what is submitted last for a key is the row that is archived. -/
def Reconfirms (contractRoot : String) (settles : List DecimalSettle) (archive : Archive) : Prop :=
  (∀ p, ((rowsAt archive p).map settleKey).Nodup) ∧
  ∀ s ∈ settles, lastOf settleKey (keyOf s) (settlesToDataframe settles) =
    lastOf settleKey (keyOf s) (rowsAt archive ⟨contractRoot, s.asOfDate.year⟩)

def yearSchema : Schema SettleRow SettleKey ℕ (Date ×ₗ ℕ ×ₗ String) :=
  ⟨settleKey, fun k => k.asOfDate.year, settleOrder⟩

theorem yearRows_eq (year : ℕ) (settles : List DecimalSettle) :
    yearRows year settles = yearSchema.ofPart year (settlesToDataframe settles) := by
  unfold yearRows settlesToDataframe Schema.ofPart
  rw [List.filter_map]
  rfl

theorem lastOf_yearRows {k : SettleKey} {year : ℕ} (h : k.asOfDate.year = year)
    (settles : List DecimalSettle) :
    lastOf settleKey k (yearRows year settles) = lastOf settleKey k (settlesToDataframe settles) := by
  rw [yearRows_eq]
  exact (yearSchema.lastOf_ofPart (settlesToDataframe settles) year k).trans (if_pos h)

theorem keyOf_mem_dataframe {s : DecimalSettle} {settles : List DecimalSettle} (h : s ∈ settles) :
    keyOf s ∈ (settlesToDataframe settles).map settleKey :=
  List.mem_map.mpr ⟨settleRow s s.asOfIso, List.mem_map_of_mem h, rfl⟩

/-- A file that a call touches, when the call's keys are archived. -/
theorem exists_file {contractRoot : String} {settles : List DecimalSettle} {archive : Archive}
    (hKnown : KeysArchived contractRoot settles archive) {p : ArchivePartition}
    (hTouched : p.contractRoot = contractRoot ∧ p.year ∈ settles.map fun s => s.asOfDate.year) :
    archive.get? p = some (rowsAt archive p) ∧
      rowsAt (writeArchive contractRoot settles archive) p =
        keepLast settleKey (rowsAt archive p ++ yearRows p.year settles) := by
  obtain ⟨hRoot, hYear⟩ := hTouched
  obtain ⟨s, hs, hYear'⟩ := List.mem_map.mp hYear
  have hMem := hKnown s hs
  have hPart : (⟨contractRoot, s.asOfDate.year⟩ : ArchivePartition) = p := by
    rw [hYear', ← hRoot]
  rw [hPart] at hMem
  have hFile : archive.get? p = some (rowsAt archive p) := by
    unfold rowsAt at hMem ⊢
    cases hGet : archive.get? p with
    | none => simp [hGet] at hMem
    | some rows => rfl
  refine ⟨hFile, ?_⟩
  rw [rowsAt, get?_writeArchive, if_pos ⟨hRoot, hYear⟩, hFile]
  rfl

theorem unchanged_of_reconfirms {contractRoot : String} {settles : List DecimalSettle}
    {archive : Archive} (hKnown : KeysArchived contractRoot settles archive)
    (h : Reconfirms contractRoot settles archive) :
    Unchanged archive (writeArchive contractRoot settles archive) := by
  have hFile : ∀ p, (rowsAt (writeArchive contractRoot settles archive) p).Perm (rowsAt archive p) := by
    intro p
    by_cases hTouched : p.contractRoot = contractRoot ∧
        p.year ∈ settles.map fun s => s.asOfDate.year
    · rw [(exists_file hKnown hTouched).2]
      apply perm_of_lastOf (nodup_keepLast _) (h.1 p)
      intro k
      rw [lastOf_keepLast, lastOf_append]
      by_cases hk : k ∈ (yearRows p.year settles).map settleKey
      · obtain ⟨row, hRow, rfl⟩ := List.mem_map.mp hk
        obtain ⟨s, hs, rfl⟩ := List.mem_map.mp hRow
        obtain ⟨hs, hYear⟩ := List.mem_filter.mp hs
        have hYear : s.asOfDate.year = p.year := of_decide_eq_true hYear
        have hSame := h.2 s hs
        have hPart : (⟨contractRoot, s.asOfDate.year⟩ : ArchivePartition) = p := by
          rw [hYear, ← hTouched.1]
        rw [hPart, ← lastOf_yearRows hYear] at hSame
        change (lastOf settleKey (keyOf s) _).or (lastOf settleKey (keyOf s) _) =
          lastOf settleKey (keyOf s) _
        rw [hSame, Option.or_self]
      · rw [lastOf_eq_none_iff.mpr hk, Option.none_or]
    · rw [rowsAt, get?_writeArchive, if_neg hTouched]
      exact List.Perm.refl _
  exact ⟨hFile, fun p => ((hFile p).map settleKey).nodup_iff.mpr (h.1 p)⟩

theorem reconfirms_of_unchanged {contractRoot : String} {settles : List DecimalSettle}
    {archive : Archive} (hKnown : KeysArchived contractRoot settles archive)
    (h : Unchanged archive (writeArchive contractRoot settles archive)) :
    Reconfirms contractRoot settles archive := by
  obtain ⟨hSame, hNodup⟩ := h
  refine ⟨fun p => ((hSame p).map settleKey).nodup_iff.mp (hNodup p), ?_⟩
  intro s hs
  have hTouched : contractRoot = contractRoot ∧
      s.asOfDate.year ∈ settles.map fun s => s.asOfDate.year := ⟨rfl, List.mem_map_of_mem hs⟩
  have hYear : (keyOf s).asOfDate.year = s.asOfDate.year := rfl
  rw [← lastOf_perm (hSame ⟨contractRoot, s.asOfDate.year⟩) (hNodup _) (keyOf s),
    (exists_file (p := ⟨contractRoot, s.asOfDate.year⟩) hKnown hTouched).2, lastOf_keepLast,
    lastOf_append, lastOf_yearRows hYear]
  obtain ⟨row, hRow⟩ := exists_lastOf (keyOf_mem_dataframe hs)
  rw [hRow, Option.some_or]

/-- Settles whose keys are archived leave the archive as it is exactly when they confirm the
archived rows; the settle store keeps its rows whatever is captured again. -/
theorem archive_unchanged_iff (contractRoot : String) (settles : List DecimalSettle)
    (archive : Archive) (files : SettleFiles) :
    (KeysArchived contractRoot settles archive →
      (Unchanged archive (writeArchive contractRoot settles archive) ↔
        Reconfirms contractRoot settles archive)) ∧
    (settleStore.Sound files → (∀ s ∈ settles, settleStore.Accepts s) →
      (∀ s ∈ settles, keyOf s ∈ (allRows files).map settleKey) →
      ∀ p, rowsAt ((writeSettles settles).after files) p = rowsAt files p) := by
  constructor
  · intro hKnown
    exact ⟨reconfirms_of_unchanged hKnown, unchanged_of_reconfirms hKnown⟩
  · intro hSound hAccepts hKnown p
    apply (Writer.wrote_after hSound hAccepts).unchanged hSound
    intro row hRow
    obtain ⟨s, hs, hEncode⟩ := Writer.mem_rows.mp hRow
    obtain ⟨asOfIso, rfl, -⟩ := settleToRow_ok_iff.mp hEncode
    exact hKnown s hs

theorem archive_unchanged_repeated :
    Unchanged (writeArchive "ES" [sampleSettle "ESM26" 1] .empty)
        (writeArchive "ES" [sampleSettle "ESM26" 1]
          (writeArchive "ES" [sampleSettle "ESM26" 1] .empty)) ∧
      ∀ p, rowsAt ((writeSettles [sampleSettle "ESM26" 1]).after
          ((writeSettles [sampleSettle "ESM26" 1]).after .empty)) p =
        rowsAt ((writeSettles [sampleSettle "ESM26" 1]).after .empty) p := by
  have hAccepts : ∀ s ∈ [sampleSettle "ESM26" 1], settleStore.Accepts s := by
    intro s hs
    rw [List.mem_singleton.mp hs]
    exact accepts_sampleSettle (by decide +kernel) 1
  constructor
  · have hArchived : rowsAt (writeArchive "ES" [sampleSettle "ESM26" 1] .empty) ⟨"ES", 2026⟩ =
        settlesToDataframe [sampleSettle "ESM26" 1] := by decide +kernel
    apply ((archive_unchanged_iff "ES" [sampleSettle "ESM26" 1] _ .empty).1 _).mpr
    · constructor
      · intro p
        rw [rowsAt, get?_writeArchive]
        split_ifs
        · have hSub := (List.filter_sublist (p := fun s => decide (s.asOfDate.year = p.year))
            (l := [sampleSettle "ESM26" 1])).map keyOf
          have hNodup := hSub.nodup (List.nodup_singleton _)
          change ((yearRows p.year [sampleSettle "ESM26" 1]).map settleKey).Nodup
          rwa [yearRows, settlesToDataframe, List.map_map]
        · exact List.nodup_nil
      · intro s hs
        obtain rfl := List.mem_singleton.mp hs
        exact congrArg (lastOf settleKey _) hArchived.symm
    · intro s hs
      obtain rfl := List.mem_singleton.mp hs
      have hMem := keyOf_mem_dataframe (List.mem_singleton_self (sampleSettle "ESM26" 1))
      rw [← hArchived] at hMem
      exact hMem
  · apply (archive_unchanged_iff "ES" [sampleSettle "ESM26" 1] .empty _).2
      (Writer.wrote_after Schema.sound_empty hAccepts).sound hAccepts
    decide +kernel

def recapturedSettle : DecimalSettle :=
  { sampleSettle "ESM26" 1 with
    asOfIso := some (.utcMidnight (.of 2026 5 23))
    as_of_aware := by simp [DateTime.isAware, DateTime.utcMidnight] }

/-- The archive takes the later capture time of a settle whose key it has. -/
theorem recapture_replaces :
    KeysArchived "ES" [recapturedSettle] (writeArchive "ES" [sampleSettle "ESM26" 1] .empty) ∧
      ¬Unchanged (writeArchive "ES" [sampleSettle "ESM26" 1] .empty)
        (writeArchive "ES" [recapturedSettle]
          (writeArchive "ES" [sampleSettle "ESM26" 1] .empty)) := by
  constructor
  · intro s hs
    obtain rfl := List.mem_singleton.mp hs
    decide +kernel
  · intro h
    have hTimes := (h.1 ⟨"ES", 2026⟩).map SettleRow.asOfIso
    have hBefore : (rowsAt (writeArchive "ES" [sampleSettle "ESM26" 1] .empty)
        ⟨"ES", 2026⟩).map SettleRow.asOfIso = [some (.utcMidnight (.of 2026 5 22))] := by
      decide +kernel
    have hAfter : (rowsAt (writeArchive "ES" [recapturedSettle]
        (writeArchive "ES" [sampleSettle "ESM26" 1] .empty)) ⟨"ES", 2026⟩).map SettleRow.asOfIso =
          [some (.utcMidnight (.of 2026 5 23))] := by decide +kernel
    rw [hBefore, hAfter] at hTimes
    have hDates := List.perm_singleton.mp hTimes
    revert hDates
    decide +kernel

end Futur3.Storage
