import Futur3.Cv.Cpcv
import Futur3.Prelude.Tiling
import Mathlib.Data.List.Sort

/-! # What the folds hold

The blocks tile the series, so the test sets of the combinations are distinct
and hold each index equally often. A training index is one whose label reaches
no test index and that follows none within the embargo.
-/

namespace Futur3.Cv

open Prelude

/-- The label of an index, which spans `purge` observations, reaches a test index. -/
def LabelReaches (purge : ℕ) (testIdx : List ℕ) (i : ℕ) : Prop :=
  ∃ t ∈ testIdx, i < t ∧ t ≤ i + purge

/-- An index follows a test index within the embargo. -/
def Follows (embargo : ℕ) (testIdx : List ℕ) (i : ℕ) : Prop :=
  ∃ t ∈ testIdx, t < i ∧ i ≤ t + embargo

instance (purge : ℕ) (testIdx : List ℕ) (i : ℕ) : Decidable (LabelReaches purge testIdx i) :=
  inferInstanceAs (Decidable (∃ t ∈ testIdx, i < t ∧ t ≤ i + purge))

instance (embargo : ℕ) (testIdx : List ℕ) (i : ℕ) : Decidable (Follows embargo testIdx i) :=
  inferInstanceAs (Decidable (∃ t ∈ testIdx, t < i ∧ i ≤ t + embargo))

/-- A fold whose training indices are all those that do not leak. -/
structure Purged (nSamples purge embargo : ℕ) (fold : CPCVFold) : Prop where
  sorted : fold.testIdx.Pairwise (· < ·) ∧ fold.trainIdx.Pairwise (· < ·)
  inSeries : ∀ i ∈ fold.testIdx ++ fold.trainIdx, i < nSamples
  train : ∀ i < nSamples, i ∈ fold.trainIdx ↔
    i ∉ fold.testIdx ∧ ¬ LabelReaches purge fold.testIdx i ∧ ¬ Follows embargo fold.testIdx i
  purged : fold.nPurged = (List.range nSamples).countP fun i =>
    i ∉ fold.testIdx ∧ LabelReaches purge fold.testIdx i
  total : fold.testIdx.length + fold.trainIdx.length + fold.nPurged + fold.nEmbargoed = nSamples

structure Combinatorial (nSamples nBlocks kTest : ℕ) (folds : List CPCVFold) : Prop where
  length : folds.length = nBlocks.choose kTest
  distinct : (folds.map fun fold => fold.testIdx.toFinset).Nodup
  tested : ∀ i < nSamples, folds.countP (fun fold => i ∈ fold.testIdx) =
    (nBlocks - 1).choose (kTest - 1)

/-! ## Blocks -/

theorem countP_range_lt (r n : ℕ) : (List.range n).countP (fun b => b < r) = min r n := by
  induction n with
  | zero => simp
  | succ n ih =>
    rw [List.range_succ, List.countP_append, ih, List.countP_singleton]
    simp only [decide_eq_true_eq]
    split <;> omega

theorem length_blocksFrom (base remainder start : ℕ) (bs : List ℕ) :
    (blocksFrom base remainder start bs).length = bs.length := by
  induction bs generalizing start with
  | nil => rfl
  | cons b rest ih => simp [blocksFrom, ih]

theorem tiles_blocksFrom {base : ℕ} (hBase : 1 ≤ base) (remainder start : ℕ) (bs : List ℕ) :
    Tiles start (blocksFrom base remainder start bs)
      (start + (base * bs.length + bs.countP fun b => b < remainder)) := by
  induction bs generalizing start with
  | nil => rfl
  | cons b rest ih =>
    have hRest := ih (start + (base + if b < remainder then 1 else 0))
    have hStop : start + (base * (b :: rest).length + (b :: rest).countP fun b => b < remainder) =
        start + (base + if b < remainder then 1 else 0) +
          (base * rest.length + rest.countP fun b => b < remainder) := by
      rw [List.length_cons, List.countP_cons, Nat.mul_succ]
      simp only [decide_eq_true_eq]
      split <;> omega
    rw [hStop]
    refine ⟨rfl, ?_, hRest⟩
    dsimp only
    omega

theorem length_makeBlocks (nSamples nBlocks : ℕ) : (makeBlocks nSamples nBlocks).length = nBlocks := by
  rw [makeBlocks, length_blocksFrom, List.length_range]

theorem tiles_makeBlocks {nSamples nBlocks : ℕ} (hBlocks : 0 < nBlocks) (h : nBlocks ≤ nSamples) :
    Tiles 0 (makeBlocks nSamples nBlocks) nSamples := by
  have hTiles := tiles_blocksFrom (Nat.div_pos h hBlocks) (nSamples % nBlocks) 0 (List.range nBlocks)
  have hLess := Nat.mod_lt nSamples hBlocks
  rw [List.length_range, countP_range_lt, min_eq_left hLess.le, Nat.zero_add, Nat.mul_comm,
    Nat.div_add_mod] at hTiles
  exact hTiles

/-! ## The sets of a fold -/

theorem mem_unionOf {range : ℕ × ℕ → Finset ℕ} {testIntervals : List (ℕ × ℕ)} {i : ℕ} :
    i ∈ unionOf range testIntervals ↔ ∃ interval ∈ testIntervals, i ∈ range interval := by
  suffices h : ∀ acc : Finset ℕ, i ∈ testIntervals.foldl (fun acc interval => acc ∪ range interval) acc ↔
      i ∈ acc ∨ ∃ interval ∈ testIntervals, i ∈ range interval by
    rw [unionOf, h]
    simp
  induction testIntervals with
  | nil => simp
  | cons interval rest ih =>
    intro acc
    rw [List.foldl_cons, ih, Finset.mem_union, or_assoc]
    simp

theorem classify_spec (test purged embargoed : Finset ℕ) (indices : List ℕ) :
    classify test purged embargoed indices =
      (indices.filter fun i => i ∉ test ∧ i ∉ purged ∧ i ∉ embargoed,
        indices.countP fun i => i ∉ test ∧ i ∈ purged,
        indices.countP fun i => i ∉ test ∧ i ∉ purged ∧ i ∈ embargoed) := by
  induction indices with
  | nil => rfl
  | cons i rest ih =>
    rw [classify, ih, List.filter_cons, List.countP_cons, List.countP_cons]
    by_cases hTest : i ∈ test <;> by_cases hPurged : i ∈ purged <;>
      by_cases hEmbargoed : i ∈ embargoed <;> simp [hTest, hPurged, hEmbargoed]

/-- Every index is test, training, purged or embargoed. -/
theorem classify_total (test purged embargoed : Finset ℕ) (indices : List ℕ) :
    indices.countP (fun i => i ∈ test) + (classify test purged embargoed indices).1.length +
      (classify test purged embargoed indices).2.1 + (classify test purged embargoed indices).2.2 =
      indices.length := by
  induction indices with
  | nil => rfl
  | cons i rest ih =>
    rw [classify, List.countP_cons, List.length_cons, ← ih]
    obtain ⟨trainIdx, nPurged, nEmbargoed⟩ := classify test purged embargoed rest
    by_cases hTest : i ∈ test <;> by_cases hPurged : i ∈ purged <;>
      by_cases hEmbargoed : i ∈ embargoed <;> simp [hTest, hPurged, hEmbargoed] <;> omega

/-! ## Test sets of combinations -/

section Tiled

variable {nSamples : ℕ} {blocks : List (ℕ × ℕ)}

def InBlock (blocks : List (ℕ × ℕ)) (b i : ℕ) : Prop :=
  (blocks.getD b (0, 0)).1 ≤ i ∧ i < (blocks.getD b (0, 0)).2

def chosen (blocks : List (ℕ × ℕ)) (combo : List ℕ) : List (ℕ × ℕ) :=
  combo.map fun b => blocks.getD b (0, 0)

theorem exists_mem_chosen {combo : List ℕ} {p : ℕ × ℕ → Prop} :
    (∃ interval ∈ chosen blocks combo, p interval) ↔ ∃ b ∈ combo, p (blocks.getD b (0, 0)) := by
  simp [chosen]

def testOf (blocks : List (ℕ × ℕ)) (combo : List ℕ) : Finset ℕ := testSet (chosen blocks combo)

theorem mem_testOf {combo : List ℕ} {i : ℕ} : i ∈ testOf blocks combo ↔ ∃ b ∈ combo, InBlock blocks b i := by
  rw [testOf, testSet, mem_unionOf, exists_mem_chosen]
  simp only [Finset.mem_Ico, InBlock]

theorem block_bounds (hTiles : Tiles 0 blocks nSamples) {b : ℕ} (hb : b < blocks.length) :
    (blocks.getD b (0, 0)).1 < (blocks.getD b (0, 0)).2 ∧ (blocks.getD b (0, 0)).2 ≤ nSamples := by
  rw [List.getD_eq_getElem _ _ hb]
  exact (hTiles.mem (List.getElem_mem hb)).2

/-- An index is in the test set when its block was chosen. -/
theorem mem_testOf_iff (hTiles : Tiles 0 blocks nSamples) {combo : List ℕ}
    (hCombo : ∀ b ∈ combo, b < blocks.length) {b i : ℕ} (hb : b < blocks.length)
    (hi : InBlock blocks b i) : i ∈ testOf blocks combo ↔ b ∈ combo := by
  rw [mem_testOf]
  constructor
  · rintro ⟨b', hb', hi'⟩
    rw [hTiles.index_unique hb (hCombo b' hb') hi hi']
    exact hb'
  · exact fun hMem => ⟨b, hMem, hi⟩

/-- Choices with the same test set are the same. -/
theorem testOf_injOn (hTiles : Tiles 0 blocks nSamples) {combo combo' : List ℕ}
    (hCombo : List.Sublist combo (List.range blocks.length))
    (hCombo' : List.Sublist combo' (List.range blocks.length))
    (h : testOf blocks combo = testOf blocks combo') : combo = combo' := by
  have hBelow : ∀ {c : List ℕ}, List.Sublist c (List.range blocks.length) →
      ∀ b ∈ c, b < blocks.length := fun hc b hb => List.mem_range.mp (hc.subset hb)
  have hIn : ∀ b < blocks.length, b ∈ combo ↔ b ∈ combo' := by
    intro b hb
    have hStart : InBlock blocks b (blocks.getD b (0, 0)).1 :=
      ⟨le_rfl, (block_bounds hTiles hb).1⟩
    rw [← mem_testOf_iff hTiles (hBelow hCombo) hb hStart, h,
      mem_testOf_iff hTiles (hBelow hCombo') hb hStart]
  apply List.Pairwise.eq_of_mem_iff (List.pairwise_lt_range.sublist hCombo)
    (List.pairwise_lt_range.sublist hCombo')
  intro b
  constructor
  · exact fun hb => (hIn b (hBelow hCombo b hb)).mp hb
  · exact fun hb => (hIn b (hBelow hCombo' b hb)).mpr hb

theorem testOf_subset (hTiles : Tiles 0 blocks nSamples) {combo : List ℕ}
    (hCombo : ∀ b ∈ combo, b < blocks.length) {i : ℕ} (h : i ∈ testOf blocks combo) :
    i < nSamples := by
  obtain ⟨b, hb, hi⟩ := mem_testOf.mp h
  exact hi.2.trans_le (block_bounds hTiles (hCombo b hb)).2

/-- A label that reaches a chosen block starts in the purge zone of it, or in a test block. -/
theorem mem_purgeSet_iff (hTiles : Tiles 0 blocks nSamples) {combo : List ℕ}
    (hCombo : ∀ b ∈ combo, b < blocks.length) (purge : ℕ) {i : ℕ}
    (hTest : i ∉ testOf blocks combo) :
    i ∈ purgeSet purge (chosen blocks combo) ↔
      ∃ t ∈ testOf blocks combo, i < t ∧ t ≤ i + purge := by
  rw [purgeSet, mem_unionOf, exists_mem_chosen]
  simp only [Finset.mem_Ico]
  constructor
  · rintro ⟨b, hb, hFrom, hTo⟩
    refine ⟨(blocks.getD b (0, 0)).1, ?_, hTo, by omega⟩
    exact mem_testOf.mpr ⟨b, hb, le_rfl, (block_bounds hTiles (hCombo b hb)).1⟩
  · rintro ⟨t, hMem, hLess, hReach⟩
    obtain ⟨b, hb, hStart, hStop⟩ := mem_testOf.mp hMem
    -- the index lies before the block, as it lies before `t` and not in the block
    have hBefore : i < (blocks.getD b (0, 0)).1 := by
      by_contra hIn
      exact hTest (mem_testOf.mpr ⟨b, hb, not_lt.mp hIn, hLess.trans hStop⟩)
    exact ⟨b, hb, by omega, hBefore⟩

theorem mem_embargoSet_iff (hTiles : Tiles 0 blocks nSamples) {combo : List ℕ}
    (hCombo : ∀ b ∈ combo, b < blocks.length) (embargo : ℕ) {i : ℕ} (hi : i < nSamples)
    (hTest : i ∉ testOf blocks combo) :
    i ∈ embargoSet nSamples embargo (chosen blocks combo) ↔
      ∃ t ∈ testOf blocks combo, t < i ∧ i ≤ t + embargo := by
  rw [embargoSet, mem_unionOf, exists_mem_chosen]
  simp only [Finset.mem_Ico]
  constructor
  · rintro ⟨b, hb, hFrom, hTo⟩
    obtain ⟨hNonempty, -⟩ := block_bounds hTiles (hCombo b hb)
    refine ⟨(blocks.getD b (0, 0)).2 - 1, ?_, by omega, by omega⟩
    exact mem_testOf.mpr ⟨b, hb, by omega, by omega⟩
  · rintro ⟨t, hMem, hLess, hReach⟩
    obtain ⟨b, hb, hStart, hStop⟩ := mem_testOf.mp hMem
    have hAfter : (blocks.getD b (0, 0)).2 ≤ i := by
      by_contra hIn
      exact hTest (mem_testOf.mpr ⟨b, hb, hStart.trans hLess.le, not_le.mp hIn⟩)
    exact ⟨b, hb, hAfter, by omega⟩

theorem makeFold_eq (nSamples purge embargo : ℕ) (blocks : List (ℕ × ℕ)) (fold : ℕ)
    (combo : List ℕ) :
    makeFold nSamples purge embargo blocks fold combo =
      let counts := classify (testOf blocks combo) (purgeSet purge (chosen blocks combo))
        (embargoSet nSamples embargo (chosen blocks combo)) (List.range nSamples)
      { fold, testBlocks := combo, trainIdx := counts.1, testIdx := (testOf blocks combo).sort
        nPurged := counts.2.1, nEmbargoed := counts.2.2 } := rfl

theorem length_sort_testOf (hTiles : Tiles 0 blocks nSamples) {combo : List ℕ}
    (hCombo : ∀ b ∈ combo, b < blocks.length) :
    (testOf blocks combo).sort.length =
      (List.range nSamples).countP fun i => i ∈ testOf blocks combo := by
  rw [List.countP_eq_length_filter]
  refine ((List.perm_ext_iff_of_nodup (Finset.sort_nodup _ _)
    (List.nodup_range.filter _)).mpr fun i => ?_).length_eq
  rw [Finset.mem_sort, List.mem_filter, List.mem_range, decide_eq_true_eq]
  exact ⟨fun h => ⟨testOf_subset hTiles hCombo h, h⟩, fun h => h.2⟩

theorem makeFold_purged (hTiles : Tiles 0 blocks nSamples) {combo : List ℕ}
    (hCombo : ∀ b ∈ combo, b < blocks.length) (purge embargo fold : ℕ) :
    Purged nSamples purge embargo (makeFold nSamples purge embargo blocks fold combo) := by
  have hTotal := classify_total (testOf blocks combo) (purgeSet purge (chosen blocks combo))
    (embargoSet nSamples embargo (chosen blocks combo)) (List.range nSamples)
  rw [← length_sort_testOf hTiles hCombo, List.length_range] at hTotal
  rw [makeFold_eq]
  constructor
  · refine ⟨(Finset.sortedLT_sort _).pairwise, ?_⟩
    dsimp only
    rw [classify_spec]
    exact List.pairwise_lt_range.filter _
  · intro i hi
    rcases List.mem_append.mp hi with hi | hi
    · exact testOf_subset hTiles hCombo ((Finset.mem_sort _).mp hi)
    · dsimp only at hi
      rw [classify_spec] at hi
      exact List.mem_range.mp (List.mem_filter.mp hi).1
  · intro i hi
    simp only [classify_spec, List.mem_filter, List.mem_range, hi, true_and, decide_eq_true_eq,
      Finset.mem_sort, LabelReaches, Follows]
    refine and_congr_right fun hTest => ?_
    rw [mem_purgeSet_iff hTiles hCombo purge hTest,
      mem_embargoSet_iff hTiles hCombo embargo hi hTest]
  · simp only [classify_spec]
    refine List.countP_congr fun i _ => ?_
    simp only [decide_eq_true_eq, Finset.mem_sort, LabelReaches]
    exact and_congr_right fun hTest => mem_purgeSet_iff hTiles hCombo purge hTest
  · exact hTotal

end Tiled

/-! ## All folds -/

theorem map_mapIdx_of_forall {α β γ : Type} {f : ℕ → α → β} {g : β → γ} {h : α → γ}
    (hEq : ∀ n a, g (f n a) = h a) (xs : List α) : (xs.mapIdx f).map g = xs.map h := by
  rw [List.mapIdx_eq_zipIdx_map, List.map_map]
  conv_rhs => rw [← List.zipIdx_map_fst 0 xs, List.map_map]
  exact List.map_congr_left fun p _ => hEq p.2 p.1

theorem combo_lt {k n : ℕ} {combo : List ℕ} (h : combo ∈ combinations k (List.range n)) :
    ∀ b ∈ combo, b < n :=
  fun _ hb => List.mem_range.mp ((mem_combinations.mp h).1.subset hb)

theorem folds_combinatorial {nSamples nBlocks : ℕ} {blocks : List (ℕ × ℕ)}
    (hTiles : Tiles 0 blocks nSamples) (hLength : blocks.length = nBlocks) (kTest purge embargo : ℕ) :
    Combinatorial nSamples nBlocks (kTest + 1)
      ((combinations (kTest + 1) (List.range nBlocks)).mapIdx
        (makeFold nSamples purge embargo blocks)) := by
  subst hLength
  constructor
  · rw [List.length_mapIdx, length_combinations, List.length_range]
  · rw [map_mapIdx_of_forall (h := testOf blocks)]
    · refine (combinations_nodup List.nodup_range (kTest + 1)).map_on fun combo hCombo combo' hCombo' => ?_
      exact testOf_injOn hTiles (mem_combinations.mp hCombo).1 (mem_combinations.mp hCombo').1
    · intro fold combo
      rw [makeFold_eq]
      exact Finset.sort_toFinset _ _
  · intro i hi
    obtain ⟨b, hb, hBlock⟩ := hTiles.exists_index (Nat.zero_le i) hi
    have hTests : ((combinations (kTest + 1) (List.range blocks.length)).mapIdx
        (makeFold nSamples purge embargo blocks)).countP (fun fold => i ∈ fold.testIdx) =
        (combinations (kTest + 1) (List.range blocks.length)).countP
          fun combo => i ∈ testOf blocks combo := by
      have hMap := map_mapIdx_of_forall (f := makeFold nSamples purge embargo blocks)
        (g := fun fold => decide (i ∈ fold.testIdx)) (h := fun combo => decide (i ∈ testOf blocks combo))
        (fun fold combo => by rw [makeFold_eq]; simp only [Finset.mem_sort])
        (combinations (kTest + 1) (List.range blocks.length))
      have hCounts := congrArg (List.countP id) hMap
      rwa [List.countP_map, List.countP_map] at hCounts
    rw [hTests]
    have hChosen : (combinations (kTest + 1) (List.range blocks.length)).countP
        (fun combo => i ∈ testOf blocks combo) =
        (combinations (kTest + 1) (List.range blocks.length)).countP fun combo => b ∈ combo := by
      refine List.countP_congr fun combo hCombo => ?_
      rw [decide_eq_true_eq, decide_eq_true_eq]
      exact mem_testOf_iff hTiles (combo_lt hCombo) hb hBlock
    rw [hChosen, countP_combinations List.nodup_range (List.mem_range.mpr hb), List.length_range,
      Nat.add_sub_cancel]

theorem cpcvSplits_ok {nSamples nBlocks kTest purge embargo : ℤ} {folds : List CPCVFold}
    (h : cpcvSplits nSamples nBlocks kTest purge embargo = .ok folds) :
    2 ≤ nBlocks ∧ 1 ≤ kTest ∧ nBlocks ≤ nSamples ∧
      (combinations kTest.toNat (List.range nBlocks.toNat)).mapIdx
        (makeFold nSamples.toNat purge.toNat embargo.toNat
          (makeBlocks nSamples.toNat nBlocks.toNat)) = folds := by
  unfold cpcvSplits at h
  simp only [except_guard_ok_iff, except_pure_ok_iff, not_not, not_lt] at h
  obtain ⟨hBlocks, ⟨hTest, -⟩, -, -, hSamples, hFolds⟩ := h
  exact ⟨hBlocks, hTest, hSamples, hFolds⟩

/-- Accepted splits are all combinations, and each trains on what does not leak. -/
theorem cpcvSplits_purged {nSamples nBlocks kTest purge embargo : ℤ} {folds : List CPCVFold}
    (h : cpcvSplits nSamples nBlocks kTest purge embargo = .ok folds) :
    Combinatorial nSamples.toNat nBlocks.toNat kTest.toNat folds ∧
      ∀ fold ∈ folds, Purged nSamples.toNat purge.toNat embargo.toNat fold := by
  obtain ⟨hBlocks, hTest, hSamples, rfl⟩ := cpcvSplits_ok h
  have hTiles : Tiles 0 (makeBlocks nSamples.toNat nBlocks.toNat) nSamples.toNat :=
    tiles_makeBlocks (by omega) (by omega)
  have hLength := length_makeBlocks nSamples.toNat nBlocks.toNat
  constructor
  · obtain ⟨k, hk⟩ := Nat.exists_eq_add_of_le' (show 1 ≤ kTest.toNat by omega)
    rw [hk]
    exact folds_combinatorial hTiles hLength k _ _
  · intro fold hFold
    obtain ⟨n, hn, rfl⟩ := List.mem_mapIdx.mp hFold
    refine makeFold_purged hTiles ?_ _ _ n
    rw [hLength]
    exact combo_lt (List.getElem_mem hn)

/-- Seven observations in three blocks, two of them tested. -/
theorem cpcvSplits_purged_seven : ∃ folds, cpcvSplits 7 3 2 1 1 = .ok folds ∧
    Combinatorial 7 3 2 folds ∧ ∀ fold ∈ folds, Purged 7 1 1 fold := by
  obtain ⟨folds, hFolds, -⟩ := except_exists_ok
    (show (cpcvSplits 7 3 2 1 1).toOption.any (fun _ => true) = true by rfl)
  exact ⟨folds, hFolds, cpcvSplits_purged hFolds⟩

end Futur3.Cv
