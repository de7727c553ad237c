import Futur3.Prelude.Combinations
import Futur3.Prelude.Method
import Mathlib.Data.Finset.Sort
import Mathlib.Order.Interval.Finset.Nat

/-! # Combinatorial purged cross-validation

The time axis is split into blocks; each choice of `k_test` of them is the test
set of one fold. Training candidates whose label reaches into a test block are
purged, those right after one embargoed.
-/

namespace Futur3.Cv

open Prelude

inductive CPCVError where
  -- "n_blocks must be >= 2; got {n_blocks}"
  | nBlocks (nBlocks : ℤ)
  -- "k_test must be in [1, n_blocks-1] = [1, {n_blocks - 1}]; got {k_test}"
  | kTest (nBlocks kTest : ℤ)
  -- "purge must be >= 0; got {purge}"
  | purge (purge : ℤ)
  -- "embargo must be >= 0; got {embargo}"
  | embargo (embargo : ℤ)
  -- "n_samples ({n_samples}) must be >= n_blocks ({n_blocks})"
  | nSamples (nSamples nBlocks : ℤ)
deriving DecidableEq

/-- One purged train/test split, as index lists into the series. -/
structure CPCVFold where
  fold : ℕ
  testBlocks : List ℕ
  trainIdx : List ℕ
  testIdx : List ℕ
  nPurged : ℕ
  nEmbargoed : ℕ
deriving DecidableEq

/-- The first `remainder` blocks get one extra observation. -/
def blocksFrom (base remainder : ℕ) : ℕ → List ℕ → List (ℕ × ℕ)
  | _, [] => []
  | start, b :: rest =>
    let size := base + if b < remainder then 1 else 0
    (start, start + size) :: blocksFrom base remainder (start + size) rest

def makeBlocks (nSamples nBlocks : ℕ) : List (ℕ × ℕ) :=
  blocksFrom (nSamples / nBlocks) (nSamples % nBlocks) 0 (List.range nBlocks)

/-- The union of a range for each test interval. -/
def unionOf (range : ℕ × ℕ → Finset ℕ) (testIntervals : List (ℕ × ℕ)) : Finset ℕ :=
  testIntervals.foldl (fun acc interval => acc ∪ range interval) ∅

def testSet (testIntervals : List (ℕ × ℕ)) : Finset ℕ :=
  unionOf (fun interval => Finset.Ico interval.1 interval.2) testIntervals

/-- Backward of the start of each test block. -/
def purgeSet (purge : ℕ) (testIntervals : List (ℕ × ℕ)) : Finset ℕ :=
  unionOf (fun interval => Finset.Ico (interval.1 - purge) interval.1) testIntervals

/-- Forward of the end of each test block. -/
def embargoSet (nSamples embargo : ℕ) (testIntervals : List (ℕ × ℕ)) : Finset ℕ :=
  unionOf (fun interval => Finset.Ico interval.2 (min nSamples (interval.2 + embargo))) testIntervals

/-- Training indices, number purged and number embargoed; purge takes precedence over embargo. -/
def classify (test purged embargoed : Finset ℕ) : List ℕ → List ℕ × ℕ × ℕ
  | [] => ([], 0, 0)
  | i :: rest =>
    let (trainIdx, nPurged, nEmbargoed) := classify test purged embargoed rest
    if i ∈ test then (trainIdx, nPurged, nEmbargoed)
    else if i ∈ purged then (trainIdx, nPurged + 1, nEmbargoed)
    else if i ∈ embargoed then (trainIdx, nPurged, nEmbargoed + 1)
    else (i :: trainIdx, nPurged, nEmbargoed)

def makeFold (nSamples purge embargo : ℕ) (blocks : List (ℕ × ℕ)) (fold : ℕ) (combo : List ℕ) :
    CPCVFold :=
  let testIntervals := combo.map fun b => blocks.getD b (0, 0)
  let test := testSet testIntervals
  let (trainIdx, nPurged, nEmbargoed) := classify test (purgeSet purge testIntervals)
    (embargoSet nSamples embargo testIntervals) (List.range nSamples)
  { fold, testBlocks := combo, trainIdx, testIdx := test.sort, nPurged, nEmbargoed }

def cpcvSplits (nSamples : ℤ) (nBlocks : ℤ := 10) (kTest : ℤ := 2) (purge : ℤ := 5)
    (embargo : ℤ := 2) : Except CPCVError (List CPCVFold) :=
  if nBlocks < 2 then throw (.nBlocks nBlocks)
  else if ¬ (1 ≤ kTest ∧ kTest < nBlocks) then throw (.kTest nBlocks kTest)
  else if purge < 0 then throw (.purge purge)
  else if embargo < 0 then throw (.embargo embargo)
  else if nSamples < nBlocks then throw (.nSamples nSamples nBlocks)
  else
    let blocks := makeBlocks nSamples.toNat nBlocks.toNat
    pure ((combinations kTest.toNat (List.range nBlocks.toNat)).mapIdx
      (makeFold nSamples.toNat purge.toNat embargo.toNat blocks))

end Futur3.Cv
