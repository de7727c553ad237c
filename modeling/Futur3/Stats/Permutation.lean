import Futur3.Execution.Survival
import Futur3.Prelude.ExtendedFloat
import Futur3.Prelude.Moments

/-! # Permutation tests

The statistic of the returns is compared with its values on transformed returns: signs
flipped by a fair coin, the returns shuffled, or blocks of them. Where the statistic does
not see what the transform changes, no draw falls below what is observed and the p-value
is one.
-/

namespace Futur3.Stats

open Prelude Execution Deviations

/-- `PermutationMode`; the values checked against `_VALID_MODES` are all there are. -/
inductive PermutationMode where
  | signFlip
  | blockShuffle
  | shuffle
deriving DecidableEq

inductive PermutationError where
  -- "n_permutations must be >= {_MIN_PERMUTATIONS}; got {n_permutations}"
  | nPermutations (nPermutations : ℕ)
  -- "block_length must be >= 1; got {block_length}"
  | blockLength (blockLength : ℤ)
  -- "need >= {_MIN_RETURNS} returns; got {n}"
  | tooFewReturns (n : ℕ)
  -- "{n_nan}/{n_permutations} permutations produced a non-finite statistic (> 10%); ..."
  | unstable (nNan nPermutations : ℕ)
deriving DecidableEq

structure PermutationResult (K : Type) where
  pValue : Option K
  observed : Extended K
  nPermutations : ℕ
  nValid : ℕ
  mode : PermutationMode
  oneSided : Bool
  blockLength : ℤ
  lag1Autocorr : Option K
  autocorrWarning : Bool
  seed : Option ℤ
  reason : Option String
  nullDistribution : List K := []
deriving DecidableEq

def minPermutations : ℕ := 1000

def minPermutedReturns : ℕ := 2

def minAutocorrObs : ℕ := 3

def fairCoinP : ℚ := 1 / 2

/-! ## Transforms -/

section Transforms

variable {γ : Type} (gen : Generator γ)

/-- The loop of `random.Random.shuffle`: from the last place down, each item changes places with one
no later than itself. -/
def shuffleFrom {α : Type} : ℕ → Array α → γ → Array α × γ
  | 0, items, rng => (items, rng)
  | i + 1, items, rng =>
    let (j, rng) := gen.randrange (i + 2) rng
    shuffleFrom i (items.swapIfInBounds (i + 1) j) rng

def shuffle {α : Type} (items : List α) (rng : γ) : List α × γ :=
  let (out, rng) := shuffleFrom gen (items.length - 1) items.toArray rng
  (out.toList, rng)

variable {K : Type}

def flipSigns [Neg K] : List K → γ → List K × γ
  | [], rng => ([], rng)
  | r :: rest, rng =>
    let (u, rng) := gen.random rng
    let (flipped, rng) := flipSigns rest rng
    ((if u < fairCoinP then r else -r) :: flipped, rng)

/-- `[returns[i : i + block_length] for i in range(0, n, block_length)]`. -/
def contiguousBlocks (returns : List K) (blockLength : ℕ) : List (List K) :=
  (List.range' 0 ((returns.length + blockLength - 1) / blockLength) blockLength).map fun i =>
    (returns.drop i).take blockLength

def permute [Neg K] (returns : List K) (mode : PermutationMode) (blockLength : ℕ) (rng : γ) : List K × γ :=
  match mode with
  | .signFlip => flipSigns gen returns rng
  | .shuffle => shuffle gen returns rng
  | .blockShuffle =>
    let (blocks, rng) := shuffle gen (contiguousBlocks returns blockLength) rng
    (blocks.flatten, rng)

def permutedDraws [Neg K] (returns : List K) (mode : PermutationMode) (blockLength : ℕ) : ℕ → γ → List (List K)
  | 0, _ => []
  | draws + 1, rng =>
    let (drawn, rng) := permute gen returns mode blockLength rng
    drawn :: permutedDraws returns mode blockLength draws rng

end Transforms

/-! ## The test -/

section Test

variable {K : Type} [Field K] [LinearOrder K]

def permutationPThreshold : K := (5 : ℕ) / (100 : ℕ)

def maxNanFraction : K := (10 : ℕ) / (100 : ℕ)

def PermutationResult.passesPermutation (result : PermutationResult K) : Bool :=
  result.pValue.any fun p => p < permutationPThreshold

def meanReturn (returns : List K) : Extended K := .num (mean returns)

def lag1Autocorr (returns : List K) : Option K :=
  if returns.length < minAutocorrObs then none
  else
    let var := squares returns
    if var ≤ 0 then none
    else
      let cov :=
        (List.zipWith (fun x y => (x - mean returns) * (y - mean returns)) (returns.drop 1) returns).sum
      some (cov / var)

def permutationTest {γ : Type} (sqrt : K → K) (gen : Generator γ) (returns : List K)
    (statistic : List K → Extended K) (nPermutations : ℕ) (mode : PermutationMode) (blockLength : ℤ)
    (oneSided : Bool) (seed : Option ℤ) : Except PermutationError (PermutationResult K) :=
  if nPermutations < minPermutations then throw (.nPermutations nPermutations)
  else if blockLength < 1 then throw (.blockLength blockLength)
  else
    let n := returns.length
    if n < minPermutedReturns then throw (.tooFewReturns n)
    else
      let lag1 := lag1Autocorr returns
      let autocorrWarning := lag1.any fun lag1 =>
        (mode = .signFlip ∨ mode = .shuffle) ∧ (2 : ℕ) / sqrt n < |lag1|
      match statistic returns with
      | .num observed =>
        let draws := permutedDraws gen returns mode blockLength.toNat nPermutations (gen.seeded seed)
        let null := draws.filterMap fun drawn => (statistic drawn).toNum
        let nValid := null.length
        let nNan := nPermutations - nValid
        if maxNanFraction * nPermutations < (nNan : K) then throw (.unstable nNan nPermutations)
        else
          let nGe := if oneSided then null.countP fun s => observed ≤ s else null.countP fun s => |observed| ≤ |s|
          pure
            { pValue := some ((nGe + 1) / (nValid + 1)), observed := .num observed, nPermutations := nPermutations,
              nValid := nValid, mode := mode, oneSided := oneSided, blockLength := blockLength,
              lag1Autocorr := lag1, autocorrWarning := autocorrWarning, seed := seed, reason := none,
              nullDistribution := null }
      | observed =>
        pure
          { pValue := none, observed := observed, nPermutations := nPermutations, nValid := 0, mode := mode,
            oneSided := oneSided, blockLength := blockLength, lag1Autocorr := lag1,
            autocorrWarning := autocorrWarning, seed := seed,
            reason := some "observed statistic is not finite" }

end Test

/-! ## What the transforms keep -/

section Kept

variable {γ : Type} {gen : Generator γ}

theorem swapIfInBounds_perm {α : Type} (items : Array α) (i j : ℕ) : (items.swapIfInBounds i j).Perm items := by
  unfold Array.swapIfInBounds
  split_ifs with hi hj
  · exact Array.swap_perm hi hj
  · exact .rfl
  · exact .rfl

theorem shuffleFrom_perm {α : Type} (i : ℕ) (items : Array α) (rng : γ) :
    (shuffleFrom gen i items rng).1.Perm items := by
  induction i generalizing items rng with
  | zero => exact .rfl
  | succ i ih => exact (ih _ _).trans (swapIfInBounds_perm _ _ _)

variable (gen) in
theorem shuffle_perm {α : Type} (items : List α) (rng : γ) : (shuffle gen items rng).1.Perm items :=
  (shuffleFrom_perm _ _ _).toList

variable {K : Type}

theorem flipSigns_forall₂ [Neg K] (returns : List K) (rng : γ) :
    List.Forall₂ (fun r s => s = r ∨ s = -r) returns (flipSigns gen returns rng).1 := by
  induction returns generalizing rng with
  | nil => exact .nil
  | cons r rest ih =>
    refine .cons ?_ (ih _)
    split_ifs
    · exact .inl rfl
    · exact .inr rfl

theorem flatten_blocks (returns : List K) (blockLength start count : ℕ) :
    ((List.range' start count blockLength).map fun i => (returns.drop i).take blockLength).flatten =
      (returns.drop start).take (count * blockLength) := by
  induction count generalizing start with
  | zero => simp
  | succ count ih =>
    rw [List.range'_succ, List.map_cons, List.flatten_cons, ih, ← List.drop_drop, Nat.succ_mul, Nat.add_comm,
      List.take_add]

/-- The blocks are the returns, end to end. -/
theorem contiguousBlocks_flatten (returns : List K) {blockLength : ℕ} (hBlock : 0 < blockLength) :
    (contiguousBlocks returns blockLength).flatten = returns := by
  rw [contiguousBlocks, flatten_blocks, List.drop_zero, List.take_of_length_le]
  have hDiv := Nat.div_add_mod (returns.length + blockLength - 1) blockLength
  have hMod := Nat.mod_lt (returns.length + blockLength - 1) hBlock
  rw [Nat.mul_comm] at hDiv
  omega

/-- The statistic does not see what the transform changes in the returns. -/
def Blind [Neg K] (statistic : List K → Extended K) (returns : List K) (blockLength : ℕ) : PermutationMode → Prop
  | .signFlip => ∀ ys, List.Forall₂ (fun r s => s = r ∨ s = -r) returns ys → statistic ys = statistic returns
  | .shuffle => ∀ ys, ys.Perm returns → statistic ys = statistic returns
  | .blockShuffle => ∀ blocks : List (List K), blocks.Perm (contiguousBlocks returns blockLength) →
      statistic blocks.flatten = statistic returns

/-- What a shuffle of the returns does not change, a shuffle of their blocks does not either. -/
theorem Blind.blocks [Neg K] {statistic : List K → Extended K} {returns : List K} {blockLength : ℕ}
    (h : Blind statistic returns blockLength .shuffle) (hBlock : 0 < blockLength) :
    Blind statistic returns blockLength .blockShuffle := by
  intro blocks hPerm
  have hFlat := hPerm.flatten
  rw [contiguousBlocks_flatten returns hBlock] at hFlat
  exact h _ hFlat

theorem blind_meanReturn [Field K] (returns : List K) (blockLength : ℕ) :
    Blind meanReturn returns blockLength .shuffle := by
  intro ys hPerm
  rw [meanReturn, meanReturn, mean, mean, hPerm.sum_eq, hPerm.length_eq]

theorem Blind.permute [Neg K] {statistic : List K → Extended K} {returns : List K} {blockLength : ℕ}
    {mode : PermutationMode} (h : Blind statistic returns blockLength mode) (rng : γ) :
    statistic (permute gen returns mode blockLength rng).1 = statistic returns := by
  cases mode with
  | signFlip => exact h _ (flipSigns_forall₂ returns rng)
  | shuffle => exact h _ (shuffle_perm gen returns rng)
  | blockShuffle => exact h _ (shuffle_perm gen (contiguousBlocks returns blockLength) rng)

variable (gen) in
theorem Blind.draws [Neg K] {statistic : List K → Extended K} {returns : List K} {blockLength : ℕ}
    {mode : PermutationMode} (h : Blind statistic returns blockLength mode) (draws : ℕ) (rng : γ) :
    (permutedDraws gen returns mode blockLength draws rng).map statistic =
      List.replicate draws (statistic returns) := by
  induction draws generalizing rng with
  | zero => rfl
  | succ draws ih => rw [permutedDraws, List.map_cons, h.permute, ih, List.replicate_succ]

end Kept

section Main

variable {K : Type} [Field K] [LinearOrder K] [IsStrictOrderedRing K] {γ : Type}

/-- A statistic that does not see the transform has the p-value one and never passes. -/
theorem permutationTest_blind (sqrt : K → K) (gen : Generator γ) {returns : List K}
    {statistic : List K → Extended K} {nPermutations : ℕ} {mode : PermutationMode} {blockLength : ℤ}
    (hBlind : Blind statistic returns blockLength.toNat mode) (hPermutations : 1000 ≤ nPermutations)
    (hBlock : 1 ≤ blockLength) (hReturns : 2 ≤ returns.length) {observed : K}
    (hObserved : statistic returns = .num observed)
    (oneSided : Bool) (seed : Option ℤ) : ∃ result,
      permutationTest sqrt gen returns statistic nPermutations mode blockLength oneSided seed = .ok result ∧
        result.pValue = some 1 ∧ result.nValid = nPermutations ∧ result.passesPermutation = false := by
  have hDraws := hBlind.draws gen nPermutations (gen.seeded seed)
  have hNull : (permutedDraws gen returns mode blockLength.toNat nPermutations (gen.seeded seed)).filterMap
      (fun drawn => (statistic drawn).toNum) = List.replicate nPermutations observed := by
    have hNumbers := congrArg (List.filterMap Extended.toNum) hDraws
    rw [hObserved, List.filterMap_map] at hNumbers
    rw [List.filterMap_replicate_of_some (show (Extended.num observed).toNum = some observed from rfl)] at hNumbers
    exact hNumbers
  have hStable : ¬maxNanFraction * (nPermutations : K) < ((nPermutations - nPermutations : ℕ) : K) := by
    rw [Nat.sub_self, Nat.cast_zero]
    exact not_lt.mpr (mul_nonneg (by norm_num [maxNanFraction]) (Nat.cast_nonneg _))
  have hAll : ∀ reaches : K → Bool, reaches observed = true →
      (List.replicate nPermutations observed).countP reaches = nPermutations := by
    intro reaches hReaches
    rw [List.countP_replicate, if_pos hReaches]
  have hGe : (if oneSided then (List.replicate nPermutations observed).countP fun s => observed ≤ s
      else (List.replicate nPermutations observed).countP fun s => |observed| ≤ |s|) = nPermutations := by
    cases oneSided
    · exact hAll _ (decide_eq_true le_rfl)
    · exact hAll _ (decide_eq_true le_rfl)
  have hShare : ((nPermutations : K) + 1) / (nPermutations + 1) = 1 :=
    div_self (Nat.cast_add_one_ne_zero nPermutations)
  unfold permutationTest
  dsimp only
  rw [if_neg (show ¬nPermutations < minPermutations from not_lt.mpr hPermutations), if_neg (not_lt.mpr hBlock),
    if_neg (show ¬returns.length < minPermutedReturns from not_lt.mpr hReturns), hObserved]
  dsimp only
  rw [hNull, List.length_replicate, if_neg hStable, hGe, hShare]
  refine ⟨_, rfl, rfl, rfl, ?_⟩
  rw [PermutationResult.passesPermutation, Option.any_some, decide_eq_false_iff_not, not_lt]
  norm_num [permutationPThreshold]

/-- The mean does not see the order of the blocks, nor does the first return when they are equal. -/
theorem permutationTest_blind_blocks :
    (∃ result : PermutationResult ℚ,
      permutationTest id counting [1, -2, 4] meanReturn 1000 .blockShuffle 2 true (some 3) = .ok result ∧
        result.pValue = some 1) ∧
    ∃ result : PermutationResult ℚ,
      permutationTest id counting [3, -1, 3, -1] (fun xs => .num (xs.headD 0)) 1000 .blockShuffle 2 true (some 3) =
        .ok result ∧ result.pValue = some 1 := by
  have hMean : Blind meanReturn [(1 : ℚ), -2, 4] (2 : ℤ).toNat .blockShuffle :=
    (blind_meanReturn _ _).blocks (by decide)
  have hFirst : Blind (fun xs : List ℚ => .num (xs.headD 0)) [3, -1, 3, -1] (2 : ℤ).toNat .blockShuffle := by
    have hBlocks : contiguousBlocks [(3 : ℚ), -1, 3, -1] (2 : ℤ).toNat = List.replicate 2 [3, -1] := rfl
    intro blocks hPerm
    rw [hBlocks, List.perm_replicate] at hPerm
    rw [hPerm]
    rfl
  obtain ⟨result, hOk, hOne, -⟩ := permutationTest_blind id counting hMean (le_refl 1000) one_le_two (by decide) rfl
    true (some 3)
  obtain ⟨result', hOk', hOne', -⟩ := permutationTest_blind id counting hFirst (le_refl 1000) one_le_two (by decide)
    rfl true (some 3)
  exact ⟨⟨result, hOk, hOne⟩, result', hOk', hOne'⟩

end Main

end Futur3.Stats
