import Futur3.Cv.WalkForward
import Mathlib.Tactic.Linarith
import Mathlib.Tactic.Ring

/-! # Walk-forward folds are causal

A fold validates on what follows its training window. The folds step through the
series from the first start that leaves a training window before it, and with the
default step their validation windows cover what follows once.
-/

namespace Futur3.Cv

open Prelude

namespace WalkForwardArgs

variable (args : WalkForwardArgs)

structure Valid : Prop where
  samples : 2 ≤ args.nSamples
  valWindow : 1 ≤ args.valWindow
  minTrain : 1 ≤ args.minTrain
  step : ∀ step ∈ args.step, 1 ≤ step
  window : args.mode = .anchored ∧ args.trainWindow = none ∨
    args.mode = .rolling ∧ ∃ trainWindow, args.trainWindow = some trainWindow ∧ 1 ≤ trainWindow

/-- A causal fold of the series under these arguments. -/
structure Fits (fold : WalkForwardFold) : Prop where
  start : 0 ≤ fold.trainStart
  train : fold.trainStart < fold.trainEnd
  causal : fold.trainEnd = fold.valStart
  validates : fold.valStart < fold.valEnd
  inside : fold.valEnd ≤ args.nSamples
  enough : args.minTrain ≤ fold.trainEnd - fold.trainStart
  rolling : args.mode = .rolling → args.trainWindow = some (fold.trainEnd - fold.trainStart)
  anchored : args.mode = .anchored → fold.trainStart = 0

def resolvedStep : ℤ := args.step.getD args.valWindow

/-- The training window of rolling folds, the least one of anchored folds. -/
def firstVal : ℤ := if args.mode = .rolling then args.trainWindow.getD 0 else args.minTrain

structure Walks (folds : List WalkForwardFold) : Prop where
  nonempty : folds ≠ []
  fits : ∀ fold ∈ folds, args.Fits fold
  numbered : ∀ (k : ℕ) (fold : WalkForwardFold), folds[k]? = some fold → fold.fold = k
  advances : ∀ (k : ℕ) (fold next : WalkForwardFold), folds[k]? = some fold → folds[k + 1]? = some next →
    next.valStart = fold.valStart + args.resolvedStep
  first : ∀ fold, folds.head? = some fold → fold.valStart = args.firstVal
  covers : args.step = none → ∀ i, args.firstVal ≤ i → i < args.nSamples →
    ∃! fold, fold ∈ folds ∧ fold.valStart ≤ i ∧ i < fold.valEnd

/-! ## Arguments -/

variable {args}

theorem Valid.resolvedStep_pos (h : args.Valid) : 1 ≤ args.resolvedStep := by
  unfold resolvedStep
  cases hStep : args.step with
  | none => exact h.valWindow
  | some step => exact h.step step hStep

theorem resolveWalkForward_ok (h : args.Valid) :
    args.resolveWalkForward = .ok (args.resolvedStep, args.firstVal) := by
  have hStep := h.resolvedStep_pos
  have hSamples := h.samples
  have hWindow := h.valWindow
  have hTrain := h.minTrain
  unfold resolvedStep at hStep ⊢
  unfold resolveWalkForward firstVal
  rcases h.window with ⟨hMode, hNone⟩ | ⟨hMode, trainWindow, hSome, hPositive⟩
  · simp only [hMode, hNone, minSamples]
    rw [if_neg (by omega), if_neg (by simp), if_neg (by omega), if_neg (by omega), if_neg (by omega)]
    rfl
  · simp only [hMode, hSome, minSamples]
    rw [if_neg (by omega), if_neg (by simp), if_neg (by omega), if_neg (by omega), if_neg (by omega),
      if_pos trivial, if_neg (by omega)]
    rfl

theorem valid_of_resolve {out : ℤ × ℤ} (h : args.resolveWalkForward = .ok out) : args.Valid := by
  simp only [resolveWalkForward, except_raise_guard_ok_iff] at h
  obtain ⟨hSamples, hMode, hWindow, hTrain, hStep, h⟩ := h
  unfold minSamples at hSamples
  refine ⟨by omega, by omega, by omega, ?_, ?_⟩
  · intro step hMem
    rw [Option.mem_def.mp hMem] at hStep
    exact not_lt.mp hStep
  · split at h
    · rename_i hRolling
      refine .inr ⟨hRolling, ?_⟩
      split at h
      · simp [except_throw_ok_iff] at h
      · rename_i trainWindow hSome
        exact ⟨trainWindow, hSome, not_lt.mp (except_raise_guard_ok_iff.mp h).1⟩
    · rename_i hNotRolling
      have hAnchored : args.mode = .anchored := by
        by_contra hNotAnchored
        exact hMode ⟨hNotAnchored, hNotRolling⟩
      refine .inl ⟨hAnchored, ?_⟩
      split at h
      · simp [except_throw_ok_iff] at h
      · rename_i hNone
        exact Option.not_isSome_iff_eq_none.mp hNone

/-- No assertion fails, and every other failure is a `WalkForwardError`. -/
def Declared (failure : WalkForwardError) : Prop := failure ≠ .assertion

theorem resolveWalkForward_declared {failure : WalkForwardError}
    (h : args.resolveWalkForward = .error failure) : Declared failure := by
  simp only [resolveWalkForward, except_raise_guard_error_iff] at h
  rintro rfl
  simp only [reduceCtorEq, and_false, false_or] at h
  obtain ⟨-, -, -, -, -, h⟩ := h
  split at h
  · split at h
    · simp [except_throw_error_iff] at h
    · simp [except_raise_guard_error_iff, pure, Except.pure] at h
  · split at h
    · simp [except_throw_error_iff] at h
    · cases h

/-! ## The loop -/

variable (args)

/-- The start of the training window before a validation start. -/
def trainFrom (valStart : ℤ) : ℤ :=
  match args.trainWindow with
  | none => 0
  | some trainWindow => valStart - trainWindow

def foldAt (count : ℕ) (valStart : ℤ) : WalkForwardFold where
  fold := count
  trainStart := args.trainFrom valStart
  trainEnd := valStart
  valStart := valStart
  valEnd := min (valStart + args.valWindow) args.nSamples

/-- The training window before a validation start is long enough. -/
def Emits (valStart : ℤ) : Prop := args.minTrain ≤ valStart - args.trainFrom valStart

variable {args}

theorem Valid.trainStartOf_ok (h : args.Valid) (valStart : ℤ) :
    args.trainStartOf valStart = .ok (args.trainFrom valStart) := by
  unfold trainStartOf trainFrom
  rcases h.window with ⟨hMode, hNone⟩ | ⟨hMode, trainWindow, hSome, -⟩
  · rw [if_pos hMode, hNone]
    rfl
  · rw [if_neg (by simp [hMode]), hSome]
    rfl

theorem Emits.mono {v v' : ℤ} (h : args.Emits v) (hLe : v ≤ v') : args.Emits v' := by
  unfold Emits trainFrom at h ⊢
  cases hWindow : args.trainWindow with
  | none =>
    rw [hWindow] at h
    dsimp only at h ⊢
    omega
  | some trainWindow =>
    rw [hWindow] at h
    dsimp only at h ⊢
    omega

theorem start_le {step : ℤ} (hStep : 1 ≤ step) (valStart : ℤ) (k : ℕ) : valStart ≤ valStart + k * step :=
  le_add_of_nonneg_right (mul_nonneg (Int.natCast_nonneg k) (zero_le_one.trans hStep))

/-- Where the first training window is long enough, there is a fold for each start in the series. -/
theorem foldsFrom_emits (hValid : args.Valid) {step : ℤ} (hStep : 1 ≤ step) (turns count : ℕ)
    {valStart : ℤ} (hTurns : args.nSamples - valStart ≤ turns) (hEmits : args.Emits valStart) :
    ∃ folds, args.foldsFrom step turns count valStart = .ok folds ∧
      ∀ k : ℕ, folds[k]? = if valStart + k * step < args.nSamples then
        some (args.foldAt (count + k) (valStart + k * step)) else none := by
  induction turns generalizing count valStart with
  | zero =>
    refine ⟨[], rfl, fun k => ?_⟩
    have hLater := start_le hStep valStart k
    push_cast at hTurns
    rw [if_neg (by omega)]
    rfl
  | succ turns ih =>
    rw [foldsFrom]
    by_cases hInside : valStart < args.nSamples
    · obtain ⟨folds, hFolds, hAt⟩ := ih (count + 1)
        (show args.nSamples - (valStart + step) ≤ turns by push_cast at hTurns; omega) (hEmits.mono (by omega))
      rw [if_pos hInside, hValid.trainStartOf_ok, except_ok_bind,
        if_pos (show args.minTrain ≤ valStart - args.trainFrom valStart from hEmits), hFolds]
      refine ⟨args.foldAt count valStart :: folds, rfl, fun k => ?_⟩
      cases k with
      | zero => simp [hInside]
      | succ k =>
        rw [List.getElem?_cons_succ, hAt k, show valStart + step + k * step =
          valStart + (k + 1 : ℕ) * step by push_cast; ring, Nat.add_right_comm, Nat.add_assoc]
    · rw [if_neg hInside]
      refine ⟨[], rfl, fun k => ?_⟩
      have hLater := start_le hStep valStart k
      rw [if_neg (by omega)]
      rfl

theorem foldsFrom_skips (hValid : args.Valid) (step : ℤ) (turns count : ℕ) {valStart : ℤ}
    (hSkips : ∀ v, ¬args.Emits v) : args.foldsFrom step turns count valStart = .ok [] := by
  induction turns generalizing valStart with
  | zero => rfl
  | succ turns ih =>
    rw [foldsFrom]
    split
    · rw [hValid.trainStartOf_ok, except_ok_bind,
        if_neg (show ¬args.minTrain ≤ valStart - args.trainFrom valStart from hSkips valStart)]
      exact ih
    · rfl

/-! ## Folds -/

theorem Valid.trainFrom_spec (h : args.Valid) {v : ℤ} (hFirst : args.firstVal ≤ v)
    (hEmits : args.Emits v) :
    0 ≤ args.trainFrom v ∧ args.trainFrom v < v ∧
      (args.mode = .rolling → args.trainWindow = some (v - args.trainFrom v)) ∧
      (args.mode = .anchored → args.trainFrom v = 0) := by
  have hTrain := h.minTrain
  unfold Emits at hEmits
  unfold firstVal at hFirst
  rcases h.window with ⟨hMode, hNone⟩ | ⟨hMode, trainWindow, hSome, hPositive⟩
  · have hFrom : args.trainFrom v = 0 := by rw [trainFrom, hNone]
    rw [hFrom] at hEmits ⊢
    exact ⟨le_refl 0, by omega, fun hRolling => absurd hRolling (by simp [hMode]), fun _ => rfl⟩
  · have hFrom : args.trainFrom v = v - trainWindow := by rw [trainFrom, hSome]
    rw [if_pos hMode, hSome, Option.getD_some] at hFirst
    rw [hFrom, hSome, sub_sub_cancel]
    exact ⟨by omega, by omega, fun _ => rfl, fun hAnchored => absurd hAnchored (by simp [hMode])⟩

theorem Valid.foldAt_fits (h : args.Valid) {v : ℤ} (hFirst : args.firstVal ≤ v) (hEmits : args.Emits v)
    (hInside : v < args.nSamples) (count : ℕ) : args.Fits (args.foldAt count v) := by
  obtain ⟨hStart, hLess, hRolling, hAnchored⟩ := h.trainFrom_spec hFirst hEmits
  have hWindow := h.valWindow
  refine ⟨hStart, hLess, rfl, ?_, min_le_right _ _, hEmits, hRolling, hAnchored⟩
  exact lt_min (show v < v + args.valWindow by omega) hInside

/-- Arguments leave room for a fold exactly when the first one has a training window and a place. -/
theorem Valid.exists_fits_iff (h : args.Valid) :
    (∃ fold, args.Fits fold) ↔ args.Emits args.firstVal ∧ args.firstVal < args.nSamples := by
  constructor
  · rintro ⟨fold, hFits⟩
    have hStart := hFits.start
    have hCausal := hFits.causal
    have hValidates := hFits.validates
    have hInside := hFits.inside
    have hEnough := hFits.enough
    unfold Emits trainFrom firstVal
    rcases h.window with ⟨hMode, hNone⟩ | ⟨hMode, trainWindow, hSome, -⟩
    · have hZero := hFits.anchored hMode
      rw [if_neg (by simp [hMode]), hNone]
      dsimp only
      omega
    · have hExact := Option.some.inj (hSome.symm.trans (hFits.rolling hMode))
      rw [if_pos hMode, hSome, Option.getD_some]
      dsimp only
      omega
  · rintro ⟨hEmits, hInside⟩
    exact ⟨args.foldAt 0 args.firstVal, h.foldAt_fits le_rfl hEmits hInside 0⟩

theorem Valid.skips_all (h : args.Valid) (hSkips : ¬args.Emits args.firstVal) :
    ∀ v, ¬args.Emits v := by
  intro v hEmits
  apply hSkips
  unfold Emits trainFrom firstVal at *
  rcases h.window with ⟨hMode, hNone⟩ | ⟨hMode, trainWindow, hSome, -⟩
  · rw [if_neg (by simp [hMode]), hNone]
    dsimp only
    omega
  · rw [hSome] at hEmits ⊢
    dsimp only at hEmits ⊢
    omega

structure Listed (args : WalkForwardArgs) (folds : List WalkForwardFold) : Prop where
  emits : args.Emits args.firstVal
  inside : args.firstVal < args.nSamples
  listed : ∀ k : ℕ, folds[k]? =
    if args.firstVal + k * args.resolvedStep < args.nSamples then
      some (args.foldAt k (args.firstVal + k * args.resolvedStep)) else none

/-- A call with valid arguments lists its folds, or finds no room for one. -/
theorem Valid.splits (h : args.Valid) :
    (∃ folds, args.walkForwardSplits = .ok folds ∧ args.Listed folds) ∨
      args.walkForwardSplits =
        .error (.noFold args.nSamples args.valWindow args.trainWindow args.minTrain) ∧
        ¬∃ fold, args.Fits fold := by
  have hStep := h.resolvedStep_pos
  unfold walkForwardSplits
  rw [resolveWalkForward_ok h, except_ok_bind]
  dsimp only
  by_cases hEmits : args.Emits args.firstVal
  · obtain ⟨folds, hFolds, hAt⟩ := foldsFrom_emits h hStep (args.nSamples - args.firstVal).toNat 0
      (show args.nSamples - args.firstVal ≤ _ by omega) hEmits
    rw [hFolds, except_ok_bind]
    have hFirst := hAt 0
    simp only [Nat.cast_zero, zero_mul, add_zero] at hFirst
    by_cases hInside : args.firstVal < args.nSamples
    · rw [if_pos hInside] at hFirst
      have hSome : folds ≠ [] := by
        rintro rfl
        cases hFirst
      rw [if_neg hSome]
      exact .inl ⟨folds, rfl, hEmits, hInside, fun k => by rw [hAt k, Nat.zero_add]⟩
    · rw [if_neg hInside] at hFirst
      have hNil : folds = [] :=
        List.eq_nil_of_length_eq_zero (Nat.le_zero.mp (List.getElem?_eq_none_iff.mp hFirst))
      rw [if_pos hNil, h.exists_fits_iff]
      exact .inr ⟨rfl, fun hBoth => hInside hBoth.2⟩
  · rw [foldsFrom_skips h _ _ _ (h.skips_all hEmits), except_ok_bind, if_pos rfl, h.exists_fits_iff]
    exact .inr ⟨rfl, fun hBoth => hEmits hBoth.1⟩

section Listed

variable {folds : List WalkForwardFold}

theorem Listed.get (h : args.Listed folds) {k : ℕ} {fold : WalkForwardFold} (hFold : folds[k]? = some fold) :
    args.firstVal + k * args.resolvedStep < args.nSamples ∧
      fold = args.foldAt k (args.firstVal + k * args.resolvedStep) := by
  rw [h.listed k] at hFold
  split at hFold
  · rename_i hInside
    exact ⟨hInside, (Option.some.inj hFold).symm⟩
  · cases hFold

/-- With the default step the next validation window starts where one ends. -/
theorem Listed.covers (h : args.Listed folds) (hValid : args.Valid) (hStep : args.step = none) {i : ℤ}
    (hFirst : args.firstVal ≤ i) (hInside : i < args.nSamples) :
    ∃! fold, fold ∈ folds ∧ fold.valStart ≤ i ∧ i < fold.valEnd := by
  have hWindow := hValid.valWindow
  have hResolved : args.resolvedStep = args.valWindow := by rw [resolvedStep, hStep, Option.getD_none]
  -- the window of a point is its distance from the first start, in steps
  have hNonneg : 0 ≤ (i - args.firstVal) / args.valWindow := Int.ediv_nonneg (by omega) (by omega)
  obtain ⟨k, hk⟩ := Int.eq_ofNat_of_zero_le hNonneg
  obtain ⟨hLow, hHigh⟩ := (Int.ediv_eq_iff_of_pos (by omega)).mp hk
  have hFold : folds[k]? = some (args.foldAt k (args.firstVal + k * args.valWindow)) := by
    rw [h.listed k, hResolved, if_pos (by omega)]
  refine ⟨_, ⟨List.mem_of_getElem? hFold, show args.firstVal + k * args.valWindow ≤ i by omega, ?_⟩, ?_⟩
  · exact lt_min (show i < args.firstVal + k * args.valWindow + args.valWindow by omega) hInside
  · rintro fold ⟨hMem, hStart, hEnd⟩
    obtain ⟨k', hk'⟩ := List.mem_iff_getElem?.mp hMem
    obtain ⟨-, rfl⟩ := h.get hk'
    rw [hResolved] at hStart hEnd ⊢
    have hBefore : args.firstVal + k' * args.valWindow ≤ i := hStart
    have hAfter : i < args.firstVal + k' * args.valWindow + args.valWindow :=
      hEnd.trans_le (min_le_left _ _)
    have hSame : (k' : ℤ) = k :=
      ((Int.ediv_eq_iff_of_pos (by omega)).mpr ⟨by omega, by omega⟩).symm.trans hk
    rw [Int.ofNat_inj.mp hSame]

theorem Listed.walks (h : args.Listed folds) (hValid : args.Valid) : args.Walks folds where
  nonempty := by
    rintro rfl
    have hFirst := h.listed 0
    rw [Nat.cast_zero, zero_mul, add_zero, if_pos h.inside] at hFirst
    cases hFirst
  fits := by
    intro fold hMem
    obtain ⟨k, hk⟩ := List.mem_iff_getElem?.mp hMem
    obtain ⟨hInside, rfl⟩ := h.get hk
    have hLater := start_le hValid.resolvedStep_pos args.firstVal k
    exact hValid.foldAt_fits hLater (h.emits.mono hLater) hInside k
  numbered := by
    intro k fold hk
    obtain ⟨-, rfl⟩ := h.get hk
    rfl
  advances := by
    intro k fold next hk hNext
    obtain ⟨-, rfl⟩ := h.get hk
    obtain ⟨-, rfl⟩ := h.get hNext
    change args.firstVal + ((k + 1 : ℕ) : ℤ) * args.resolvedStep =
      args.firstVal + k * args.resolvedStep + args.resolvedStep
    push_cast
    ring
  first := by
    intro fold hHead
    rw [List.head?_eq_getElem?] at hHead
    obtain ⟨-, rfl⟩ := h.get hHead
    change args.firstVal + ((0 : ℕ) : ℤ) * args.resolvedStep = args.firstVal
    rw [Nat.cast_zero, zero_mul, add_zero]
  covers := fun hStep _ hFirst hInside => h.covers hValid hStep hFirst hInside

end Listed

variable (args)

/-- Walk-forward folds are causal, numbered, a step apart and, with the default step, validate what
follows the first start once; only a `WalkForwardError` is raised, where an argument is invalid or
no fold fits. -/
theorem walkForwardSplits_causal :
    (∀ folds, args.walkForwardSplits = .ok folds → args.Walks folds) ∧
      (∀ failure, args.walkForwardSplits = .error failure → Declared failure) ∧
      ((∃ failure, args.walkForwardSplits = .error failure) ↔
        ¬args.Valid ∨ ¬∃ fold, args.Fits fold) := by
  by_cases hValid : args.Valid
  · rcases hValid.splits with ⟨folds, hFolds, hListed⟩ | ⟨hFails, hNone⟩
    · refine ⟨fun folds' h => ?_, fun failure h => ?_, ?_⟩
      · obtain rfl := Except.ok.inj (hFolds.symm.trans h)
        exact hListed.walks hValid
      · exact absurd (hFolds.symm.trans h) (by simp)
      · refine iff_of_false ?_ ?_
        · rintro ⟨failure, h⟩
          exact absurd (hFolds.symm.trans h) (by simp)
        · rintro (hInvalid | hNone)
          · exact hInvalid hValid
          · exact hNone (hValid.exists_fits_iff.mpr ⟨hListed.emits, hListed.inside⟩)
    · refine ⟨fun folds h => absurd (hFails.symm.trans h) (by simp), fun failure h => ?_, ?_⟩
      · obtain rfl := Except.error.inj (hFails.symm.trans h)
        simp [Declared]
      · exact iff_of_true ⟨_, hFails⟩ (.inr hNone)
  · have hFails : ∃ failure, args.resolveWalkForward = .error failure := by
      cases hResolve : args.resolveWalkForward with
      | error failure => exact ⟨failure, rfl⟩
      | ok out => exact absurd (valid_of_resolve hResolve) hValid
    obtain ⟨failure, hResolve⟩ := hFails
    have hSplits : args.walkForwardSplits = .error failure := by
      rw [walkForwardSplits, hResolve]
      rfl
    refine ⟨fun folds h => absurd (hSplits.symm.trans h) (by simp), fun failure' h => ?_, ?_⟩
    · obtain rfl := Except.error.inj (hSplits.symm.trans h)
      exact resolveWalkForward_declared hResolve
    · exact iff_of_true ⟨failure, hSplits⟩ (.inl hValid)

end WalkForwardArgs

end Futur3.Cv
