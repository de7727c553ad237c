import Futur3.Prelude.Method
import Mathlib.Data.Int.Notation
import Mathlib.Data.Nat.Notation

/-! # Walk-forward folds

Train on the past, validate on what follows, advance, repeat. Anchored folds train
on all of the past, rolling ones on a fixed number of observations before the
validation window.
-/

namespace Futur3.Cv

inductive WalkForwardMode where
  | anchored
  | rolling
  -- a value outside of the declared literals
  | other (mode : String)
deriving DecidableEq

inductive WalkForwardError where
  -- "n_samples must be >= 2; got {n_samples}"
  | nSamples (nSamples : ℤ)
  -- "mode must be one of {_VALID_MODES}; got {mode!r}"
  | mode (mode : WalkForwardMode)
  -- "val_window must be >= 1; got {val_window}"
  | valWindow (valWindow : ℤ)
  -- "min_train must be >= 1; got {min_train}"
  | minTrain (minTrain : ℤ)
  -- "step must be >= 1; got {step}"
  | step (step : Option ℤ)
  -- "rolling mode requires train_window"
  | windowMissing
  -- "train_window must be >= 1; got {train_window}"
  | trainWindow (trainWindow : ℤ)
  -- "train_window is only used in rolling mode; omit it for anchored"
  | windowUnused
  -- "no fold could be formed (n_samples=..., ...) - windows too large"
  | noFold (nSamples valWindow : ℤ) (trainWindow : Option ℤ) (minTrain : ℤ)
  -- AssertionError of `assert train_window is not None`
  | assertion
deriving DecidableEq

/-- One split, as half-open index ranges into the series. -/
structure WalkForwardFold where
  fold : ℕ
  trainStart : ℤ
  trainEnd : ℤ
  valStart : ℤ
  valEnd : ℤ
deriving DecidableEq

structure WalkForwardArgs where
  nSamples : ℤ
  valWindow : ℤ
  mode : WalkForwardMode := .anchored
  trainWindow : Option ℤ := none
  step : Option ℤ := none
  minTrain : ℤ := 1

def minSamples : ℤ := 2

namespace WalkForwardArgs

variable (args : WalkForwardArgs)

def resolveWalkForward : Except WalkForwardError (ℤ × ℤ) := do
  if args.nSamples < minSamples then throw (.nSamples args.nSamples)
  if args.mode ≠ .anchored ∧ args.mode ≠ .rolling then throw (.mode args.mode)
  if args.valWindow < 1 then throw (.valWindow args.valWindow)
  if args.minTrain < 1 then throw (.minTrain args.minTrain)
  let resolvedStep := args.step.getD args.valWindow
  if resolvedStep < 1 then throw (.step args.step)
  if args.mode = .rolling then
    match args.trainWindow with
    | none => throw .windowMissing
    | some trainWindow =>
      if trainWindow < 1 then throw (.trainWindow trainWindow)
      pure (resolvedStep, trainWindow)
  else if args.trainWindow.isSome then throw .windowUnused
  else pure (resolvedStep, args.minTrain)

def trainStartOf (valStart : ℤ) : Except WalkForwardError ℤ :=
  if args.mode = .anchored then pure 0
  else
    match args.trainWindow with
    | none => throw .assertion
    | some trainWindow => pure (valStart - trainWindow)

/-- The loop of `walk_forward_splits`, with bounds on the turns and the folds so far: one turn moves
the start by at least one. -/
def foldsFrom (step : ℤ) : ℕ → ℕ → ℤ → Except WalkForwardError (List WalkForwardFold)
  | 0, _, _ => pure []
  | turns + 1, count, valStart =>
    if valStart < args.nSamples then do
      let valEnd := min (valStart + args.valWindow) args.nSamples
      let trainStart ← args.trainStartOf valStart
      if args.minTrain ≤ valStart - trainStart then do
        let folds ← foldsFrom step turns (count + 1) (valStart + step)
        pure ({ fold := count, trainStart, trainEnd := valStart, valStart, valEnd } :: folds)
      else foldsFrom step turns count (valStart + step)
    else pure []

def walkForwardSplits : Except WalkForwardError (List WalkForwardFold) := do
  let (step, firstVal) ← args.resolveWalkForward
  let folds ← args.foldsFrom step (args.nSamples - firstVal).toNat 0 firstVal
  if folds = [] then
    throw (.noFold args.nSamples args.valWindow args.trainWindow args.minTrain)
  pure folds

end WalkForwardArgs

end Futur3.Cv
