import Futur3.Cv.BlockLength
import Futur3.Prelude.Compounding
import Mathlib.Algebra.Order.Archimedean.Real.Hom
import Mathlib.Data.Fin.Basic

/-! # The leverage-survival bootstrap

Returns are resampled in blocks of random length; a path survives when its equity at
the leverage never falls to the kill-switch floor. The generator is a source of draws
read in order, so every leverage is tested on the same paths, and a path that survives
at one leverage survives at every smaller one. Floats are read as the numbers of an
ordered field.
-/

namespace Futur3.Execution

open Prelude Cv

/-- `SurvivalError`, one constructor for each raising statement. -/
inductive SurvivalFailure (K : Type) where
  -- "leverage must be >= 0; got {leverage}"
  | leverage (leverage : K)
  -- "horizon must be >= 1; got {horizon}"
  | horizon (horizon : ℕ)
  -- "n_paths must be >= 1; got {n_paths}"
  | nPaths (nPaths : ℕ)
  -- "kill_switch_dd must be in (0, 1); got {kill_switch_dd}"
  | killSwitchDd (killSwitchDd : K)
  -- "need >= 2 returns; got {len(rs)}"
  | tooFewReturns (count : ℕ)
deriving DecidableEq

/-- `random.Random`: a state from a seed, and two kinds of draws. -/
structure Generator (γ : Type) where
  seeded : Option ℤ → γ
  randrange (n : ℕ) [NeZero n] : γ → Fin n × γ
  random : γ → ℚ × γ

section Paths

variable {K : Type} [Field K] [LinearOrder K] {γ : Type} (gen : Generator γ) {n : ℕ}

/-- The inner loop of `survival_probability`: whether the equity stays above the kill floor. -/
def pathAlive (rs : Fin n → K) (leverage killFloor : K) : K → List (Fin n) → Bool
  | _, [] => true
  | equity, i :: rest =>
    let equity := equity * (1 + rs i * leverage)
    if equity ≤ killFloor ∨ equity ≤ 0 then false else pathAlive rs leverage killFloor equity rest

variable [NeZero n]

/-- The loop of `_stationary_path`: a new block with probability `newBlockP`, else one step on. -/
def stationarySteps (newBlockP : ℚ) : ℕ → Fin n → γ → List (Fin n) × γ
  | 0, _, rng => ([], rng)
  | steps + 1, last, rng =>
    let (u, rng) := gen.random rng
    let (i, rng) := if u < newBlockP then gen.randrange n rng else (last + 1, rng)
    let (rest, rng) := stationarySteps newBlockP steps i rng
    (i :: rest, rng)

def stationaryPath (outputLen : ℕ) (newBlockP : ℚ) (rng : γ) : List (Fin n) × γ :=
  let (first, rng) := gen.randrange n rng
  let (rest, rng) := stationarySteps gen newBlockP (outputLen - 1) first rng
  (first :: rest, rng)

def survivors (rs : Fin n → K) (leverage killFloor : K) (newBlockP : ℚ) (horizon : ℕ) :
    ℕ → γ → ℕ → ℕ
  | 0, _, survived => survived
  | paths + 1, rng, survived =>
    let (path, rng) := stationaryPath gen horizon newBlockP rng
    survivors rs leverage killFloor newBlockP horizon paths rng
      (if pathAlive rs leverage killFloor 1 path then survived + 1 else survived)

end Paths

def survivalProbability {K : Type} [Field K] [LinearOrder K] [FloorRing K] {γ : Type}
    (math : SelectionModule K) (gen : Generator γ) (returns : List K) (leverage : K) (horizon nPaths : ℕ)
    (killSwitchDd : K) (blockLength : Option ℤ) (seed : Option ℤ) : Except (SurvivalFailure K) K :=
  if leverage < 0 then throw (.leverage leverage)
  else if horizon < 1 then throw (.horizon horizon)
  else if nPaths < 1 then throw (.nPaths nPaths)
  else if ¬(0 < killSwitchDd ∧ killSwitchDd < 1) then throw (.killSwitchDd killSwitchDd)
  else if hCount : returns.length < 2 then throw (.tooFewReturns returns.length)
  else
    have : NeZero returns.length := ⟨by omega⟩
    let bl := blockLength.getD (optimalBlockLength math returns)
    let bl := max 1 (min bl returns.length)
    let survived := survivors gen returns.get leverage (1 - killSwitchDd) (1 / bl) horizon nPaths
      (gen.seeded seed) 0
    pure (survived / nPaths)

/-! ## More leverage, fewer survivors -/

section Monotone

variable {K : Type} [Field K] [LinearOrder K] {n : ℕ} {rs : Fin n → K} {leverage less killFloor : K}

theorem pathAlive_cons (equity : K) (i : Fin n) (rest : List (Fin n)) :
    pathAlive rs leverage killFloor equity (i :: rest) = true ↔
      killFloor < equity * (1 + rs i * leverage) ∧ 0 < equity * (1 + rs i * leverage) ∧
        pathAlive rs leverage killFloor (equity * (1 + rs i * leverage)) rest = true := by
  rw [pathAlive]
  split
  · rename_i hDead
    simp only [Bool.false_eq_true, false_iff]
    rintro ⟨hFloor, hPos, -⟩
    exact hDead.elim (not_le.mpr hFloor) (not_le.mpr hPos)
  · rename_i hAlive
    obtain ⟨hFloor, hPos⟩ := not_or.mp hAlive
    simp [not_le.mp hFloor, not_le.mp hPos]

section Scaled

variable [IsStrictOrderedRing K] (real : K →+*o ℝ)

theorem pathAlive_of_less (hNonneg : 0 ≤ less) (hLess : less ≤ leverage) (hPos : 0 < leverage)
    (hFloor : killFloor < 1) (path : List (Fin n)) {e e' : K}
    (hKeeps : KeepsUp (real (less / leverage)) (real e) (real e'))
    (h : pathAlive rs leverage killFloor e path = true) :
    pathAlive rs less killFloor e' path = true := by
  have hReal : StrictMono real :=
    (OrderHomClass.mono real).strictMono_of_injective (RingHomClass.toRingHom real).injective
  have ht : 0 ≤ real (less / leverage) := by
    rw [← map_zero real]
    exact hReal.monotone (div_nonneg hNonneg hPos.le)
  have ht' : real (less / leverage) ≤ 1 := by
    rw [← map_one real]
    exact hReal.monotone ((div_le_one hPos).mpr hLess)
  induction path generalizing e e' with
  | nil => rfl
  | cons i rest ih =>
    obtain ⟨hAbove, hEquity, hRest⟩ := (pathAlive_cons e i rest).mp h
    have hPosE : 0 < e := hReal.lt_iff_lt.mp (by rw [map_zero]; exact hKeeps.full_pos)
    have hFactor : 0 < 1 + rs i * leverage := (mul_pos_iff_of_pos_left hPosE).mp hEquity
    have hScaled : 1 + rs i * less = 1 + less / leverage * (rs i * leverage) := by
      field_simp
    have hNext : KeepsUp (real (less / leverage)) (real (e * (1 + rs i * leverage)))
        (real (e' * (1 + rs i * less))) := by
      have hPeriod := hKeeps.period ht ht' (x := real (rs i * leverage)) (by
        rw [← map_one real, ← map_add, ← map_zero real]
        exact hReal hFactor)
      rw [hScaled]
      simpa only [map_mul, map_add, map_one] using hPeriod
    apply (pathAlive_cons e' i rest).mpr
    refine ⟨?_, ?_, ih hNext hRest⟩
    · apply hReal.lt_iff_lt.mp
      exact hNext.above_floor ht ht' (by rw [← map_one real]; exact hReal hFloor) (hReal hAbove)
    · apply hReal.lt_iff_lt.mp
      rw [map_zero]
      exact hNext.pos

end Scaled

variable [IsStrictOrderedRing K] [Archimedean K]

theorem pathAlive_antitone (hNonneg : 0 ≤ less) (hLess : less ≤ leverage) (hFloor : killFloor < 1)
    (path : List (Fin n)) (h : pathAlive rs leverage killFloor 1 path = true) :
    pathAlive rs less killFloor 1 path = true := by
  obtain ⟨real⟩ := Real.nonemptyOrderRingHom K
  rcases hLess.eq_or_lt with rfl | hLt
  · exact h
  · apply pathAlive_of_less real hNonneg hLess (hNonneg.trans_lt hLt) hFloor path _ h
    rw [map_one]
    exact .start

end Monotone

/-! ## The paths -/

section Drawn

variable {K : Type} [Field K] [LinearOrder K] {γ : Type} (gen : Generator γ) {n : ℕ} [NeZero n]

/-- The paths that are tested, one after another, at any leverage. -/
def drawnPaths (newBlockP : ℚ) (horizon : ℕ) : ℕ → γ → List (List (Fin n))
  | 0, _ => []
  | paths + 1, rng =>
    let (path, rng) := stationaryPath gen horizon newBlockP rng
    path :: drawnPaths newBlockP horizon paths rng

variable {gen}

theorem drawnPaths_succ (newBlockP : ℚ) (horizon paths : ℕ) (rng : γ) :
    (drawnPaths gen newBlockP horizon (paths + 1) rng : List (List (Fin n))) =
      (stationaryPath gen horizon newBlockP rng).1 ::
        drawnPaths gen newBlockP horizon paths
          (stationaryPath gen horizon newBlockP rng : List (Fin n) × γ).2 := rfl

theorem survivors_succ (rs : Fin n → K) (leverage killFloor : K) (newBlockP : ℚ) (horizon paths : ℕ)
    (rng : γ) (survived : ℕ) :
    survivors gen rs leverage killFloor newBlockP horizon (paths + 1) rng survived =
      survivors gen rs leverage killFloor newBlockP horizon paths
        (stationaryPath gen horizon newBlockP rng : List (Fin n) × γ).2
        (if pathAlive rs leverage killFloor 1 (stationaryPath gen horizon newBlockP rng).1 then
          survived + 1 else survived) := rfl

theorem length_stationarySteps (newBlockP : ℚ) (steps : ℕ) (last : Fin n) (rng : γ) :
    (stationarySteps gen newBlockP steps last rng).1.length = steps := by
  induction steps generalizing last rng with
  | zero => rfl
  | succ steps ih => simp only [stationarySteps, List.length_cons, ih]

theorem length_of_mem_drawnPaths {newBlockP : ℚ} {horizon : ℕ} (hHorizon : 1 ≤ horizon) {paths : ℕ}
    {rng : γ} {path : List (Fin n)} (h : path ∈ drawnPaths gen newBlockP horizon paths rng) :
    path.length = horizon := by
  induction paths generalizing rng with
  | zero => cases h
  | succ paths ih =>
    rcases List.mem_cons.mp h with rfl | hLater
    · simp only [List.length_cons, length_stationarySteps]
      omega
    · exact ih hLater

theorem length_drawnPaths (newBlockP : ℚ) (horizon paths : ℕ) (rng : γ) :
    (drawnPaths gen newBlockP horizon paths rng : List (List (Fin n))).length = paths := by
  induction paths generalizing rng with
  | zero => rfl
  | succ paths ih => rw [drawnPaths_succ, List.length_cons, ih]

theorem survivors_eq (rs : Fin n → K) (leverage killFloor : K) (newBlockP : ℚ) (horizon paths : ℕ)
    (rng : γ) (survived : ℕ) :
    survivors gen rs leverage killFloor newBlockP horizon paths rng survived =
      survived + (drawnPaths gen newBlockP horizon paths rng).countP (pathAlive rs leverage killFloor 1) := by
  induction paths generalizing rng survived with
  | zero => rfl
  | succ paths ih =>
    rw [survivors_succ, ih, drawnPaths_succ, List.countP_cons]
    split <;> omega

end Drawn

/-! ## The probability -/

section Probability

variable {K : Type} [Field K] [LinearOrder K] [FloorRing K] {γ : Type} {math : SelectionModule K}
  {gen : Generator γ} {returns : List K} {leverage less killSwitchDd : K}
  {horizon nPaths : ℕ} {blockLength seed : Option ℤ}

structure Resamplable (returns : List K) (leverage : K) (horizon nPaths : ℕ)
    (killSwitchDd : K) : Prop where
  leverage : 0 ≤ leverage
  horizon : 1 ≤ horizon
  nPaths : 1 ≤ nPaths
  kill_pos : 0 < killSwitchDd
  kill_lt : killSwitchDd < 1
  count : 2 ≤ returns.length

theorem survivalProbability_ok (h : Resamplable returns leverage horizon nPaths killSwitchDd) :
    have : NeZero returns.length := ⟨by have := h.count; omega⟩
    survivalProbability math gen returns leverage horizon nPaths killSwitchDd
        blockLength seed =
      .ok (survivors gen returns.get leverage (1 - killSwitchDd)
        (1 / (max 1 (min (blockLength.getD (optimalBlockLength math returns)) returns.length) : ℤ))
        horizon nPaths (gen.seeded seed) 0 / nPaths) := by
  have hCount := h.count
  unfold survivalProbability
  rw [if_neg (not_lt.mpr h.leverage), if_neg (not_lt.mpr h.horizon), if_neg (not_lt.mpr h.nPaths),
    if_neg (not_not.mpr ⟨h.kill_pos, h.kill_lt⟩), dif_neg (not_lt.mpr h.count)]
  rfl

/-- The share of the paths that stay alive, which does not depend on where others break off. -/
theorem survivalProbability_share (math : SelectionModule K) (gen : Generator γ)
    (hCount : 2 ≤ returns.length) (hHorizon : 1 ≤ horizon) (hPaths : 1 ≤ nPaths)
    (hKill : 0 < killSwitchDd ∧ killSwitchDd < 1) (blockLength seed : Option ℤ) :
    ∃ paths : List (List (Fin returns.length)), paths.length = nPaths ∧
      (∀ path ∈ paths, path.length = horizon) ∧
      ∀ leverage, 0 ≤ leverage →
        survivalProbability math gen returns leverage horizon nPaths killSwitchDd
          blockLength seed =
        .ok ((paths.countP (pathAlive returns.get leverage (1 - killSwitchDd) 1) : ℕ) / nPaths) := by
  have : NeZero returns.length := ⟨by omega⟩
  refine ⟨drawnPaths gen
    (1 / (max 1 (min (blockLength.getD (optimalBlockLength math returns)) returns.length) : ℤ)) horizon
    nPaths (gen.seeded seed), length_drawnPaths _ _ _ _,
    fun path hPath => length_of_mem_drawnPaths hHorizon hPath, fun leverage hLeverage => ?_⟩
  rw [survivalProbability_ok ⟨hLeverage, hHorizon, hPaths, hKill.1, hKill.2, hCount⟩, survivors_eq,
    Nat.zero_add]

variable [IsStrictOrderedRing K]

/-- A smaller position survives at least as often. -/
theorem survivalProbability_antitone
    (h : Resamplable returns leverage horizon nPaths killSwitchDd) (hNonneg : 0 ≤ less)
    (hLess : less ≤ leverage) :
    ∃ p p', survivalProbability math gen returns leverage horizon nPaths killSwitchDd
        blockLength seed = .ok p ∧
      survivalProbability math gen returns less horizon nPaths killSwitchDd
        blockLength seed = .ok p' ∧ p ≤ p' := by
  obtain ⟨paths, -, -, hShare⟩ := survivalProbability_share math gen h.count h.horizon
    h.nPaths ⟨h.kill_pos, h.kill_lt⟩ blockLength seed
  refine ⟨_, _, hShare leverage h.leverage, hShare less hNonneg, ?_⟩
  apply div_le_div_of_nonneg_right _ (Nat.cast_nonneg nPaths)
  have hFloor : 1 - killSwitchDd < 1 := sub_lt_self 1 h.kill_pos
  exact Nat.cast_le.mpr (List.countP_mono_left fun path _ => pathAlive_antitone hNonneg hLess hFloor path)

end Probability

/-- One list of paths serves every leverage, and each of them that survives at a leverage survives at
every smaller one. -/
theorem survivalProbability_leverage {γ : Type} (math : SelectionModule ℝ) (gen : Generator γ)
    {returns : List ℝ} (hCount : 2 ≤ returns.length) {horizon nPaths : ℕ} (hHorizon : 1 ≤ horizon)
    (hPaths : 1 ≤ nPaths) {killSwitchDd : ℝ} (hKill : 0 < killSwitchDd ∧ killSwitchDd < 1)
    (blockLength seed : Option ℤ) :
    ∃ paths : List (List (Fin returns.length)), paths.length = nPaths ∧
      (∀ path ∈ paths, path.length = horizon) ∧
      (∀ leverage, 0 ≤ leverage →
        survivalProbability math gen returns leverage horizon nPaths killSwitchDd
          blockLength seed =
        .ok ((paths.countP (pathAlive returns.get leverage (1 - killSwitchDd) 1) : ℕ) / nPaths)) ∧
      ∀ less leverage, 0 ≤ less → less ≤ leverage →
        (∀ path, pathAlive returns.get leverage (1 - killSwitchDd) 1 path = true →
          pathAlive returns.get less (1 - killSwitchDd) 1 path = true) ∧
        ∃ p p', survivalProbability math gen returns leverage horizon nPaths killSwitchDd
            blockLength seed = .ok p ∧
          survivalProbability math gen returns less horizon nPaths killSwitchDd
            blockLength seed = .ok p' ∧ p ≤ p' := by
  obtain ⟨paths, hLength, hHorizons, hShare⟩ :=
    survivalProbability_share math gen hCount hHorizon hPaths hKill blockLength seed
  refine ⟨paths, hLength, hHorizons, hShare, fun less leverage hNonneg hLess => ⟨fun path => ?_, ?_⟩⟩
  · exact pathAlive_antitone hNonneg hLess (sub_lt_self 1 hKill.1) path
  · exact survivalProbability_antitone
      ⟨hNonneg.trans hLess, hHorizon, hPaths, hKill.1, hKill.2, hCount⟩ hNonneg hLess

/-- A generator that counts: blocks start one after another, every draw is one half. -/
def counting : Generator ℕ where
  seeded seed := (seed.getD 0).toNat
  randrange n _ rng := (Fin.ofNat n rng, rng + 1)
  random rng := (1 / 2, rng + 1)

/-- Three days of returns, one of them a crash, held once and twice over. -/
theorem survivalProbability_leverage_crash : ∃ p p' : ℝ,
    survivalProbability realSelection counting [1 / 100, -1 / 5, 1 / 50] 2 10 100 (3 / 10) none (some 7) =
        .ok p ∧
      survivalProbability realSelection counting [1 / 100, -1 / 5, 1 / 50] 1 10 100 (3 / 10) none
          (some 7) = .ok p' ∧ p ≤ p' := by
  have hCount : 2 ≤ [(1 : ℝ) / 100, -1 / 5, 1 / 50].length := by decide
  have hKill : (0 : ℝ) < 3 / 10 ∧ (3 : ℝ) / 10 < 1 := by norm_num
  obtain ⟨-, -, -, -, hLess⟩ := survivalProbability_leverage realSelection counting hCount
    (by decide : 1 ≤ 10) (by decide : 1 ≤ 100) hKill none (some 7)
  exact (hLess 1 2 zero_le_one one_le_two).2

end Futur3.Execution
