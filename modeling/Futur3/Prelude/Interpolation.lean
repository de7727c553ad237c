import Mathlib.Algebra.Order.Field.Basic
import Mathlib.Algebra.Order.Floor.Ring
import Mathlib.Tactic.Linarith
import Mathlib.Tactic.Ring

/-! # Interpolation between the values of a sequence

The values at whole positions are joined by straight lines. Along a sequence that does
not decrease the line does not decrease; read from the other end with the signs changed,
the line is read from the other end with its sign changed.
-/

namespace Futur3.Prelude.Interpolation

universe u

variable {K : Type u} [Field K] [LinearOrder K] [FloorRing K]

/-- The value at a position up to the last one, `top`. -/
def interpolate (f : ℕ → K) (top : ℕ) (h : K) : K :=
  f ⌊h⌋.toNat + (h - ⌊h⌋) * (f (min (⌊h⌋ + 1) (top : ℤ)).toNat - f ⌊h⌋.toNat)

theorem interpolate_affine (a b : K) (f : ℕ → K) (top : ℕ) (h : K) :
    interpolate (fun i => a * f i + b) top h = a * interpolate f top h + b := by
  unfold interpolate
  ring

variable [IsStrictOrderedRing K] {f g : ℕ → K} {top : ℕ} {h h' : K}

theorem exists_cell (hTop : 0 < top) (hLow : 0 ≤ h) (hHigh : h ≤ top) :
    ∃ i < top, (i : K) ≤ h ∧ h ≤ (i + 1 : ℕ) := by
  rcases hHigh.eq_or_lt with rfl | hInside
  · exact ⟨top - 1, by omega, Nat.cast_le.mpr (by omega), Nat.cast_le.mpr (by omega)⟩
  · obtain ⟨i, hi⟩ := Int.eq_ofNat_of_zero_le (Int.floor_nonneg.mpr hLow)
    have hFloor : (i : K) ≤ h ∧ h < i + 1 := by
      have hEq := Int.floor_eq_iff.mp hi
      exact_mod_cast hEq
    refine ⟨i, ?_, hFloor.1, by push_cast; exact hFloor.2.le⟩
    exact_mod_cast hFloor.1.trans_lt hInside

/-- Both cells that meet at a position agree on its value. -/
theorem interpolate_of_cell {i : ℕ} (hi : i < top) (hLow : (i : K) ≤ h) (hHigh : h ≤ (i + 1 : ℕ)) :
    interpolate f top h = f i + (h - i) * (f (i + 1) - f i) := by
  rcases hHigh.eq_or_lt with rfl | hInside
  · have hFloor : ⌊((i + 1 : ℕ) : K)⌋ = ((i + 1 : ℕ) : ℤ) := Int.floor_natCast _
    rw [interpolate, hFloor, Int.toNat_natCast, Int.cast_natCast, sub_self, zero_mul, add_zero]
    push_cast
    ring
  · have hFloor : ⌊h⌋ = (i : ℤ) := by
      rw [Int.floor_eq_iff]
      push_cast at hInside ⊢
      exact ⟨hLow, hInside⟩
    have hNext : (min ((i : ℤ) + 1) (top : ℤ)).toNat = i + 1 := by omega
    rw [interpolate, hFloor, hNext, Int.toNat_natCast, Int.cast_natCast]

theorem interpolate_zero (hTop : 0 < top) : interpolate f top 0 = f 0 := by
  rw [interpolate_of_cell hTop (by simp) (by simp)]
  simp

theorem interpolate_top (hTop : 0 < top) : interpolate f top top = f top := by
  obtain ⟨i, rfl⟩ := Nat.exists_eq_add_of_le' hTop
  rw [interpolate_of_cell (i := i) (by omega) (Nat.cast_le.mpr (by omega)) le_rfl]
  push_cast
  ring

theorem interpolate_congr (hTop : 0 < top) (hSame : ∀ i ≤ top, f i = g i) (hLow : 0 ≤ h) (hHigh : h ≤ top) :
    interpolate f top h = interpolate g top h := by
  obtain ⟨i, hi, hFrom, hTo⟩ := exists_cell hTop hLow hHigh
  rw [interpolate_of_cell hi hFrom hTo, interpolate_of_cell hi hFrom hTo, hSame i (by omega),
    hSame (i + 1) (by omega)]

theorem interpolate_reflect (hTop : 0 < top) (hLow : 0 ≤ h) (hHigh : h ≤ top) :
    interpolate (fun i => -f (top - i)) top h = -interpolate f top (top - h) := by
  obtain ⟨i, hi, hFrom, hTo⟩ := exists_cell hTop hLow hHigh
  obtain ⟨j, rfl⟩ := Nat.exists_eq_add_of_lt hi
  -- the cell from `i` to `i + 1` is the one from `j` to `j + 1` counted from the end
  have hCell : interpolate f (i + j + 1) ((i + j + 1 : ℕ) - h) =
      f j + ((i + j + 1 : ℕ) - h - j) * (f (j + 1) - f j) := by
    apply interpolate_of_cell (by omega)
    · push_cast at hTo ⊢
      linarith
    · push_cast at hFrom ⊢
      linarith
  rw [interpolate_of_cell hi hFrom hTo, hCell, show i + j + 1 - i = j + 1 by omega,
    show i + j + 1 - (i + 1) = j by omega]
  push_cast
  ring

section Monotone

variable (hMono : MonotoneOn f (Set.Iic top))

include hMono

theorem interpolate_within {i : ℕ} (hi : i < top) (hLow : (i : K) ≤ h) (hHigh : h ≤ (i + 1 : ℕ)) :
    f i ≤ interpolate f top h ∧ interpolate f top h ≤ f (i + 1) := by
  have hRise := sub_nonneg.mpr (hMono (Set.mem_Iic.mpr hi.le) (Set.mem_Iic.mpr hi) (Nat.le_succ i))
  have hFrom := sub_nonneg.mpr hLow
  have hTo : h - i ≤ 1 := by
    push_cast at hHigh
    linarith
  rw [interpolate_of_cell hi hLow hHigh]
  constructor
  · exact le_add_of_nonneg_right (mul_nonneg hFrom hRise)
  · have hPart := mul_le_of_le_one_left hRise hTo
    linarith

theorem interpolate_mono (hTop : 0 < top) (hLow : 0 ≤ h) (hLe : h ≤ h') (hHigh : h' ≤ top) :
    interpolate f top h ≤ interpolate f top h' := by
  obtain ⟨i, hi, hFrom, hTo⟩ := exists_cell hTop hLow (hLe.trans hHigh)
  obtain ⟨j, hj, hFrom', hTo'⟩ := exists_cell hTop (hLow.trans hLe) hHigh
  rcases lt_trichotomy i j with hBefore | rfl | hAfter
  · calc interpolate f top h ≤ f (i + 1) := (interpolate_within hMono hi hFrom hTo).2
      _ ≤ f j := hMono (Set.mem_Iic.mpr hi) (Set.mem_Iic.mpr hj.le) hBefore
      _ ≤ interpolate f top h' := (interpolate_within hMono hj hFrom' hTo').1
  · rw [interpolate_of_cell hi hFrom hTo, interpolate_of_cell hi hFrom' hTo']
    have hRise := sub_nonneg.mpr (hMono (Set.mem_Iic.mpr hi.le) (Set.mem_Iic.mpr hi) (Nat.le_succ i))
    have hPart := mul_le_mul_of_nonneg_right (sub_le_sub_right hLe (i : K)) hRise
    linarith
  · -- only where both positions are the one at which the cells meet
    have hSame : h = h' := by
      apply le_antisymm hLe
      exact hTo'.trans ((Nat.cast_le.mpr hAfter).trans hFrom)
    rw [hSame]

theorem interpolate_bounds (hTop : 0 < top) (hLow : 0 ≤ h) (hHigh : h ≤ top) :
    f 0 ≤ interpolate f top h ∧ interpolate f top h ≤ f top := by
  have hFirst := interpolate_mono hMono hTop le_rfl hLow hHigh
  have hLast := interpolate_mono hMono hTop hLow hHigh le_rfl
  rw [interpolate_zero hTop] at hFirst
  rw [interpolate_top hTop] at hLast
  exact ⟨hFirst, hLast⟩

end Monotone

end Futur3.Prelude.Interpolation
