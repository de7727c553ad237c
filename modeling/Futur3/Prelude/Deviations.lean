import Mathlib.Algebra.BigOperators.Ring.List
import Mathlib.Algebra.Order.BigOperators.Group.List
import Mathlib.Algebra.Order.Field.Basic
import Mathlib.Analysis.Real.Sqrt
import Mathlib.Tactic.FieldSimp
import Mathlib.Tactic.Linarith
import Mathlib.Tactic.Ring

/-! # Means and deviations

The squared deviations of a list from its mean add up to something exactly when two of
its items differ, and grow with the square of a common factor. Filling gaps with the
mean of what there is keeps the mean.
-/

namespace Futur3.Prelude.Deviations

universe u

/-- Two of the items differ. -/
def Varies {α : Type u} (xs : List α) : Prop := ∃ x ∈ xs, ∃ y ∈ xs, x ≠ y

theorem Varies.length {α : Type u} {xs : List α} (h : Varies xs) : 2 ≤ xs.length := by
  obtain ⟨x, hx, y, hy, hDiffer⟩ := h
  match xs, hx, hy with
  | [_], hx, hy => exact absurd ((List.mem_singleton.mp hx).trans (List.mem_singleton.mp hy).symm) hDiffer
  | _ :: _ :: _, _, _ => simp

theorem varies_map {α β : Type u} {f : α → β} (hf : Function.Injective f) {xs : List α} :
    Varies (xs.map f) ↔ Varies xs := by
  constructor
  · rintro ⟨_, hImage, _, hImage', hDiffer⟩
    obtain ⟨x, hx, rfl⟩ := List.mem_map.mp hImage
    obtain ⟨y, hy, rfl⟩ := List.mem_map.mp hImage'
    exact ⟨x, hx, y, hy, fun hSame => hDiffer (congrArg f hSame)⟩
  · rintro ⟨x, hx, y, hy, hDiffer⟩
    exact ⟨f x, List.mem_map_of_mem hx, f y, List.mem_map_of_mem hy, hf.ne hDiffer⟩

section Field

variable {K : Type u} [Field K]

def mean (xs : List K) : K := xs.sum / xs.length

def squares (xs : List K) : K := (xs.map fun x => (x - mean xs) ^ 2).sum

theorem mean_scaled (c : K) (xs : List K) : mean (xs.map fun x => c * x) = c * mean xs := by
  have hSum : (xs.map fun x => c * x).sum = c * xs.sum := by
    simpa using List.sum_map_mul_left xs (fun x => x) c
  rw [mean, mean, hSum, List.length_map, mul_div_assoc]

theorem squares_scaled (c : K) (xs : List K) :
    squares (xs.map fun x => c * x) = c ^ 2 * squares xs := by
  unfold squares
  rw [mean_scaled, List.map_map, ← List.sum_map_mul_left]
  refine congrArg List.sum (List.map_congr_left fun x _ => ?_)
  simp only [Function.comp_apply]
  ring

theorem sum_getD (m : K) (xs : List (Option K)) :
    (xs.map fun x => x.getD m).sum =
      (xs.filterMap id).sum + (xs.length - (xs.filterMap id).length) * m := by
  induction xs with
  | nil => simp
  | cons x rest ih =>
    cases x with
    | none =>
      simp only [List.map_cons, List.sum_cons, ih, Option.getD_none, List.filterMap_cons_none (f := id) rfl,
        List.length_cons]
      push_cast
      ring
    | some y =>
      simp only [List.map_cons, List.sum_cons, ih, Option.getD_some,
        List.filterMap_cons_some (f := id) rfl, List.length_cons]
      push_cast
      ring

variable [CharZero K]

theorem length_ne_zero {xs : List K} (h : xs ≠ []) : (xs.length : K) ≠ 0 :=
  Nat.cast_ne_zero.mpr (List.length_pos_of_ne_nil h).ne'

theorem mean_mul_length (xs : List K) : mean xs * xs.length = xs.sum := by
  rcases eq_or_ne xs [] with rfl | h
  · simp
  · exact div_mul_cancel₀ _ (length_ne_zero h)

theorem mean_getD {xs : List (Option K)} (h : xs.filterMap id ≠ []) :
    mean (xs.map fun x => x.getD (mean (xs.filterMap id))) = mean (xs.filterMap id) := by
  have hLength : (xs.length : K) ≠ 0 := by
    apply Nat.cast_ne_zero.mpr
    rintro hZero
    rw [List.length_eq_zero_iff.mp hZero] at h
    exact h rfl
  have hSum := mean_mul_length (xs.filterMap id)
  rw [mean, sum_getD, List.length_map, div_eq_iff hLength, ← hSum]
  ring

theorem mean_const {xs : List K} {c : K} (hNil : xs ≠ []) (h : ∀ x ∈ xs, x = c) : mean xs = c := by
  rw [mean, List.eq_replicate_of_mem h, List.sum_replicate, List.length_replicate, nsmul_eq_mul]
  exact mul_div_cancel_left₀ c (length_ne_zero hNil)

end Field

section Ordered

variable {K : Type u} [Field K] [LinearOrder K] [IsStrictOrderedRing K]

theorem squares_nonneg (xs : List K) : 0 ≤ squares xs := by
  apply List.sum_nonneg
  rw [List.forall_mem_map]
  exact fun x _ => sq_nonneg _

theorem squares_pos_iff {xs : List K} : 0 < squares xs ↔ Varies xs := by
  rw [lt_iff_le_and_ne, and_iff_right (squares_nonneg xs), ← not_iff_not, not_not, eq_comm]
  constructor
  · rintro hZero ⟨x, hx, y, hy, hDiffer⟩
    have hEach : ∀ z ∈ xs, z = mean xs := by
      intro z hz
      have hSquare := List.all_zero_of_le_zero_le_of_sum_eq_zero
        (List.forall_mem_map.mpr fun w _ => sq_nonneg (w - mean xs)) hZero
        (List.mem_map_of_mem (f := fun w => (w - mean xs) ^ 2) hz)
      exact sub_eq_zero.mp (pow_eq_zero_iff two_ne_zero |>.mp hSquare)
    exact hDiffer ((hEach x hx).trans (hEach y hy).symm)
  · intro hSame
    apply List.sum_eq_zero
    rw [List.forall_mem_map]
    intro x hx
    have hAll : ∀ y ∈ xs, y = x := fun y hy => by
      by_contra hDiffer
      exact hSame ⟨y, hy, x, hx, hDiffer⟩
    rw [mean_const (List.ne_nil_of_mem hx) hAll, sub_self, zero_pow two_ne_zero]

/-- The variance of the sample. -/
theorem Varies.variance_pos {xs : List K} (h : Varies xs) : 0 < squares xs / (xs.length - 1) := by
  have hLength := h.length
  have hCount : (0 : K) < xs.length - 1 := by
    rw [sub_pos]
    exact_mod_cast hLength
  exact div_pos (squares_pos_iff.mpr h) hCount

theorem variance_of_same {xs : List K} (h : ¬Varies xs) : squares xs / (xs.length - 1) = 0 := by
  have hZero : squares xs = 0 := le_antisymm (not_lt.mp (mt squares_pos_iff.mp h)) (squares_nonneg xs)
  rw [hZero, zero_div]

/-! ## Square roots -/

structure IsSqrt (sqrt : K → K) : Prop where
  nonneg : ∀ x, 0 ≤ x → 0 ≤ sqrt x
  square : ∀ x, 0 ≤ x → sqrt x * sqrt x = x

omit [IsStrictOrderedRing K] in
theorem IsSqrt.pos {sqrt : K → K} (h : IsSqrt sqrt) {x : K} (hx : 0 < x) : 0 < sqrt x := by
  apply (h.nonneg x hx.le).lt_of_ne
  intro hZero
  have hSquare := h.square x hx.le
  rw [← hZero, zero_mul] at hSquare
  exact hx.ne hSquare

theorem IsSqrt.mono {sqrt : K → K} (h : IsSqrt sqrt) {x y : K} (hx : 0 ≤ x) (hOrder : x ≤ y) : sqrt x ≤ sqrt y := by
  rw [mul_self_le_mul_self_iff (h.nonneg x hx) (h.nonneg y (hx.trans hOrder)), h.square x hx,
    h.square y (hx.trans hOrder)]
  exact hOrder

theorem IsSqrt.scaled {sqrt : K → K} (h : IsSqrt sqrt) {c x : K} (hc : 0 ≤ c) (hx : 0 ≤ x) :
    sqrt (c ^ 2 * x) = c * sqrt x := by
  have hProduct : 0 ≤ c ^ 2 * x := mul_nonneg (sq_nonneg c) hx
  apply (mul_self_inj (h.nonneg _ hProduct) (mul_nonneg hc (h.nonneg x hx))).mp
  rw [h.square _ hProduct, mul_mul_mul_comm, h.square x hx, sq]

end Ordered

theorem isSqrt_real : IsSqrt Real.sqrt :=
  ⟨fun x _ => Real.sqrt_nonneg x, fun _ hx => Real.mul_self_sqrt hx⟩

end Futur3.Prelude.Deviations
