import Futur3.Prelude.Deviations
import Mathlib.Tactic.LinearCombination

/-! # Central moments

The moments of a list about its mean. The fourth bounds the third, with equality exactly
when the list takes no more than two values.
-/

namespace Futur3.Prelude.Deviations

universe u

section Field

variable {K : Type u} [Field K] {α : Type u}

def average (f : α → K) (xs : List α) : K := (xs.map f).sum / xs.length

def centralMoment (xs : List K) (order : ℕ) : K := average (fun x => (x - mean xs) ^ order) xs

variable {f g : α → K} {xs : List α}

theorem average_add : average (fun x => f x + g x) xs = average f xs + average g xs := by
  rw [average, List.sum_map_add, add_div, average, average]

theorem average_mul_left (c : K) : average (fun x => c * f x) xs = c * average f xs := by
  rw [average, List.sum_map_mul_left, mul_div_assoc, average]

theorem average_sub : average (fun x => f x - g x) xs = average f xs - average g xs := by
  have hNeg : average (fun x => -g x) xs = -average g xs := by
    have hScaled : average (fun x => -1 * g x) xs = -1 * average g xs := average_mul_left (-1)
    simpa using hScaled
  simp only [sub_eq_add_neg, average_add, hNeg]

theorem average_congr (h : ∀ x ∈ xs, f x = g x) : average f xs = average g xs := by
  rw [average, List.map_congr_left h, average]

theorem centralMoment_scaled (c : K) (xs : List K) (order : ℕ) :
    centralMoment (xs.map fun x => c * x) order = c ^ order * centralMoment xs order := by
  rw [centralMoment, centralMoment, ← average_mul_left, average, average, List.map_map, List.length_map,
    mean_scaled]
  simp only [Function.comp_def, ← mul_sub, mul_pow]

theorem centralMoment_two (xs : List K) : centralMoment xs 2 = squares xs / xs.length := rfl

variable [CharZero K]

theorem average_const (hNil : xs ≠ []) (c : K) : average (fun _ => c) xs = c := by
  have hLength : (xs.length : K) ≠ 0 := Nat.cast_ne_zero.mpr (List.length_pos_of_ne_nil hNil).ne'
  rw [average, List.map_const', List.sum_replicate, nsmul_eq_mul, mul_div_cancel_left₀ c hLength]

theorem centralMoment_one {xs : List K} (hNil : xs ≠ []) : average (fun x => x - mean xs) xs = 0 := by
  have hMean : average (fun x => x) xs = mean xs := by
    rw [average, mean, List.map_id']
  rw [average_sub, average_const hNil, hMean, sub_self]

/-- The mean square of a deviation and its square, weighted. -/
theorem average_square {xs : List K} (hNil : xs ≠ []) (a b : K) :
    average (fun x => (a * (x - mean xs) + b * ((x - mean xs) ^ 2 - centralMoment xs 2)) ^ 2) xs =
      a ^ 2 * centralMoment xs 2 + 2 * a * b * centralMoment xs 3 +
        b ^ 2 * (centralMoment xs 4 - centralMoment xs 2 ^ 2) := by
  have hExpand : ∀ x, (a * (x - mean xs) + b * ((x - mean xs) ^ 2 - centralMoment xs 2)) ^ 2 =
      (a ^ 2 - 2 * b ^ 2 * centralMoment xs 2) * (x - mean xs) ^ 2 + 2 * a * b * (x - mean xs) ^ 3 +
        b ^ 2 * (x - mean xs) ^ 4 - 2 * a * b * centralMoment xs 2 * (x - mean xs) +
        (b * centralMoment xs 2) ^ 2 := by
    intro x
    ring
  simp only [hExpand, average_add, average_sub, average_mul_left, average_const hNil, centralMoment_one hNil]
  simp only [centralMoment]
  ring

end Field

section Ordered

variable {K : Type u} [Field K] [LinearOrder K] [IsStrictOrderedRing K] {xs : List K}

theorem average_nonneg {α : Type u} {f : α → K} {xs : List α} (h : ∀ x ∈ xs, 0 ≤ f x) : 0 ≤ average f xs :=
  div_nonneg (List.sum_nonneg (List.forall_mem_map.mpr h)) (Nat.cast_nonneg _)

theorem average_eq_zero_iff {α : Type u} {f : α → K} {xs : List α} (h : ∀ x ∈ xs, 0 ≤ f x) :
    average f xs = 0 ↔ ∀ x ∈ xs, f x = 0 := by
  rcases eq_or_ne xs [] with rfl | hNil
  · simp [average]
  · have hLength : (xs.length : K) ≠ 0 := Nat.cast_ne_zero.mpr (List.length_pos_of_ne_nil hNil).ne'
    rw [average, div_eq_zero_iff, or_iff_left hLength]
    constructor
    · intro hZero x hx
      exact List.all_zero_of_le_zero_le_of_sum_eq_zero (List.forall_mem_map.mpr h) hZero
        (List.mem_map_of_mem hx)
    · exact fun hZero => List.sum_eq_zero (List.forall_mem_map.mpr hZero)

omit [Field K] [LinearOrder K] [IsStrictOrderedRing K] in
theorem Varies.ne_nil (h : Varies xs) : xs ≠ [] := by
  rintro rfl
  obtain ⟨_, hx, -⟩ := h
  cases hx

theorem centralMoment_two_pos_iff : 0 < centralMoment xs 2 ↔ Varies xs := by
  rw [← squares_pos_iff, centralMoment_two]
  rcases eq_or_ne xs [] with rfl | hNil
  · simp [squares]
  · have hLength : (0 : K) < xs.length := Nat.cast_pos.mpr (List.length_pos_of_ne_nil hNil)
    rw [div_pos_iff_of_pos_right hLength]

/-- A list with two values has the least fourth moment for its third. -/
theorem sq_centralMoment_three_eq (hNil : xs ≠ []) {a b : K} (h : ∀ x ∈ xs, x = a ∨ x = b) :
    centralMoment xs 3 ^ 2 = centralMoment xs 2 * (centralMoment xs 4 - centralMoment xs 2 ^ 2) := by
  -- both deviations solve one quadratic equation
  have hRoot : ∀ x ∈ xs, (x - mean xs) ^ 2 =
      (a + b - 2 * mean xs) * (x - mean xs) - (a - mean xs) * (b - mean xs) := by
    intro x hx
    rcases h x hx with rfl | rfl <;> ring
  have hTwo : centralMoment xs 2 = -((a - mean xs) * (b - mean xs)) := by
    rw [centralMoment, average_congr hRoot, average_sub, average_mul_left, average_const hNil,
      centralMoment_one hNil]
    ring
  have hThree : centralMoment xs 3 = (a + b - 2 * mean xs) * centralMoment xs 2 := by
    have hCube : ∀ x ∈ xs, (x - mean xs) ^ 3 =
        (a + b - 2 * mean xs) * (x - mean xs) ^ 2 - (a - mean xs) * (b - mean xs) * (x - mean xs) := by
      intro x hx
      linear_combination (x - mean xs) * hRoot x hx
    rw [centralMoment, average_congr hCube, average_sub, average_mul_left, average_mul_left,
      centralMoment_one hNil, mul_zero, sub_zero, centralMoment]
  have hFour : centralMoment xs 4 =
      (a + b - 2 * mean xs) * centralMoment xs 3 - (a - mean xs) * (b - mean xs) * centralMoment xs 2 := by
    have hPower : ∀ x ∈ xs, (x - mean xs) ^ 4 = (a + b - 2 * mean xs) * (x - mean xs) ^ 3 -
        (a - mean xs) * (b - mean xs) * (x - mean xs) ^ 2 := by
      intro x hx
      linear_combination (x - mean xs) ^ 2 * hRoot x hx
    rw [centralMoment, average_congr hPower, average_sub, average_mul_left, average_mul_left, centralMoment,
      centralMoment]
  rw [hFour, hThree]
  linear_combination centralMoment xs 2 ^ 2 * hTwo

end Ordered

end Futur3.Prelude.Deviations
