import Mathlib.Algebra.Order.Floor.Ring
import Mathlib.Data.Int.Log
import Mathlib.Tactic.FieldSimp
import Mathlib.Tactic.Linarith
import Mathlib.Tactic.Ring

/-! # Rounding to so many binary digits

To the nearest number of a binary precision, a tie to the even last digit, with
no bound on the exponent. Below the largest whole numbers of the precision the
whole part stays as it is, unless the number lies within half a unit in the
last place of the next whole number.
-/

namespace Futur3.Prelude

section

variable {R : Type*} [Field R] [LinearOrder R] [FloorRing R]

def roundHalfEven (x : R) : ℤ :=
  if Int.fract x < 1 - Int.fract x ∨ Int.fract x = 1 - Int.fract x ∧ Even ⌊x⌋ then ⌊x⌋ else ⌊x⌋ + 1

/-- The unit in the last place of a number with `p` binary digits. -/
def lastPlace (p : ℕ) (x : R) : R := (2 : ℕ) ^ (Int.log 2 |x| - (p - 1 : ℤ))

def roundToPrecision (p : ℕ) (x : R) : R := roundHalfEven (x / lastPlace p x) * lastPlace p x

def nearestDouble (x : R) : R := roundToPrecision 53 x

theorem le_roundHalfEven {n : ℤ} {x : R} (h : (n : R) ≤ x) : n ≤ roundHalfEven x := by
  have hFloor : n ≤ ⌊x⌋ := Int.le_floor.mpr h
  unfold roundHalfEven
  split_ifs <;> omega

variable [IsStrictOrderedRing R]

theorem roundHalfEven_le {n : ℤ} {x : R} (h : x ≤ n) : roundHalfEven x ≤ n := by
  unfold roundHalfEven
  split_ifs with hDown
  · exact Int.floor_le_iff.mpr (h.trans_lt (lt_add_one _))
  · rcases h.lt_or_eq with hLt | rfl
    · exact Int.floor_lt.mpr hLt
    · simp at hDown

/-- An even number is reached from half a unit below on. -/
theorem even_le_roundHalfEven_iff {n : ℤ} {x : R} (hEven : Even n) :
    n ≤ roundHalfEven x ↔ (n : R) ≤ x + 1 / 2 := by
  have hSplit := Int.floor_add_fract x
  have hFract := Int.fract_lt_one x
  have hNonneg := Int.fract_nonneg x
  rcases lt_trichotomy n (⌊x⌋ + 1) with hLt | rfl | hGt
  · have hBelow : (n : R) ≤ x := Int.le_floor.mp (Int.lt_add_one_iff.mp hLt)
    exact iff_of_true (le_roundHalfEven hBelow) (by linarith)
  · have hOdd : ¬Even ⌊x⌋ := Int.not_even_iff_odd.mpr (by simpa using hEven.sub_odd odd_one)
    unfold roundHalfEven
    push_cast
    split_ifs with hDown
    · refine iff_of_false (by omega) (not_le.mpr ?_)
      have := hDown.resolve_right fun h => hOdd h.2
      linarith
    · have := not_lt.mp (not_or.mp hDown).1
      exact iff_of_true le_rfl (by linarith)
  · have hAbove : ((⌊x⌋ + 2 : ℤ) : R) ≤ n := Int.cast_le.mpr (by omega)
    push_cast at hAbove
    refine iff_of_false ?_ (by linarith)
    have hUp : roundHalfEven x ≤ ⌊x⌋ + 1 := by
      apply roundHalfEven_le
      push_cast
      linarith
    omega

theorem lastPlace_pos (p : ℕ) (x : R) : 0 < lastPlace p x := zpow_pos two_pos _

/-- A whole number is a whole even number of last places of a small enough number. -/
theorem exists_even_mul_lastPlace {p : ℕ} {x : R} (hx : 0 < x) (hLog : Int.log 2 x + 2 ≤ p)
    (n : ℤ) : ∃ m : ℤ, Even m ∧ (m : R) * lastPlace p x = n := by
  obtain ⟨k, hk⟩ : ∃ k : ℕ, (p : ℤ) - 1 - Int.log 2 x = k + 1 :=
    ⟨((p : ℤ) - 2 - Int.log 2 x).toNat, by omega⟩
  refine ⟨n * 2 ^ (k + 1), ⟨n * 2 ^ k, by ring⟩, ?_⟩
  have hPlace : lastPlace p x = (2 ^ (k + 1) : R)⁻¹ := by
    unfold lastPlace
    rw [abs_of_pos hx, ← zpow_natCast, ← zpow_neg]
    congr 1
    push_cast
    omega
  rw [hPlace]
  push_cast
  field_simp

theorem le_roundToPrecision {p : ℕ} {x : R} (hx : 0 < x) (hLog : Int.log 2 x + 2 ≤ p) {n : ℤ}
    (h : (n : R) ≤ x) : (n : R) ≤ roundToPrecision p x := by
  have hPos := lastPlace_pos p x
  obtain ⟨m, -, hm⟩ := exists_even_mul_lastPlace hx hLog n
  have hPlaces : (m : R) ≤ x / lastPlace p x := by rwa [le_div_iff₀ hPos, hm]
  unfold roundToPrecision
  rw [← hm]
  exact mul_le_mul_of_nonneg_right (Int.cast_le.mpr (le_roundHalfEven hPlaces)) hPos.le

theorem roundToPrecision_le {p : ℕ} {x : R} (hx : 0 < x) (hLog : Int.log 2 x + 2 ≤ p) {n : ℤ}
    (h : x ≤ n) : roundToPrecision p x ≤ n := by
  have hPos := lastPlace_pos p x
  obtain ⟨m, -, hm⟩ := exists_even_mul_lastPlace hx hLog n
  have hPlaces : x / lastPlace p x ≤ m := by rwa [div_le_iff₀ hPos, hm]
  unfold roundToPrecision
  rw [← hm]
  exact mul_le_mul_of_nonneg_right (Int.cast_le.mpr (roundHalfEven_le hPlaces)) hPos.le

/-- A whole number is reached from half a last place below on. -/
theorem le_roundToPrecision_iff {p : ℕ} {x : R} (hx : 0 < x) (hLog : Int.log 2 x + 2 ≤ p) {n : ℤ} :
    (n : R) ≤ roundToPrecision p x ↔ n - x ≤ 2 ^ (Int.log 2 x - p) := by
  have hPos := lastPlace_pos p x
  obtain ⟨m, hEven, hm⟩ := exists_even_mul_lastPlace hx hLog n
  have hHalf : lastPlace p x / 2 = 2 ^ (Int.log 2 x - p) := by
    unfold lastPlace
    rw [abs_of_pos hx, div_eq_iff two_ne_zero, ← zpow_add_one₀ two_ne_zero]
    congr 1
    omega
  unfold roundToPrecision
  rw [← hm, mul_le_mul_iff_left₀ hPos, Int.cast_le, even_le_roundHalfEven_iff hEven, ← hHalf,
    div_add_div _ _ hPos.ne' two_ne_zero, le_div_iff₀ (by positivity), hm]
  constructor <;> intro h <;> linarith

/-- The whole part of the rounded number. -/
theorem floor_roundToPrecision {p : ℕ} {x : R} (hx : 0 < x) (hLog : Int.log 2 x + 2 ≤ p) :
    ⌊roundToPrecision p x⌋ = if 1 - Int.fract x ≤ 2 ^ (Int.log 2 x - p) then ⌊x⌋ + 1 else ⌊x⌋ := by
  have hSplit := Int.floor_add_fract x
  have hNext : 1 - Int.fract x = ((⌊x⌋ + 1 : ℤ) : R) - x := by
    push_cast
    linarith
  have hLow := le_roundToPrecision hx hLog (Int.floor_le x)
  have hHigh : roundToPrecision p x ≤ ((⌊x⌋ + 1 : ℤ) : R) := by
    apply roundToPrecision_le hx hLog
    push_cast
    exact (Int.lt_floor_add_one x).le
  have hReach := le_roundToPrecision_iff hx hLog (n := ⌊x⌋ + 1)
  rw [← hNext] at hReach
  split_ifs with hNear
  · exact Int.floor_eq_iff.mpr ⟨hReach.mpr hNear, hHigh.trans_lt (lt_add_one _)⟩
  · refine Int.floor_eq_iff.mpr ⟨hLow, ?_⟩
    have hShort := not_le.mp (mt hReach.mp hNear)
    push_cast at hShort
    exact hShort

end

end Futur3.Prelude
