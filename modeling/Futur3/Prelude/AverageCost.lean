import Mathlib.Algebra.Field.Basic
import Mathlib.Algebra.BigOperators.Group.List.Basic
import Mathlib.Algebra.Order.Group.Unbundled.Abs
import Mathlib.Data.Int.Cast.Lemmas
import Mathlib.Algebra.Order.Group.Int
import Mathlib.Tactic.Ring

/-! # Average-cost books against the raw tape

A tape lists executions. A book keeps for one instrument a signed quantity, an
average entry price and a realized result. At every mark, the book's realized
plus unrealized result is the gain of the tape that produced it.
-/

namespace Futur3.Prelude

universe u v

/-- One execution: positive quantities buy, negative quantities sell. -/
@[ext]
structure Execution (κ : Type u) (K : Type v) where
  contract : κ
  quantity : ℤ
  price : K
deriving DecidableEq

namespace Tape

variable {κ : Type u} {K : Type v} [DecidableEq κ] [Field K]

def netQuantity (tape : List (Execution κ K)) (c : κ) : ℤ :=
  ((tape.filter (fun e => decide (e.contract = c))).map Execution.quantity).sum

/-- The gain at a mark price of everything executed in one contract. -/
def gain (tape : List (Execution κ K)) (c : κ) (mark : K) : K :=
  ((tape.filter (fun e => decide (e.contract = c))).map fun e => (mark - e.price) * e.quantity).sum

omit [Field K] in
@[simp] theorem netQuantity_nil (c : κ) : netQuantity ([] : List (Execution κ K)) c = 0 := rfl

@[simp] theorem gain_nil (c : κ) (mark : K) : gain ([] : List (Execution κ K)) c mark = 0 := rfl

omit [Field K] in
theorem netQuantity_append (s t : List (Execution κ K)) (c : κ) :
    netQuantity (s ++ t) c = netQuantity s c + netQuantity t c := by
  simp [netQuantity]

theorem gain_append (s t : List (Execution κ K)) (c : κ) (mark : K) :
    gain (s ++ t) c mark = gain s c mark + gain t c mark := by
  simp [gain]

omit [Field K] in
theorem netQuantity_singleton (e : Execution κ K) (c : κ) :
    netQuantity [e] c = if e.contract = c then e.quantity else 0 := by
  by_cases h : e.contract = c <;> simp [netQuantity, h]

theorem gain_singleton (e : Execution κ K) (c : κ) (mark : K) :
    gain [e] c mark = if e.contract = c then (mark - e.price) * e.quantity else 0 := by
  by_cases h : e.contract = c <;> simp [gain, h]

/-- The weighted gain of a tape, contract by contract over any list of its contracts. -/
theorem sum_gain (tape : List (Execution κ K)) (contracts : List κ) (hNodup : contracts.Nodup)
    (hCover : ∀ e ∈ tape, e.contract ∈ contracts) (mark weight : κ → K) :
    (contracts.map fun c => gain tape c (mark c) * weight c).sum =
      (tape.map fun e => (mark e.contract - e.price) * e.quantity * weight e.contract).sum := by
  induction tape with
  | nil => simp
  | cons e tape ih =>
    have hRest := ih fun e' he' => hCover e' (List.mem_cons_of_mem _ he')
    have hSplit : ∀ c, gain (e :: tape) c (mark c) * weight c =
        (if c = e.contract then (mark e.contract - e.price) * e.quantity * weight e.contract else 0) +
          gain tape c (mark c) * weight c := by
      intro c
      rw [← List.singleton_append, gain_append, gain_singleton]
      by_cases h : e.contract = c
      · subst h
        simp [add_mul]
      · have h' : ¬c = e.contract := fun hc => h hc.symm
        simp [h, h']
    have hOne : (contracts.map fun c => if c = e.contract then
        (mark e.contract - e.price) * e.quantity * weight e.contract else 0).sum =
        (mark e.contract - e.price) * e.quantity * weight e.contract := by
      rw [List.sum_map_eq_nsmul_single e.contract _ fun c hc _ => if_neg hc,
        hNodup.count, if_pos (hCover e List.mem_cons_self), one_nsmul, if_pos rfl]
    rw [List.map_cons, List.sum_cons, ← hRest, ← hOne, ← List.sum_map_add]
    exact congrArg List.sum (List.map_congr_left fun c _ => hSplit c)

end Tape

namespace AverageCost

variable {K : Type v} [Field K]

/-- Adding in the direction of the position, the entry price becomes the weighted average. -/
theorem add_value [CharZero K] (avg price mark : K) {q d : ℤ} (h : (0 < q ∧ 0 < d) ∨ (q < 0 ∧ d < 0)) :
    (mark - (avg * ((|q| : ℤ) : K) + price * ((|d| : ℤ) : K)) / ((|q + d| : ℤ) : K)) *
        ((q + d : ℤ) : K) =
      (mark - avg) * (q : K) + (mark - price) * (d : K) := by
  rcases h with ⟨hq, hd⟩ | ⟨hq, hd⟩
  · rw [abs_of_pos hq, abs_of_pos hd, abs_of_pos (by omega)]
    have hne : ((q + d : ℤ) : K) ≠ 0 := Int.cast_ne_zero.mpr (by omega)
    rw [sub_mul, div_mul_cancel₀ _ hne]
    push_cast
    ring
  · rw [abs_of_neg hq, abs_of_neg hd, abs_of_neg (by omega)]
    have hne : ((q + d : ℤ) : K) ≠ 0 := Int.cast_ne_zero.mpr (by omega)
    have hDiv : ∀ x : K, x / ((-(q + d) : ℤ) : K) * ((q + d : ℤ) : K) = -x := by
      intro x
      rw [Int.cast_neg, div_neg, neg_mul, div_mul_cancel₀ _ hne]
    rw [sub_mul, hDiv]
    push_cast
    ring

/-- What a fill against the position realizes on the portion it closes. -/
def realized (avg price : K) (q d : ℤ) : K :=
  if 0 < q then (price - avg) * ((min |q| |d| : ℤ) : K) else (avg - price) * ((min |q| |d| : ℤ) : K)

/-- A fill against the position that leaves some of it open, or closes it exactly. -/
theorem reduce_value (avg price mark : K) {q d : ℤ} (hq : q ≠ 0)
    (hOpposite : ¬((0 < q ∧ 0 < d) ∨ (q < 0 ∧ d < 0))) (hKeep : q + d = 0 ∨ (0 < q ↔ 0 < q + d)) :
    realized avg price q d + (mark - avg) * ((q + d : ℤ) : K) =
      (mark - avg) * (q : K) + (mark - price) * (d : K) := by
  unfold realized
  by_cases hPos : 0 < q
  · have hMin : min |q| |d| = -d := by
      rw [abs_of_pos hPos, abs_of_nonpos (by omega)]
      omega
    rw [if_pos hPos, hMin]
    push_cast
    ring
  · have hMin : min |q| |d| = d := by
      rw [abs_of_neg (by omega), abs_of_nonneg (by omega)]
      omega
    rw [if_neg hPos, hMin]
    push_cast
    ring

/-- A fill that flips the position opens the remainder at its own price. -/
theorem flip_value (avg price mark : K) {q d : ℤ} (hq : q ≠ 0) (hFlip : ¬(0 < q ↔ 0 < q + d))
    (hOpen : q + d ≠ 0) :
    realized avg price q d + (mark - price) * ((q + d : ℤ) : K) =
      (mark - avg) * (q : K) + (mark - price) * (d : K) := by
  unfold realized
  by_cases hPos : 0 < q
  · have hMin : min |q| |d| = q := by
      rw [abs_of_pos hPos, abs_of_nonpos (by omega)]
      omega
    rw [if_pos hPos, hMin]
    push_cast
    ring
  · have hMin : min |q| |d| = -q := by
      rw [abs_of_neg (by omega), abs_of_nonneg (by omega)]
      omega
    rw [if_neg hPos, hMin]
    push_cast
    ring

end AverageCost

end Futur3.Prelude
