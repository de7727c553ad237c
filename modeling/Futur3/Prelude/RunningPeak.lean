import Mathlib.Data.List.Basic
import Mathlib.Order.MinMax
import Mathlib.Tactic.Tauto

/-! # Running peaks

A pass keeps the highest item so far and the worst loss from it. Where a loss grows with
the item it starts from, the result is the worst loss from an item to one that does not
come before it.
-/

namespace Futur3.Prelude

universe u v

variable {α : Type u} {β : Type v} [LinearOrder α] [LinearOrder β]

def worstFrom (loss : α → α → β) : α → β → List α → β
  | _, worst, [] => worst
  | peak, worst, x :: rest =>
    worstFrom loss (max peak x) (max worst (loss (max peak x) x)) rest

variable {loss : α → α → β} {Item : α → Prop} {d : β}

/-- A loss from the higher of two items is at most a bound when the losses from both are. -/
theorem loss_max_le_iff (hMono : ∀ p q x, Item p → Item q → Item x → p ≤ q → loss p x ≤ loss q x) {p q x : α}
    (hp : Item p) (hq : Item q) (hx : Item x) : loss (max p q) x ≤ d ↔ loss p x ≤ d ∧ loss q x ≤ d := by
  rcases le_total p q with hOrder | hOrder
  · rw [max_eq_right hOrder]
    exact ⟨fun h => ⟨(hMono p q x hp hq hx hOrder).trans h, h⟩, And.right⟩
  · rw [max_eq_left hOrder]
    exact ⟨fun h => ⟨h, (hMono q p x hq hp hx hOrder).trans h⟩, And.left⟩

theorem max_item {p q : α} (hp : Item p) (hq : Item q) : Item (max p q) := by
  rcases max_choice p q with h | h
  · rwa [h]
  · rwa [h]

/-- A bound that no loss reaches is not reached. -/
theorem worstFrom_lt (hLoss : ∀ p x, Item p → Item x → loss p x < d) {xs : List α} (hItems : ∀ x ∈ xs, Item x)
    {peak : α} (hPeak : Item peak) {worst : β} (hWorst : worst < d) : worstFrom loss peak worst xs < d := by
  induction xs generalizing peak worst with
  | nil => exact hWorst
  | cons x rest ih =>
    obtain ⟨hx, hRest⟩ := List.forall_mem_cons.mp hItems
    exact ih hRest (max_item hPeak hx) (max_lt hWorst (hLoss _ _ (max_item hPeak hx) hx))

theorem worstFrom_le_iff (hMono : ∀ p q x, Item p → Item q → Item x → p ≤ q → loss p x ≤ loss q x) {xs : List α}
    (hItems : ∀ x ∈ xs, Item x) {peak : α} (hPeak : Item peak) {worst : β} :
    worstFrom loss peak worst xs ≤ d ↔
      worst ≤ d ∧ (∀ x ∈ xs, loss peak x ≤ d ∧ loss x x ≤ d) ∧ xs.Pairwise fun x y => loss x y ≤ d := by
  induction xs generalizing peak worst with
  | nil => simp [worstFrom]
  | cons x rest ih =>
    obtain ⟨hx, hRest⟩ := List.forall_mem_cons.mp hItems
    have hLater : (∀ y ∈ rest, loss (max peak x) y ≤ d ∧ loss y y ≤ d) ↔
        (∀ y ∈ rest, loss peak y ≤ d ∧ loss y y ≤ d) ∧ ∀ y ∈ rest, loss x y ≤ d := by
      rw [← forall₂_and]
      refine forall₂_congr fun y hy => ?_
      rw [loss_max_le_iff hMono hPeak hx (hRest y hy)]
      tauto
    rw [worstFrom, ih hRest (max_item hPeak hx), max_le_iff, loss_max_le_iff hMono hPeak hx hx, hLater,
      List.forall_mem_cons, List.pairwise_cons]
    tauto

end Futur3.Prelude
