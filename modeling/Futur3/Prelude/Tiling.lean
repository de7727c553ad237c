import Mathlib.Data.List.GetD
import Mathlib.Order.Nat

/-! # Half-open intervals end to end

A list of nonempty intervals that covers a range without gap or overlap: every
point of the range lies in exactly one of them.
-/

namespace Futur3.Prelude

/-- The intervals are nonempty, and each starts where the one before ends. -/
def Tiles : ℕ → List (ℕ × ℕ) → ℕ → Prop
  | start, [], stop => start = stop
  | start, block :: rest, stop => block.1 = start ∧ block.1 < block.2 ∧ Tiles block.2 rest stop

namespace Tiles

variable {start stop : ℕ} {blocks : List (ℕ × ℕ)}

theorem le (h : Tiles start blocks stop) : start ≤ stop := by
  induction blocks generalizing start with
  | nil => exact le_of_eq h
  | cons block rest ih =>
    obtain ⟨rfl, hLess, hRest⟩ := h
    exact hLess.le.trans (ih hRest)

theorem mem (h : Tiles start blocks stop) {block : ℕ × ℕ} (hMem : block ∈ blocks) :
    start ≤ block.1 ∧ block.1 < block.2 ∧ block.2 ≤ stop := by
  induction blocks generalizing start with
  | nil => cases hMem
  | cons first rest ih =>
    obtain ⟨rfl, hLess, hRest⟩ := h
    rcases List.mem_cons.mp hMem with rfl | hMem
    · exact ⟨le_rfl, hLess, hRest.le⟩
    · obtain ⟨hStart, hBlock, hStop⟩ := ih hRest hMem
      exact ⟨hLess.le.trans hStart, hBlock, hStop⟩

/-- Every point of the range lies in a block. -/
theorem exists_index (h : Tiles start blocks stop) {i : ℕ} (hStart : start ≤ i) (hStop : i < stop) :
    ∃ b < blocks.length, (blocks.getD b (0, 0)).1 ≤ i ∧ i < (blocks.getD b (0, 0)).2 := by
  induction blocks generalizing start with
  | nil =>
    have hEmpty : start = stop := h
    omega
  | cons first rest ih =>
    obtain ⟨rfl, hLess, hRest⟩ := h
    by_cases hFirst : i < first.2
    · exact ⟨0, by simp, by simpa using hStart, by simpa using hFirst⟩
    · obtain ⟨b, hb, hBlock⟩ := ih hRest (not_lt.mp hFirst)
      exact ⟨b + 1, by simpa using hb, by simpa using hBlock⟩

/-- No point lies in two blocks. -/
theorem index_unique (h : Tiles start blocks stop) {b b' i : ℕ} (hb : b < blocks.length)
    (hb' : b' < blocks.length) (hi : (blocks.getD b (0, 0)).1 ≤ i ∧ i < (blocks.getD b (0, 0)).2)
    (hi' : (blocks.getD b' (0, 0)).1 ≤ i ∧ i < (blocks.getD b' (0, 0)).2) : b = b' := by
  induction blocks generalizing start b b' with
  | nil => cases hb
  | cons first rest ih =>
    obtain ⟨rfl, hLess, hRest⟩ := h
    -- a later block starts no earlier than the first one ends
    have hLater : ∀ {c}, c < rest.length → first.2 ≤ (rest.getD c (0, 0)).1 := by
      intro c hc
      rw [List.getD_eq_getElem _ _ hc]
      exact (hRest.mem (List.getElem_mem hc)).1
    cases b with
    | zero =>
      cases b' with
      | zero => rfl
      | succ b' =>
        have hStart := hLater (Nat.lt_of_succ_lt_succ hb')
        simp only [List.getD_cons_zero, List.getD_cons_succ] at hi hi'
        omega
    | succ b =>
      cases b' with
      | zero =>
        have hStart := hLater (Nat.lt_of_succ_lt_succ hb)
        simp only [List.getD_cons_zero, List.getD_cons_succ] at hi hi'
        omega
      | succ b' =>
        simp only [List.getD_cons_succ] at hi hi'
        exact congrArg (· + 1)
          (ih hRest (Nat.lt_of_succ_lt_succ hb) (Nat.lt_of_succ_lt_succ hb') hi hi')

end Tiles

end Futur3.Prelude
