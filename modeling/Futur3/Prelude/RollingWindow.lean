import Mathlib.Algebra.Order.Group.Basic
import Mathlib.Data.List.Basic
import Mathlib.Order.Defs.LinearOrder

/-! # Rolling windows

A log keeps the recent part of a growing history of instants. As long as it
has dropped only what has left the window, its length bounds the number of
instants inside it.
-/

namespace Futur3.Prelude.RollingWindow

universe u

/-- Drop the oldest instants up to the first one at or after the cutoff. -/
def prune {α : Type u} [LinearOrder α] (cutoff : α) : List α → List α
  | [] => []
  | t :: rest => if t < cutoff then prune cutoff rest else t :: rest

theorem prune_suffix {α : Type u} [LinearOrder α] (cutoff : α) (log : List α) :
    ∃ dropped, log = dropped ++ prune cutoff log ∧ ∀ t ∈ dropped, t < cutoff := by
  induction log with
  | nil => exact ⟨[], rfl, by simp⟩
  | cons t rest ih =>
    by_cases ht : t < cutoff
    · obtain ⟨dropped, hRest, hOld⟩ := ih
      refine ⟨t :: dropped, ?_, ?_⟩
      · rw [prune, if_pos ht, List.cons_append, ← hRest]
      · intro s hs
        rcases List.mem_cons.mp hs with rfl | hs
        · exact ht
        · exact hOld s hs
    · exact ⟨[], by rw [prune, if_neg ht]; rfl, by simp⟩

variable {α : Type u} [AddCommGroup α] [LinearOrder α]

/-- How many instants of the history lie in the half-open window `(now - width, now]`. -/
def recent (width now : α) (history : List α) : ℕ :=
  history.countP (fun t => decide (now - width < t ∧ t ≤ now))

theorem recent_append (width now : α) (xs ys : List α) :
    recent width now (xs ++ ys) = recent width now xs + recent width now ys :=
  List.countP_append

theorem recent_le_length (width now : α) (history : List α) :
    recent width now history ≤ history.length :=
  List.countP_le_length

theorem recent_eq_zero {width now : α} {history : List α}
    (h : ∀ t ∈ history, t ≤ now - width) : recent width now history = 0 := by
  refine List.countP_eq_zero.mpr ?_
  intro t ht hRecent
  exact absurd (of_decide_eq_true hRecent).1 (not_lt.mpr (h t ht))

/-- The log is what remains of the history after dropping instants that left the window. -/
def Follows (width now : α) (log history : List α) : Prop :=
  ∃ dropped, history = dropped ++ log ∧ ∀ t ∈ dropped, t ≤ now - width

theorem Follows.nil (width now : α) : Follows width now [] [] :=
  ⟨[], rfl, by simp⟩

theorem Follows.prune {width now : α} {log history : List α} (h : Follows width now log history) :
    Follows width now (prune (now - width) log) history := by
  obtain ⟨pruned, hLog, hPruned⟩ := prune_suffix (now - width) log
  obtain ⟨dropped, hHistory, hOld⟩ := h
  refine ⟨dropped ++ pruned, ?_, ?_⟩
  · rw [List.append_assoc, ← hLog]
    exact hHistory
  · intro t ht
    rcases List.mem_append.mp ht with ht | ht
    · exact hOld t ht
    · exact (hPruned t ht).le

theorem Follows.record {width now : α} {log history : List α} (h : Follows width now log history)
    (t : α) : Follows width now (log ++ [t]) (history ++ [t]) := by
  obtain ⟨dropped, hHistory, hOld⟩ := h
  exact ⟨dropped, by rw [hHistory, List.append_assoc], hOld⟩

/-- Everything recent is still in the log. -/
theorem Follows.recent_eq {width now : α} {log history : List α}
    (h : Follows width now log history) : recent width now history = recent width now log := by
  obtain ⟨dropped, rfl, hOld⟩ := h
  rw [recent_append, recent_eq_zero hOld, Nat.zero_add]

/-- The log has room for one more instant, or it is just full and its oldest
instant has left the window. -/
def Admits (width now : α) (limit : ℕ) (log : List α) : Prop :=
  log.length < limit ∨ (log.length ≤ limit ∧ ∃ oldest ∈ log.head?, oldest ≤ now - width)

theorem Follows.recent_lt {width now : α} {limit : ℕ} {log history : List α}
    (h : Follows width now log history) (hAdmits : Admits width now limit log) :
    recent width now history < limit := by
  rw [h.recent_eq]
  rcases hAdmits with hRoom | ⟨hFull, oldest, hHead, hLeft⟩
  · exact (recent_le_length width now log).trans_lt hRoom
  · obtain ⟨rest, rfl⟩ := List.head?_eq_some_iff.mp hHead
    have hOldest : recent width now [oldest] = 0 := recent_eq_zero (by simpa using hLeft)
    calc recent width now (oldest :: rest)
        = recent width now rest := by
          rw [← List.singleton_append, recent_append, hOldest, Nat.zero_add]
      _ ≤ rest.length := recent_le_length width now rest
      _ < limit := hFull

/-- An admitted instant keeps the number of recent ones within the limit. -/
theorem Follows.recent_record_le {width now : α} {limit : ℕ} {log history : List α}
    (h : Follows width now log history) (hAdmits : Admits width now limit log) :
    recent width now (history ++ [now]) ≤ limit := by
  have hBefore := h.recent_lt hAdmits
  have hOne := recent_le_length width now [now]
  rw [List.length_singleton] at hOne
  rw [recent_append]
  omega

variable [IsOrderedAddMonoid α]

theorem Follows.later {width now now' : α} {log history : List α}
    (h : Follows width now log history) (hLater : now ≤ now') :
    Follows width now' log history := by
  obtain ⟨dropped, hHistory, hOld⟩ := h
  exact ⟨dropped, hHistory, fun t ht => (hOld t ht).trans (sub_le_sub_right hLater width)⟩

theorem Admits.later {width now now' : α} {limit : ℕ} {log : List α}
    (h : Admits width now limit log) (hLater : now ≤ now') : Admits width now' limit log := by
  rcases h with hRoom | ⟨hFull, oldest, hHead, hLeft⟩
  · exact Or.inl hRoom
  · exact Or.inr ⟨hFull, oldest, hHead, hLeft.trans (sub_le_sub_right hLater width)⟩

end Futur3.Prelude.RollingWindow
