import Mathlib.Data.List.Sort
import Mathlib.Order.Basic

/-! # Running values along a sorted list

A value is carried along a list and noted at each item. A property that a step
keeps exactly under a condition on the item and on how many follow holds of a
noted value when the condition holds of the items up to there. Along a sorted list
the number of items that follow tells how many are as large.
-/

namespace Futur3.Prelude.RankScan

universe u v

variable {ι : Type u} {β : Type v}

/-- The value carried along a list, noted at each item; a step sees how many items follow. -/
def running (next : β → ι → ℕ → β) : β → List ι → List (ι × β)
  | _, [] => []
  | b, i :: rest => (i, next b i rest.length) :: running next (next b i rest.length) rest

theorem map_fst_running (next : β → ι → ℕ → β) (b : β) (order : List ι) :
    (running next b order).map Prod.fst = order := by
  induction order generalizing b with
  | nil => rfl
  | cons i rest ih => rw [running, List.map_cons, ih]

theorem mem_of_mem_running {next : β → ι → ℕ → β} {b : β} {order : List ι} {i : ι} {v : β}
    (h : (i, v) ∈ running next b order) : i ∈ order := by
  rw [← map_fst_running next b order]
  exact List.mem_map_of_mem (f := Prod.fst) h

/-- The condition holds of all items up to `i`, with the number of items after each. -/
def UpTo (R : ι → ℕ → Prop) (i : ι) (order : List ι) : Prop :=
  ∀ before j after, order = before ++ j :: after → i ∈ j :: after → R j after.length

theorem upTo_cons {R : ι → ℕ → Prop} {i j : ι} {rest : List ι} (hi : i ∈ rest) :
    UpTo R i (j :: rest) ↔ R j rest.length ∧ UpTo R i rest := by
  constructor
  · intro h
    refine ⟨h [] j rest rfl (List.mem_cons_of_mem j hi), fun before k after hRest hMem => ?_⟩
    exact h (j :: before) k after (by rw [hRest, List.cons_append]) hMem
  · rintro ⟨hHere, hLater⟩ before k after hOrder hMem
    cases before with
    | nil =>
      obtain ⟨rfl, rfl⟩ := List.cons.inj hOrder
      exact hHere
    | cons first before =>
      obtain ⟨rfl, hRest⟩ := List.cons.inj hOrder
      exact hLater before k after hRest hMem

theorem upTo_head {R : ι → ℕ → Prop} {i : ι} {rest : List ι} (hi : i ∉ rest) :
    UpTo R i (i :: rest) ↔ R i rest.length := by
  refine ⟨fun h => h [] i rest rfl List.mem_cons_self, fun hHere before k after hOrder hMem => ?_⟩
  cases before with
  | nil =>
    obtain ⟨rfl, rfl⟩ := List.cons.inj hOrder
    exact hHere
  | cons first before =>
    obtain ⟨-, rfl⟩ := List.cons.inj hOrder
    exact absurd (List.mem_append_right before hMem) hi

theorem running_iff {next : β → ι → ℕ → β} {G : β → Prop} {R : ι → ℕ → Prop}
    (hNext : ∀ b i k, G (next b i k) ↔ G b ∧ R i k) {b : β} {order : List ι} (hNodup : order.Nodup)
    {i : ι} {v : β} (h : (i, v) ∈ running next b order) : G v ↔ G b ∧ UpTo R i order := by
  induction order generalizing b with
  | nil => cases h
  | cons j rest ih =>
    obtain ⟨hFresh, hRest⟩ := List.nodup_cons.mp hNodup
    rcases List.mem_cons.mp h with hHere | hLater
    · obtain ⟨rfl, rfl⟩ := Prod.mk.inj hHere
      rw [upTo_head hFresh, hNext]
    · rw [ih hRest hLater, hNext, upTo_cons (mem_of_mem_running hLater), and_assoc]

/-! ## Writing the noted values -/

def assign (pairs : List (ℕ × β)) (xs : List β) : List β :=
  pairs.foldl (fun acc pair => acc.set pair.1 pair.2) xs

@[simp] theorem length_assign (pairs : List (ℕ × β)) (xs : List β) :
    (assign pairs xs).length = xs.length := by
  unfold assign
  induction pairs generalizing xs with
  | nil => rfl
  | cons pair rest ih => rw [List.foldl_cons, ih, List.length_set]

theorem assign_of_not_mem {pairs : List (ℕ × β)} {i : ℕ} (h : i ∉ pairs.map Prod.fst) (xs : List β) :
    (assign pairs xs)[i]? = xs[i]? := by
  unfold assign
  induction pairs generalizing xs with
  | nil => rfl
  | cons pair rest ih =>
    rw [List.map_cons, List.mem_cons, not_or] at h
    rw [List.foldl_cons, ih h.2, List.getElem?_set_ne (Ne.symm h.1)]

theorem assign_of_mem {pairs : List (ℕ × β)} (hNodup : (pairs.map Prod.fst).Nodup) {i : ℕ} {v : β}
    (h : (i, v) ∈ pairs) {xs : List β} (hi : i < xs.length) : (assign pairs xs)[i]? = some v := by
  induction pairs generalizing xs with
  | nil => cases h
  | cons pair rest ih =>
    rw [List.map_cons, List.nodup_cons] at hNodup
    obtain ⟨hFresh, hRest⟩ := hNodup
    change (assign rest (xs.set pair.1 pair.2))[i]? = some v
    rcases List.mem_cons.mp h with rfl | hLater
    · rw [assign_of_not_mem hFresh, List.getElem?_set_self hi]
    · exact ih hRest hLater (by rwa [List.length_set])

/-! ## Sorted lists -/

section Sorted

variable {α : Type v} [LinearOrder α] {value : ι → α} {order : List ι}

/-- An item of a sorted list that is the first of its value. -/
theorem exists_first {j : ι} (hSorted : order.Pairwise fun a b => value a ≤ value b) (hj : j ∈ order) :
    ∃ before k after, order = before ++ k :: after ∧ value k = value j ∧
      ∀ b ∈ before, value b < value k := by
  induction order with
  | nil => cases hj
  | cons first rest ih =>
    obtain ⟨hFirst, hRest⟩ := List.pairwise_cons.mp hSorted
    by_cases hSame : value first = value j
    · exact ⟨[], first, rest, rfl, hSame, by simp⟩
    · have hLater : j ∈ rest := by
        rcases List.mem_cons.mp hj with rfl | hLater
        · exact absurd rfl hSame
        · exact hLater
      obtain ⟨before, k, after, rfl, hValue, hBefore⟩ := ih hRest hLater
      refine ⟨first :: before, k, after, rfl, hValue, ?_⟩
      rw [List.forall_mem_cons]
      exact ⟨hValue ▸ lt_of_le_of_ne (hFirst j hLater) hSame, hBefore⟩

theorem length_le_count {before after : List ι} {j : ι}
    (hSorted : (before ++ j :: after).Pairwise fun a b => value a ≤ value b) :
    after.length + 1 ≤ (before ++ j :: after).countP (fun b => value j ≤ value b) := by
  obtain ⟨-, hFrom, -⟩ := List.pairwise_append.mp hSorted
  have hAll : (j :: after).countP (fun b => value j ≤ value b) = (j :: after).length := by
    rw [List.countP_eq_length]
    intro b hb
    rcases List.mem_cons.mp hb with rfl | hb
    · exact decide_eq_true le_rfl
    · exact decide_eq_true ((List.pairwise_cons.mp hFrom).1 b hb)
  rw [List.countP_append, hAll, List.length_cons]
  exact Nat.le_add_left _ _

theorem count_of_first {before after : List ι} {j : ι}
    (hSorted : (before ++ j :: after).Pairwise fun a b => value a ≤ value b)
    (hBefore : ∀ b ∈ before, value b < value j) :
    (before ++ j :: after).countP (fun b => value j ≤ value b) = after.length + 1 := by
  refine le_antisymm ?_ (length_le_count hSorted)
  have hNone : before.countP (fun b => value j ≤ value b) = 0 := by
    rw [List.countP_eq_zero]
    intro b hb
    simpa using hBefore b hb
  rw [List.countP_append, hNone, Nat.zero_add]
  exact List.countP_le_length

/-- A condition that is the weaker the fewer items are as large holds up to an item when it holds of
every value up to that item's. -/
theorem upTo_sorted_iff {Q : α → ℕ → Prop}
    (hQ : ∀ j ∈ order, ∀ k k', 0 < k → k ≤ k' → Q (value j) k' → Q (value j) k)
    (hSorted : order.Pairwise fun a b => value a ≤ value b) {i : ι} (hi : i ∈ order) :
    UpTo (fun j k => Q (value j) (k + 1)) i order ↔
      ∀ j ∈ order, value j ≤ value i → Q (value j) (order.countP fun b => value j ≤ value b) := by
  constructor
  · intro h j hj hLe
    obtain ⟨before, k, after, rfl, hValue, hBefore⟩ := exists_first hSorted hj
    rw [← hValue, count_of_first hSorted hBefore]
    refine h before k after rfl ?_
    rcases List.mem_append.mp hi with hEarlier | hHere
    · exact absurd (hValue ▸ hLe) (not_le.mpr (hBefore i hEarlier))
    · exact hHere
  · rintro h before j after rfl hMem
    obtain ⟨-, hFrom, -⟩ := List.pairwise_append.mp hSorted
    have hLe : value j ≤ value i := by
      rcases List.mem_cons.mp hMem with rfl | hLater
      · exact le_rfl
      · exact (List.pairwise_cons.mp hFrom).1 i hLater
    have hj := List.mem_append_right before (List.mem_cons_self (a := j) (l := after))
    exact hQ j hj _ _ (Nat.succ_pos _) (length_le_count hSorted) (h j hj hLe)

end Sorted

end Futur3.Prelude.RankScan
