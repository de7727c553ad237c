import Mathlib.Data.List.Sublists
import Mathlib.Data.Nat.Choose.Basic

/-! # Combinations in lexicographic order

The enumeration of `itertools.combinations`: the combinations that contain the
first element come first. Up to order they are the sublists of a given length.
-/

namespace Futur3.Prelude

universe u

variable {α : Type u}

/-- The sublists of length `k`, in lexicographic order of places. -/
def combinations : ℕ → List α → List (List α)
  | 0, _ => [[]]
  | _ + 1, [] => []
  | k + 1, a :: rest => (combinations k rest).map (a :: ·) ++ combinations (k + 1) rest

theorem combinations_perm (k : ℕ) (xs : List α) :
    (combinations k xs).Perm (List.sublistsLen k xs) := by
  induction xs generalizing k with
  | nil => cases k <;> exact .refl _
  | cons a rest ih =>
    cases k with
    | zero =>
      rw [List.sublistsLen_zero]
      exact .refl _
    | succ k =>
      rw [combinations, List.sublistsLen_succ_cons]
      exact (((ih k).map _).append (ih (k + 1))).trans List.perm_append_comm

theorem mem_combinations {k : ℕ} {xs l : List α} :
    l ∈ combinations k xs ↔ List.Sublist l xs ∧ l.length = k := by
  rw [(combinations_perm k xs).mem_iff, List.mem_sublistsLen]

theorem combinations_nodup {xs : List α} (h : xs.Nodup) (k : ℕ) : (combinations k xs).Nodup :=
  (combinations_perm k xs).nodup_iff.mpr (List.nodup_sublistsLen k h)

theorem length_combinations (k : ℕ) (xs : List α) :
    (combinations k xs).length = xs.length.choose k := by
  rw [(combinations_perm k xs).length_eq, List.length_sublistsLen]

section Count

variable [DecidableEq α]

theorem countP_combinations_of_not_mem {a : α} {xs : List α} (h : a ∉ xs) (k : ℕ) :
    (combinations k xs).countP (fun l => a ∈ l) = 0 := by
  rw [List.countP_eq_zero]
  intro l hl
  simpa using fun ha => h ((mem_combinations.mp hl).1.subset ha)

/-- An element lies in as many combinations as the others have of one length less. -/
theorem countP_combinations {a : α} {xs : List α} (hNodup : xs.Nodup) (ha : a ∈ xs) (k : ℕ) :
    (combinations (k + 1) xs).countP (fun l => a ∈ l) = (xs.length - 1).choose k := by
  induction xs generalizing k with
  | nil => cases ha
  | cons x rest ih =>
    obtain ⟨hx, hRest⟩ := List.nodup_cons.mp hNodup
    rw [combinations, List.countP_append, List.countP_map, List.length_cons, Nat.add_sub_cancel]
    rcases List.mem_cons.mp ha with rfl | ha
    · have hAll : (combinations k rest).countP ((fun l => decide (a ∈ l)) ∘ (a :: ·)) =
          (combinations k rest).length := by
        rw [List.countP_eq_length]
        simp
      rw [hAll, countP_combinations_of_not_mem hx, length_combinations, Nat.add_zero]
    · have hne : a ≠ x := fun h => hx (h ▸ ha)
      have hTail : (combinations k rest).countP ((fun l => decide (a ∈ l)) ∘ (x :: ·)) =
          (combinations k rest).countP fun l => a ∈ l := by
        refine List.countP_congr fun l _ => ?_
        simp [hne]
      have hPos : 0 < rest.length := List.length_pos_of_mem ha
      rw [hTail, ih hRest ha]
      cases k with
      | zero => simp [combinations]
      | succ k =>
        obtain ⟨m, hm⟩ := Nat.exists_eq_succ_of_ne_zero hPos.ne'
        rw [ih hRest ha, hm, Nat.succ_sub_one, Nat.succ_eq_add_one, Nat.choose_succ_succ]

end Count

end Futur3.Prelude
