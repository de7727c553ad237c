import Futur3.Prelude.Deviations
import Futur3.Prelude.Selection
import Mathlib.Algebra.Order.BigOperators.Group.List
import Mathlib.Data.List.GetD

/-! # The least and the greatest items of a list

Of all choices of so many items the least ones have the least sum and the greatest ones the
greatest. So the least sum of what two measures of the same items add up to is at least that
of the one and that of the other, and the greatest sum at most.
-/

namespace Futur3.Prelude.ExtremeItems

open Selection

universe u v

section Order

variable {K : Type u} [LinearOrder K]

def least (count : ℕ) (xs : List K) : List K := (sortBy id xs).take count

def greatest (count : ℕ) (xs : List K) : List K := (sortBy id xs).drop (xs.length - count)

variable {count : ℕ} {xs ys : List K}

theorem length_sorted (xs : List K) : (sortBy id xs).length = xs.length := (sortBy_perm_self id xs).length_eq

theorem least_subperm (count : ℕ) (xs : List K) : (least count xs).Subperm xs :=
  (List.take_sublist _ _).subperm.trans (sortBy_perm_self id xs).subperm

theorem length_least (h : count ≤ xs.length) : (least count xs).length = count := by
  rw [least, List.length_take, length_sorted, Nat.min_eq_left h]

theorem length_greatest (h : count ≤ xs.length) : (greatest count xs).length = count := by
  rw [greatest, List.length_drop, length_sorted]
  omega

theorem least_perm (h : xs.Perm ys) : least count xs = least count ys :=
  congrArg (List.take count) (sort_eq_of_perm h)

theorem greatest_perm (h : xs.Perm ys) : greatest count xs = greatest count ys := by
  rw [greatest, greatest, h.length_eq]
  exact congrArg (List.drop _) (sort_eq_of_perm h)

theorem greatest_subperm (count : ℕ) (xs : List K) : (greatest count xs).Subperm xs :=
  (List.drop_sublist _ _).subperm.trans (sortBy_perm_self id xs).subperm

omit [LinearOrder K] in
/-- A part of the measures is measured from some of the items. -/
theorem exists_choice {α : Type v} {f : α → K} {items : List α} {part : List K}
    (h : part.Subperm (items.map f)) : ∃ chosen : List α, chosen.Sublist items ∧ (chosen.map f).Perm part := by
  obtain ⟨measures, hPerm, hSublist⟩ := h
  obtain ⟨chosen, hChosen, rfl⟩ := List.sublist_map_iff.mp hSublist
  exact ⟨chosen, hChosen, hPerm⟩

/-! A position in order is told by how many items lie below a value. -/

theorem getElem_iff_countP {p : K → Bool} (hDown : ∀ a b, a ≤ b → p b = true → p a = true) {ordered : List K}
    (hOrdered : ordered.Pairwise (· ≤ ·)) {i : ℕ} (hi : i < ordered.length) :
    p ordered[i] = true ↔ i < ordered.countP p := by
  induction ordered generalizing i with
  | nil => exact absurd hi (Nat.not_lt_zero i)
  | cons first rest ih =>
    obtain ⟨hFirst, hRest⟩ := List.pairwise_cons.mp hOrdered
    by_cases hp : p first = true
    · rw [List.countP_cons_of_pos hp]
      cases i with
      | zero => exact iff_of_true hp (Nat.succ_pos _)
      | succ i =>
        rw [List.getElem_cons_succ, ih hRest (Nat.lt_of_succ_lt_succ hi)]
        omega
    · have hNone : (first :: rest).countP p = 0 := by
        refine List.countP_eq_zero.mpr fun x hx hpx => hp ?_
        rcases List.mem_cons.mp hx with rfl | hx
        · exact hpx
        · exact hDown _ _ (hFirst x hx) hpx
      have hAbove : first ≤ (first :: rest)[i] := by
        cases i with
        | zero => exact le_rfl
        | succ i => exact hFirst _ (List.getElem_mem _)
      exact iff_of_false (fun h => hp (hDown _ _ hAbove h)) (by omega)

theorem sorted_le_iff {i : ℕ} (hi : i < (sortBy id xs).length) (v : K) :
    (sortBy id xs)[i] ≤ v ↔ i < xs.countP fun x => x ≤ v := by
  rw [← (sortBy_perm_self id xs).countP_eq, ← getElem_iff_countP _ (pairwise_sortBy id xs) hi, decide_eq_true_iff]
  exact fun a b hab hb => decide_eq_true (hab.trans (of_decide_eq_true hb))

theorem sorted_lt_iff {i : ℕ} (hi : i < (sortBy id xs).length) (v : K) :
    (sortBy id xs)[i] < v ↔ i < xs.countP fun x => x < v := by
  rw [← (sortBy_perm_self id xs).countP_eq, ← getElem_iff_countP _ (pairwise_sortBy id xs) hi, decide_eq_true_iff]
  exact fun a b hab hb => decide_eq_true (hab.trans_lt (of_decide_eq_true hb))

theorem least_le_iff (h : count ≤ xs.length) (v : K) :
    (∀ x ∈ least count xs, x ≤ v) ↔ count ≤ xs.countP fun x => x ≤ v := by
  constructor
  · intro hLe
    cases count with
    | zero => exact Nat.zero_le _
    | succ count =>
      have hi : count < (sortBy id xs).length := by
        rw [length_sorted]
        omega
      exact (sorted_le_iff hi v).mp (hLe _ (List.mem_take_iff_getElem.mpr ⟨count, by omega, rfl⟩))
  · intro hCount x hx
    obtain ⟨i, hi, rfl⟩ := List.mem_take_iff_getElem.mp hx
    exact (sorted_le_iff (by omega) v).mpr (by omega)

omit [LinearOrder K] in
theorem countP_le_of_forall₂ {p q : K → Bool} {r : K → K → Prop} (h : List.Forall₂ r xs ys)
    (hImp : ∀ x y, r x y → p x = true → q y = true) : xs.countP p ≤ ys.countP q := by
  induction h with
  | nil => exact le_rfl
  | @cons x y xs ys hr _ ih =>
    have hFirst := hImp x y hr
    rw [List.countP_cons, List.countP_cons]
    split_ifs <;> grind

/-- A change that takes no item over a value leaves the position where the value is. -/
theorem sorted_eq_of_kept {r : K → K → Prop} (h : List.Forall₂ r xs ys) {v : K}
    (hUp : ∀ x y, r x y → x ≤ v → y ≤ v) (hDown : ∀ x y, r x y → y < v → x < v) {i : ℕ}
    (hi : (sortBy id xs)[i]? = some v) : (sortBy id ys)[i]? = some v := by
  obtain ⟨hx, hv⟩ := List.getElem?_eq_some_iff.mp hi
  have hy : i < (sortBy id ys).length := by
    rwa [length_sorted, ← h.length_eq, ← length_sorted]
  refine List.getElem?_eq_some_iff.mpr ⟨hy, le_antisymm ?_ (not_lt.mp fun hBelow => ?_)⟩
  · exact (sorted_le_iff hy v).mpr
      (((sorted_le_iff hx v).mp hv.le).trans_le (countP_le_of_forall₂ h (by simpa using hUp)))
  · have hReversed : List.Forall₂ (fun y x => r x y) ys xs := h.flip
    exact ((sorted_lt_iff hx v).mpr (((sorted_lt_iff hy v).mp hBelow).trans_le
      (countP_le_of_forall₂ hReversed fun y x => by simpa using hDown x y))).ne hv

end Order

/-! ## Sums -/

section Sums

variable {K : Type u} [AddCommGroup K] [LinearOrder K] [IsOrderedAddMonoid K]
variable {xs : List K}

theorem sum_take_le_of_sublist {ordered chosen : List K} (hOrdered : ordered.Pairwise (· ≤ ·))
    (h : chosen.Sublist ordered) : (ordered.take chosen.length).sum ≤ chosen.sum := by
  induction h with
  | slnil => exact le_rfl
  | @cons chosen ordered first h ih =>
    obtain ⟨hFirst, hRest⟩ := List.pairwise_cons.mp hOrdered
    refine le_trans ?_ (ih hRest)
    cases hCount : chosen.length with
    | zero => exact le_rfl
    | succ count =>
      have hBound : count < ordered.length := by
        have := h.length_le
        omega
      rw [List.take_succ_cons, List.sum_cons, List.sum_take_succ _ _ hBound, add_comm]
      exact add_le_add_right (hFirst _ (List.getElem_mem hBound)) _
  | @cons_cons chosen ordered first h ih =>
    rw [List.length_cons, List.take_succ_cons, List.sum_cons, List.sum_cons]
    exact add_le_add_right (ih (List.pairwise_cons.mp hOrdered).2) _

/-- No choice has a lesser sum. -/
theorem sum_least_le {chosen : List K} (h : chosen.Subperm xs) :
    (least chosen.length xs).sum ≤ chosen.sum := by
  obtain ⟨ordered, hPerm, hSublist⟩ := h.trans (sortBy_perm_self id xs).symm.subperm
  have hLe := sum_take_le_of_sublist (pairwise_sortBy id xs) hSublist
  rwa [hPerm.length_eq, hPerm.sum_eq] at hLe

omit [IsOrderedAddMonoid K] in
theorem sum_least_add_greatest (count : ℕ) (xs : List K) :
    (least (xs.length - count) xs).sum + (greatest count xs).sum = xs.sum := by
  rw [least, greatest, ← List.sum_append, List.take_append_drop, (sortBy_perm_self id xs).sum_eq]

/-- No choice has a greater sum: what it leaves has no lesser one than the least items. -/
theorem sum_le_greatest {chosen : List K} (h : chosen.Sublist xs) :
    chosen.sum ≤ (greatest chosen.length xs).sum := by
  obtain ⟨rest, hPerm⟩ := h.exists_perm_append
  have hLength : rest.length = xs.length - chosen.length := by
    rw [hPerm.length_eq, List.length_append, Nat.add_sub_cancel_left]
  have hLeft : (least rest.length xs).sum ≤ rest.sum :=
    sum_least_le ((List.sublist_append_right chosen rest).subperm.trans hPerm.symm.subperm)
  rw [hLength] at hLeft
  have hSplit : chosen.sum + rest.sum = xs.sum := by
    rw [hPerm.sum_eq, List.sum_append]
  have hTotal := sum_least_add_greatest chosen.length xs
  rw [← hSplit] at hTotal
  rw [add_comm chosen.sum] at hTotal
  exact le_of_add_le_add_left ((add_le_add_left hLeft chosen.sum).trans hTotal.ge)

/-! The mean of what comes first in order is at most that of what comes later. -/

theorem nsmul_sum_le {low high : List K} (h : ∀ a ∈ low, ∀ b ∈ high, a ≤ b) :
    high.length • low.sum ≤ low.length • high.sum := by
  have hEach : ∀ b ∈ high, low.sum ≤ low.length • b := fun b hb => List.sum_le_card_nsmul low b fun a ha => h a ha b hb
  calc
    high.length • low.sum = (high.map fun b => low.length • b).length • low.sum := by rw [List.length_map]
    _ ≤ (high.map fun b => low.length • b).sum :=
      List.card_nsmul_le_sum _ _ (List.forall_mem_map.mpr hEach)
    _ = low.length • high.sum := (map_list_sum (nsmulAddMonoidHom low.length) high).symm

theorem sum_split_le {ordered : List K} (h : ordered.Pairwise (· ≤ ·)) (count : ℕ) :
    ordered.length • (ordered.take count).sum ≤ (ordered.take count).length • ordered.sum ∧
      (ordered.drop count).length • ordered.sum ≤ ordered.length • (ordered.drop count).sum := by
  have hSplit := List.take_append_drop count ordered
  generalize ordered.take count = low, ordered.drop count = high at hSplit ⊢
  subst hSplit
  have hLe := nsmul_sum_le (List.pairwise_append.mp h).2.2
  rw [List.length_append, List.sum_append, add_nsmul, add_nsmul, nsmul_add, nsmul_add]
  exact ⟨add_le_add_right hLe _, add_le_add_left hLe _⟩

theorem length_nsmul_sum_least {count : ℕ} (h : count ≤ xs.length) :
    xs.length • (least count xs).sum ≤ count • xs.sum := by
  have hLe := (sum_split_le (pairwise_sortBy id xs) count).1
  rw [length_sorted, (sortBy_perm_self id xs).sum_eq] at hLe
  exact hLe.trans_eq (congrArg (· • xs.sum) (length_least h))

theorem nsmul_sum_le_greatest {count : ℕ} (h : count ≤ xs.length) :
    count • xs.sum ≤ xs.length • (greatest count xs).sum := by
  have hLe := (sum_split_le (pairwise_sortBy id xs) (xs.length - count)).2
  rw [length_sorted, (sortBy_perm_self id xs).sum_eq] at hLe
  exact (congrArg (· • xs.sum) (length_greatest h)).symm.trans_le hLe

variable {count : ℕ} {α : Type v} {f g : α → K} {items : List α}

omit [IsOrderedAddMonoid K] in
theorem exists_least (f : α → K) (h : count ≤ items.length) :
    ∃ chosen : List α, chosen.Sublist items ∧ chosen.length = count ∧
      (chosen.map f).sum = (least count (items.map f)).sum := by
  obtain ⟨chosen, hChosen, hPerm⟩ := exists_choice (least_subperm count (items.map f))
  refine ⟨chosen, hChosen, ?_, hPerm.sum_eq⟩
  rw [← List.length_map f, hPerm.length_eq, length_least (by rwa [List.length_map])]

omit [IsOrderedAddMonoid K] in
theorem exists_greatest (f : α → K) (h : count ≤ items.length) :
    ∃ chosen : List α, chosen.Sublist items ∧ chosen.length = count ∧
      (chosen.map f).sum = (greatest count (items.map f)).sum := by
  obtain ⟨chosen, hChosen, hPerm⟩ := exists_choice (greatest_subperm count (items.map f))
  refine ⟨chosen, hChosen, ?_, hPerm.sum_eq⟩
  rw [← List.length_map f, hPerm.length_eq, length_greatest (by rwa [List.length_map])]

theorem sum_least_le_map (f : α → K) {chosen : List α} (h : chosen.Sublist items)
    (hCount : chosen.length = count) : (least count (items.map f)).sum ≤ (chosen.map f).sum := by
  have hLe := sum_least_le (h.map f).subperm
  rwa [List.length_map, hCount] at hLe

theorem sum_map_le_greatest (f : α → K) {chosen : List α} (h : chosen.Sublist items)
    (hCount : chosen.length = count) : (chosen.map f).sum ≤ (greatest count (items.map f)).sum := by
  have hLe := sum_le_greatest (h.map f)
  rwa [List.length_map, hCount] at hLe

theorem sum_least_add (f g : α → K) (h : count ≤ items.length) :
    (least count (items.map f)).sum + (least count (items.map g)).sum ≤
      (least count (items.map fun a => f a + g a)).sum := by
  obtain ⟨chosen, hChosen, hCount, hSum⟩ := exists_least (fun a => f a + g a) h
  rw [← hSum, List.sum_map_add]
  exact add_le_add (sum_least_le_map f hChosen hCount) (sum_least_le_map g hChosen hCount)

theorem sum_greatest_add (f g : α → K) (h : count ≤ items.length) :
    (greatest count (items.map fun a => f a + g a)).sum ≤
      (greatest count (items.map f)).sum + (greatest count (items.map g)).sum := by
  obtain ⟨chosen, hChosen, hCount, hSum⟩ := exists_greatest (fun a => f a + g a) h
  rw [← hSum, List.sum_map_add]
  exact add_le_add (sum_map_le_greatest f hChosen hCount) (sum_map_le_greatest g hChosen hCount)

theorem sum_least_mono (hLe : ∀ a ∈ items, f a ≤ g a) (h : count ≤ items.length) :
    (least count (items.map f)).sum ≤ (least count (items.map g)).sum := by
  obtain ⟨chosen, hChosen, hCount, hSum⟩ := exists_least g h
  rw [← hSum]
  exact (sum_least_le_map f hChosen hCount).trans (List.sum_le_sum fun a ha => hLe a (hChosen.subset ha))

theorem sum_greatest_mono (hLe : ∀ a ∈ items, f a ≤ g a) (h : count ≤ items.length) :
    (greatest count (items.map f)).sum ≤ (greatest count (items.map g)).sum := by
  obtain ⟨chosen, hChosen, hCount, hSum⟩ := exists_greatest f h
  rw [← hSum]
  exact (List.sum_le_sum fun a ha => hLe a (hChosen.subset ha)).trans (sum_map_le_greatest g hChosen hCount)

end Sums

end Futur3.Prelude.ExtremeItems
