import Mathlib.Data.List.Sort
import Mathlib.Order.OrderDual

/-! # Selecting and sorting by a key

The least and the greatest item of a nonempty list by a key, the first one
where several tie, and stable sorting by a key. Neither depends on the order
of the list as long as the keys tell its items apart.
-/

namespace Futur3.Prelude.Selection

universe u v

variable {α : Type u} {β : Type v} [LinearOrder β]

def minBy (key : α → β) (first : α) (rest : List α) : α :=
  rest.foldl (fun best a => if key a < key best then a else best) first

def maxBy (key : α → β) (first : α) (rest : List α) : α :=
  minBy (fun a => OrderDual.toDual (key a)) first rest

def sortBy (key : α → β) (items : List α) : List α :=
  items.insertionSort (fun a b => key a ≤ key b)

def LeastFirst (key : α → β) (items : List α) (x : α) : Prop :=
  ∃ before after, items = before ++ x :: after ∧ (∀ b ∈ before, key x < key b) ∧
    ∀ b ∈ after, key x ≤ key b

theorem LeastFirst.mem {key : α → β} {items : List α} {x : α} (h : LeastFirst key items x) :
    x ∈ items := by
  obtain ⟨before, after, rfl, -, -⟩ := h
  exact List.mem_append_right before List.mem_cons_self

theorem LeastFirst.le {key : α → β} {items : List α} {x : α} (h : LeastFirst key items x) :
    ∀ b ∈ items, key x ≤ key b := by
  obtain ⟨before, after, rfl, hBefore, hAfter⟩ := h
  intro b hb
  rcases List.mem_append.mp hb with hb | hb
  · exact (hBefore b hb).le
  · rcases List.mem_cons.mp hb with rfl | hb
    · exact le_rfl
    · exact hAfter b hb

theorem LeastFirst.unique {key : α → β} {items : List α} {x y : α} (hx : LeastFirst key items x)
    (hy : LeastFirst key items y) : x = y := by
  have hKeys : key x = key y := le_antisymm (hx.le y hy.mem) (hy.le x hx.mem)
  obtain ⟨before, after, rfl, hBefore, -⟩ := hx
  obtain ⟨before', after', hItems, hBefore', -⟩ := hy
  rcases List.append_eq_append_iff.mp hItems with ⟨mid, rfl, hMid⟩ | ⟨mid, rfl, hMid⟩
  · rcases mid with _ | ⟨m, mid⟩
    · exact (List.cons.inj hMid).1
    · obtain ⟨rfl, -⟩ := List.cons.inj hMid
      exact absurd hKeys.symm (hBefore' x (by simp)).ne
  · rcases mid with _ | ⟨m, mid⟩
    · exact (List.cons.inj hMid).1.symm
    · obtain ⟨rfl, -⟩ := List.cons.inj hMid
      exact absurd hKeys (hBefore y (by simp)).ne

theorem minBy_nil (key : α → β) (first : α) : minBy key first [] = first := rfl

theorem minBy_cons (key : α → β) (first a : α) (rest : List α) :
    minBy key first (a :: rest) = minBy key (if key a < key first then a else first) rest := rfl

theorem minBy_spec (key : α → β) (first : α) (rest : List α) :
    LeastFirst key (first :: rest) (minBy key first rest) := by
  -- the best so far, with what has been passed over before and after it
  suffices hFrom : ∀ rest before best after, (∀ b ∈ before, key best < key b) →
      (∀ b ∈ after, key best ≤ key b) →
      LeastFirst key (before ++ best :: after ++ rest) (minBy key best rest) from
    hFrom rest [] first [] (by simp) (by simp)
  intro rest
  induction rest with
  | nil =>
    intro before best after hBefore hAfter
    exact ⟨before, after, by simp [minBy_nil], hBefore, hAfter⟩
  | cons a rest ih =>
    intro before best after hBefore hAfter
    rw [minBy_cons]
    by_cases ha : key a < key best
    · rw [if_pos ha]
      have hPassed : ∀ b ∈ before ++ best :: after, key a < key b := by
        intro b hb
        rcases List.mem_append.mp hb with hb | hb
        · exact ha.trans (hBefore b hb)
        · rcases List.mem_cons.mp hb with rfl | hb
          · exact ha
          · exact ha.trans_le (hAfter b hb)
      simpa using ih (before ++ best :: after) a [] hPassed (by simp)
    · rw [if_neg ha]
      have hLater : ∀ b ∈ after ++ [a], key best ≤ key b := by
        intro b hb
        rcases List.mem_append.mp hb with hb | hb
        · exact hAfter b hb
        · rw [List.mem_singleton.mp hb]
          exact not_lt.mp ha
      simpa using ih before best (after ++ [a]) hBefore hLater

theorem minBy_perm {key : α → β} (hKey : Function.Injective key) {first first' : α}
    {rest rest' : List α} (h : (first :: rest).Perm (first' :: rest')) :
    minBy key first rest = minBy key first' rest' := by
  have hLeast := minBy_spec key first rest
  have hLeast' := minBy_spec key first' rest'
  apply hKey
  exact le_antisymm (hLeast.le _ (h.symm.subset hLeast'.mem)) (hLeast'.le _ (h.subset hLeast.mem))

theorem maxBy_perm {key : α → β} (hKey : Function.Injective key) {first first' : α}
    {rest rest' : List α} (h : (first :: rest).Perm (first' :: rest')) :
    maxBy key first rest = maxBy key first' rest' :=
  minBy_perm (fun _ _ hab => hKey (OrderDual.toDual.injective hab)) h

/-- The keys of the list tell its items apart. -/
theorem minBy_eq_of_perm {key : α → β} {first first' : α} {rest rest' : List α}
    (h : (first :: rest).Perm (first' :: rest')) (hKeys : ((first :: rest).map key).Nodup) :
    minBy key first rest = minBy key first' rest' := by
  have hLeast := minBy_spec key first rest
  have hLeast' := minBy_spec key first' rest'
  have hMem := h.symm.subset hLeast'.mem
  exact List.inj_on_of_nodup_map hKeys hLeast.mem hMem
    (le_antisymm (hLeast.le _ hMem) (hLeast'.le _ (h.subset hLeast.mem)))

theorem maxBy_eq_of_perm {key : α → β} {first first' : α} {rest rest' : List α}
    (h : (first :: rest).Perm (first' :: rest')) (hKeys : ((first :: rest).map key).Nodup) :
    maxBy key first rest = maxBy key first' rest' :=
  minBy_eq_of_perm h hKeys

theorem maxBy_mem (key : α → β) (first : α) (rest : List α) :
    maxBy key first rest ∈ first :: rest :=
  (minBy_spec _ first rest).mem

theorem sortBy_perm_self (key : α → β) (items : List α) : (sortBy key items).Perm items :=
  List.perm_insertionSort _ items

theorem pairwise_sortBy (key : α → β) (items : List α) :
    (sortBy key items).Pairwise (fun a b => key a ≤ key b) := by
  have : Std.Total (fun a b : α => key a ≤ key b) := ⟨fun a b => le_total (key a) (key b)⟩
  have : IsTrans α (fun a b => key a ≤ key b) := ⟨fun a b c => le_trans⟩
  exact List.pairwise_insertionSort _ items

/-- Sorting forgets the order as long as the key tells the items apart. -/
theorem sortBy_eq_of_perm_of_keys {key : α → β} {xs ys : List α} (h : xs.Perm ys)
    (hKeys : ∀ a ∈ xs, ∀ b ∈ xs, key a = key b → a = b) : sortBy key xs = sortBy key ys := by
  have hPerm : (sortBy key xs).Perm (sortBy key ys) :=
    (sortBy_perm_self key xs).trans (h.trans (sortBy_perm_self key ys).symm)
  refine hPerm.eq_of_pairwise ?_ (pairwise_sortBy key xs) (pairwise_sortBy key ys)
  intro a b ha hb hab hba
  have haMem := (sortBy_perm_self key xs).subset ha
  have hbMem := h.symm.subset ((sortBy_perm_self key ys).subset hb)
  exact hKeys a haMem b hbMem (le_antisymm hab hba)

theorem sortBy_eq_of_perm {key : α → β} {xs ys : List α} (h : xs.Perm ys)
    (hKeys : (xs.map key).Nodup) : sortBy key xs = sortBy key ys :=
  sortBy_eq_of_perm_of_keys h fun _ ha _ hb => List.inj_on_of_nodup_map hKeys ha hb

/-- Sorting values by themselves forgets the order altogether. -/
theorem sort_eq_of_perm {xs ys : List β} (h : xs.Perm ys) :
    xs.insertionSort (· ≤ ·) = ys.insertionSort (· ≤ ·) := by
  have hPerm : (sortBy id xs).Perm (sortBy id ys) :=
    (sortBy_perm_self id xs).trans (h.trans (sortBy_perm_self id ys).symm)
  refine hPerm.eq_of_pairwise ?_ (pairwise_sortBy id xs) (pairwise_sortBy id ys)
  intro a b _ _ hab hba
  exact le_antisymm hab hba

end Futur3.Prelude.Selection
