import Futur3.Prelude.Selection

/-! # Stability of sorting by a key

Items that share a key keep their order, and that is all the order of a list
adds to what is in it: two lists sort to the same list exactly when every key
has the same items in the same order in both.
-/

namespace Futur3.Prelude.Selection

universe u v

variable {α : Type u} {β : Type v} [LinearOrder β]

theorem sortBy_cons (key : α → β) (a : α) (items : List α) :
    sortBy key (a :: items) =
      (sortBy key items).orderedInsert (fun a b => key a ≤ key b) a := rfl

theorem sortBy_of_pairwise {key : α → β} {items : List α}
    (h : items.Pairwise fun a b => key a ≤ key b) : sortBy key items = items :=
  h.insertionSort_eq

theorem mem_sortBy {key : α → β} {items : List α} {a : α} : a ∈ sortBy key items ↔ a ∈ items :=
  (sortBy_perm_self key items).mem_iff

theorem length_sortBy (key : α → β) (items : List α) :
    (sortBy key items).length = items.length :=
  (sortBy_perm_self key items).length_eq

/-- Sorting by a key that the image of an item has. -/
theorem sortBy_map {γ : Type u} (key : γ → β) (f : α → γ) (items : List α) :
    sortBy key (items.map f) = (sortBy (key ∘ f) items).map f :=
  (List.map_insertionSort (fun a b => key (f a) ≤ key (f b)) (fun c d => key c ≤ key d) f items
    fun _ _ _ _ => Iff.rfl).symm

theorem orderedInsert_filter_of_neg (key : α → β) {p : α → Bool} {a : α} (ha : p a = false)
    (items : List α) :
    (items.orderedInsert (fun a b => key a ≤ key b) a).filter p = items.filter p := by
  induction items with
  | nil => simp [ha]
  | cons b rest ih =>
    rw [List.orderedInsert_cons]
    split_ifs
    · rw [List.filter_cons, ha]
      rfl
    · rw [List.filter_cons, List.filter_cons, ih]

theorem orderedInsert_filter_of_pos {key : α → β} {p : α → Bool} {a : α} (ha : p a = true)
    {items : List α} (hSorted : items.Pairwise fun a b => key a ≤ key b) :
    (items.orderedInsert (fun a b => key a ≤ key b) a).filter p =
      (items.filter p).orderedInsert (fun a b => key a ≤ key b) a := by
  induction items with
  | nil => simp [ha]
  | cons b rest ih =>
    obtain ⟨hb, hRest⟩ := List.pairwise_cons.mp hSorted
    rw [List.orderedInsert_cons]
    split_ifs with hLe
    · -- everything that passes the filter comes after `b`, so after `a`
      have hAll : ∀ c ∈ (b :: rest).filter p, key a ≤ key c := by
        intro c hc
        rcases List.mem_cons.mp (List.mem_filter.mp hc).1 with rfl | hc
        · exact hLe
        · exact hLe.trans (hb c hc)
      rw [List.filter_cons, if_pos ha]
      cases hFiltered : (b :: rest).filter p with
      | nil => rfl
      | cons c tail =>
        rw [hFiltered] at hAll
        rw [List.orderedInsert_cons, if_pos (hAll c List.mem_cons_self)]
    · rw [List.filter_cons, List.filter_cons, ih hRest]
      split_ifs with hpb
      · rw [List.orderedInsert_cons, if_neg hLe]
      · rfl

/-- Selecting before or after sorting is the same. -/
theorem sortBy_filter (key : α → β) (p : α → Bool) (items : List α) :
    (sortBy key items).filter p = sortBy key (items.filter p) := by
  induction items with
  | nil => rfl
  | cons a rest ih =>
    rw [sortBy_cons, List.filter_cons]
    cases ha : p a with
    | true =>
      rw [orderedInsert_filter_of_pos ha (pairwise_sortBy key rest), ih, if_pos rfl, sortBy_cons]
    | false => rw [orderedInsert_filter_of_neg key ha, ih, if_neg (by simp)]

def ofKey (key : α → β) (k : β) (items : List α) : List α :=
  items.filter fun a => key a = k

theorem mem_ofKey {key : α → β} {k : β} {items : List α} {a : α} :
    a ∈ ofKey key k items ↔ a ∈ items ∧ key a = k := by
  rw [ofKey, List.mem_filter, decide_eq_true_iff]

theorem ofKey_flatMap {γ : Type u} (key : α → β) (k : β) (f : γ → List α) (items : List γ) :
    ofKey key k (items.flatMap f) = items.flatMap fun c => ofKey key k (f c) :=
  List.filter_flatMap

/-- The items of one key are found in the order in which they were given. -/
theorem ofKey_sortBy (key : α → β) (k : β) (items : List α) :
    ofKey key k (sortBy key items) = ofKey key k items := by
  unfold ofKey
  rw [sortBy_filter]
  apply sortBy_of_pairwise
  apply List.pairwise_of_forall_mem_list
  intro a ha b hb
  have hKey : key a = k := by simpa using (List.mem_filter.mp ha).2
  have hKey' : key b = k := by simpa using (List.mem_filter.mp hb).2
  exact (hKey.trans hKey'.symm).le

theorem pairwise_eq_of_ofKey {key : α → β} {xs ys : List α}
    (hxs : xs.Pairwise fun a b => key a ≤ key b) (hys : ys.Pairwise fun a b => key a ≤ key b)
    (h : ∀ k, ofKey key k xs = ofKey key k ys) : xs = ys := by
  induction xs generalizing ys with
  | nil =>
    cases ys with
    | nil => rfl
    | cons b rest =>
      have hNone := h (key b)
      simp [ofKey] at hNone
  | cons a rest ih =>
    cases ys with
    | nil =>
      have hNone := h (key a)
      simp [ofKey] at hNone
    | cons b rest' =>
      obtain ⟨ha, hRest⟩ := List.pairwise_cons.mp hxs
      obtain ⟨hb, hRest'⟩ := List.pairwise_cons.mp hys
      have hLe : key b ≤ key a := by
        have hMem : a ∈ ofKey key (key a) (b :: rest') := by
          rw [← h (key a)]
          simp [ofKey]
        rcases List.mem_cons.mp (List.mem_filter.mp hMem).1 with rfl | hMem
        · exact le_rfl
        · exact hb a hMem
      have hGe : key a ≤ key b := by
        have hMem : b ∈ ofKey key (key b) (a :: rest) := by
          rw [h (key b)]
          simp [ofKey]
        rcases List.mem_cons.mp (List.mem_filter.mp hMem).1 with rfl | hMem
        · exact le_rfl
        · exact ha b hMem
      have hKeys : key b = key a := le_antisymm hLe hGe
      have hHead := h (key a)
      simp only [ofKey, List.filter_cons, hKeys, decide_true, if_true] at hHead
      obtain ⟨rfl, -⟩ := List.cons.inj hHead
      refine congrArg (a :: ·) (ih hRest hRest' ?_)
      intro k
      have hk := h k
      unfold ofKey at hk ⊢
      rw [List.filter_cons, List.filter_cons] at hk
      split_ifs at hk
      · exact (List.cons.inj hk).2
      · exact hk

theorem sortBy_eq_iff {key : α → β} {xs ys : List α} :
    sortBy key xs = sortBy key ys ↔ ∀ k, ofKey key k xs = ofKey key k ys := by
  constructor
  · intro h k
    rw [← ofKey_sortBy, h, ofKey_sortBy]
  · intro h
    apply pairwise_eq_of_ofKey (pairwise_sortBy key xs) (pairwise_sortBy key ys)
    intro k
    rw [ofKey_sortBy, ofKey_sortBy, h]

/-- A part that is sorted already may be sorted again with what is added to it. -/
theorem sortBy_append_sortBy (key : α → β) (xs ys : List α) :
    sortBy key (sortBy key xs ++ ys) = sortBy key (xs ++ ys) := by
  rw [sortBy_eq_iff]
  intro k
  have hLeft := ofKey_sortBy key k xs
  unfold ofKey at hLeft ⊢
  rw [List.filter_append, List.filter_append, hLeft]

theorem sortBy_sortBy (key : α → β) (items : List α) : sortBy key (sortBy key items) = sortBy key items :=
  sortBy_of_pairwise (pairwise_sortBy key items)

/-- What is selected from the front on stands at the front. -/
theorem filter_prefix_of_pairwise {p : α → Bool} {items : List α}
    (h : items.Pairwise fun a b => p b = true → p a = true) : items.filter p <+: items := by
  induction items with
  | nil => exact List.prefix_rfl
  | cons a rest ih =>
    obtain ⟨hFirst, hRest⟩ := List.pairwise_cons.mp h
    rw [List.filter_cons]
    split
    · exact List.prefix_cons_inj a |>.mpr (ih hRest)
    · rename_i hOut
      have hNone : rest.filter p = [] := by
        rw [List.filter_eq_nil_iff]
        exact fun b hb hIn => hOut (hFirst b hb hIn)
      rw [hNone]
      exact List.nil_prefix

theorem sortBy_eq_nil_iff {key : α → β} {items : List α} : sortBy key items = [] ↔ items = [] := by
  rw [← List.length_eq_zero_iff, length_sortBy, List.length_eq_zero_iff]

end Futur3.Prelude.Selection
