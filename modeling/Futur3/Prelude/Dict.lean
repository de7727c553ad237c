import Mathlib.Data.List.Nodup
import Mathlib.Algebra.BigOperators.Group.List.Basic
import Mathlib.Tactic.Abel

/-! # Insertion-ordered dictionaries

A key keeps the place of its first assignment; assigning again replaces the
value in place. Sums over all entries follow one assignment at a time.
-/

namespace Futur3.Prelude

universe u v w

@[ext]
structure Dict (κ : Type u) (ν : Type v) where
  items : List (κ × ν)
  nodup_keys : (items.map Prod.fst).Nodup

namespace Dict

variable {κ : Type u} {ν : Type v}

def keys (d : Dict κ ν) : List κ := d.items.map Prod.fst

def values (d : Dict κ ν) : List ν := d.items.map Prod.snd

def empty : Dict κ ν := ⟨[], List.nodup_nil⟩

@[simp] theorem keys_empty : (empty : Dict κ ν).keys = [] := rfl

@[simp] theorem values_empty : (empty : Dict κ ν).values = [] := rfl

theorem keys_nodup (d : Dict κ ν) : d.keys.Nodup := d.nodup_keys

variable [DecidableEq κ]

def lookup (k : κ) : List (κ × ν) → Option ν
  | [] => none
  | p :: rest => if p.1 = k then some p.2 else lookup k rest

def get? (d : Dict κ ν) (k : κ) : Option ν := lookup k d.items

def contains (d : Dict κ ν) (k : κ) : Bool := (d.get? k).isSome

def assign (k : κ) (v : ν) : List (κ × ν) → List (κ × ν)
  | [] => [(k, v)]
  | p :: rest => if p.1 = k then (k, v) :: rest else p :: assign k v rest

theorem map_fst_assign (k : κ) (v : ν) (items : List (κ × ν)) :
    (assign k v items).map Prod.fst =
      if k ∈ items.map Prod.fst then items.map Prod.fst else items.map Prod.fst ++ [k] := by
  induction items with
  | nil => rfl
  | cons p rest ih =>
    by_cases h : p.1 = k
    · simp [assign, h]
    · have h' : ¬k = p.1 := fun e => h e.symm
      simp only [assign, h, if_false, List.map_cons, List.mem_cons, h', false_or, ih]
      split <;> rfl

def set (d : Dict κ ν) (k : κ) (v : ν) : Dict κ ν where
  items := assign k v d.items
  nodup_keys := by
    rw [map_fst_assign]
    split
    · exact d.nodup_keys
    · rename_i h
      exact List.nodup_append.mpr ⟨d.nodup_keys, List.nodup_singleton k, fun a ha b hb hab =>
        h (List.mem_singleton.mp hb ▸ hab ▸ ha)⟩

def erase (d : Dict κ ν) (k : κ) : Dict κ ν where
  items := d.items.filter (fun p => decide (p.1 ≠ k))
  nodup_keys := d.nodup_keys.sublist (List.filter_sublist.map Prod.fst)

/-- The dictionary comprehension over a list of pairs: later pairs win. -/
def ofList (pairs : List (κ × ν)) : Dict κ ν :=
  pairs.foldl (fun d p => d.set p.1 p.2) empty

@[simp] theorem get?_empty (k : κ) : (empty : Dict κ ν).get? k = none := rfl

theorem lookup_assign (k k' : κ) (v : ν) (items : List (κ × ν)) :
    lookup k' (assign k v items) = if k' = k then some v else lookup k' items := by
  induction items with
  | nil => simp only [assign, lookup, eq_comm]
  | cons p rest ih =>
    by_cases ha : p.1 = k
    · by_cases h : k' = k
      · simp [assign, lookup, ha, h]
      · have h' : ¬k = k' := fun e => h e.symm
        simp [assign, lookup, ha, h, h']
    · by_cases hk : p.1 = k'
      · have hne : ¬k' = k := fun e => ha (hk.trans e)
        simp [assign, lookup, hk, hne]
      · simp [assign, lookup, ha, hk, ih]

theorem get?_set (d : Dict κ ν) (k k' : κ) (v : ν) :
    (d.set k v).get? k' = if k' = k then some v else d.get? k' :=
  lookup_assign k k' v d.items

@[simp] theorem get?_set_self (d : Dict κ ν) (k : κ) (v : ν) : (d.set k v).get? k = some v := by
  simp [get?_set]

theorem get?_set_of_ne (d : Dict κ ν) {k k' : κ} (v : ν) (h : k' ≠ k) :
    (d.set k v).get? k' = d.get? k' := by
  simp [get?_set, h]

/-- Assigning the value a key already has changes nothing. -/
theorem set_self {d : Dict κ ν} {k : κ} {v : ν} (h : d.get? k = some v) : d.set k v = d := by
  refine Dict.ext ?_
  obtain ⟨items, hNodup⟩ := d
  change lookup k items = some v at h
  change assign k v items = items
  clear hNodup
  induction items with
  | nil => cases h
  | cons p rest ih =>
    by_cases hp : p.1 = k
    · rw [lookup, if_pos hp, Option.some.injEq] at h
      rw [assign, if_pos hp, ← hp, ← h]
    · rw [lookup, if_neg hp] at h
      rw [assign, if_neg hp, ih h]

theorem lookup_filter_ne (k k' : κ) (items : List (κ × ν)) :
    lookup k' (items.filter (fun p => decide (p.1 ≠ k))) =
      if k' = k then none else lookup k' items := by
  induction items with
  | nil => simp [lookup]
  | cons p rest ih =>
    by_cases ha : p.1 = k
    · rw [List.filter_cons_of_neg (by simp [ha]), ih]
      by_cases hk : k' = k
      · simp [hk]
      · have hne : ¬p.1 = k' := fun e => hk (e.symm.trans ha)
        simp [lookup, hk, hne]
    · rw [List.filter_cons_of_pos (by simp [ha])]
      by_cases hk : p.1 = k'
      · have hne : ¬k' = k := fun e => ha (hk.trans e)
        simp [lookup, hk, hne]
      · rw [lookup, if_neg hk, lookup, if_neg hk, ih]

theorem get?_erase (d : Dict κ ν) (k k' : κ) :
    (d.erase k).get? k' = if k' = k then none else d.get? k' :=
  lookup_filter_ne k k' d.items

theorem mem_iff_lookup (k : κ) (v : ν) (items : List (κ × ν))
    (hNodup : (items.map Prod.fst).Nodup) : (k, v) ∈ items ↔ lookup k items = some v := by
  induction items with
  | nil => simp [lookup]
  | cons p rest ih =>
    obtain ⟨hp, hRest⟩ := List.nodup_cons.mp hNodup
    by_cases hk : p.1 = k
    · have hNot : (k, v) ∉ rest := fun h => hp (List.mem_map.mpr ⟨_, h, hk.symm⟩)
      simp [lookup, hNot, hk, Prod.ext_iff, eq_comm]
    · have hne : (k, v) ≠ p := fun e => hk (congrArg Prod.fst e).symm
      simp [lookup, hk, hne, ih hRest]

theorem mem_items_iff (d : Dict κ ν) (k : κ) (v : ν) :
    (k, v) ∈ d.items ↔ d.get? k = some v :=
  mem_iff_lookup k v d.items d.nodup_keys

theorem mem_keys_iff (d : Dict κ ν) (k : κ) : k ∈ d.keys ↔ ∃ v, d.get? k = some v := by
  constructor
  · intro h
    obtain ⟨⟨a, b⟩, hp, rfl⟩ := List.mem_map.mp h
    exact ⟨b, (d.mem_items_iff a b).mp hp⟩
  · rintro ⟨v, h⟩
    exact List.mem_map.mpr ⟨(k, v), (d.mem_items_iff k v).mpr h, rfl⟩

theorem mem_values_iff (d : Dict κ ν) (v : ν) : v ∈ d.values ↔ ∃ k, d.get? k = some v := by
  constructor
  · intro h
    obtain ⟨⟨a, b⟩, hp, rfl⟩ := List.mem_map.mp h
    exact ⟨a, (d.mem_items_iff a b).mp hp⟩
  · rintro ⟨k, h⟩
    exact List.mem_map.mpr ⟨(k, v), (d.mem_items_iff k v).mpr h, rfl⟩

theorem get?_eq_none_iff (d : Dict κ ν) (k : κ) : d.get? k = none ↔ k ∉ d.keys := by
  rw [mem_keys_iff]
  cases d.get? k <;> simp

/-! ## Comprehensions -/

theorem lookup_append (k : κ) (xs ys : List (κ × ν)) :
    lookup k (xs ++ ys) = (lookup k xs).or (lookup k ys) := by
  induction xs with
  | nil => simp [lookup]
  | cons p rest ih =>
    by_cases hp : p.1 = k
    · simp [lookup, hp]
    · simp [lookup, hp, ih]

theorem lookup_filter {p : κ → Bool} {k : κ} (h : p k = true) (items : List (κ × ν)) :
    lookup k (items.filter fun item => p item.1) = lookup k items := by
  induction items with
  | nil => rfl
  | cons item rest ih =>
    rw [List.filter_cons]
    by_cases hItem : item.1 = k
    · rw [hItem, if_pos h, lookup, lookup, if_pos hItem, if_pos hItem]
    · split
      · rw [lookup, lookup, if_neg hItem, if_neg hItem, ih]
      · rw [ih, lookup, if_neg hItem]

theorem lookup_map_snd {μ : Type w} (f : ν → μ) (k : κ) (items : List (κ × ν)) :
    lookup k (items.map fun p => (p.1, f p.2)) = (lookup k items).map f := by
  induction items with
  | nil => rfl
  | cons p rest ih =>
    rw [List.map_cons, lookup, lookup, ih]
    split <;> rfl

/-- The last pair of a key decides its value. -/
theorem get?_ofList (pairs : List (κ × ν)) (k : κ) :
    (ofList pairs).get? k = lookup k pairs.reverse := by
  suffices h : ∀ d : Dict κ ν, (pairs.foldl (fun d p => d.set p.1 p.2) d).get? k =
      (lookup k pairs.reverse).or (d.get? k) by
    rw [ofList, h, get?_empty, Option.or_none]
  induction pairs with
  | nil => simp [lookup]
  | cons p rest ih =>
    intro d
    rw [List.foldl_cons, ih, List.reverse_cons, lookup_append, Option.or_assoc]
    by_cases hp : p.1 = k
    · simp [lookup, hp]
    · simp [lookup, hp, get?_set_of_ne d p.2 fun e => hp e.symm]

theorem mem_of_lookup {k : κ} {v : ν} {items : List (κ × ν)} (h : lookup k items = some v) :
    (k, v) ∈ items := by
  induction items with
  | nil => cases h
  | cons p rest ih =>
    by_cases hp : p.1 = k
    · rw [lookup, if_pos hp, Option.some.injEq] at h
      exact List.mem_cons.mpr (.inl (Prod.ext hp.symm h.symm))
    · rw [lookup, if_neg hp] at h
      exact List.mem_cons_of_mem p (ih h)

theorem lookup_isSome_of_mem {k : κ} {v : ν} {items : List (κ × ν)} (h : (k, v) ∈ items) :
    (lookup k items).isSome := by
  induction items with
  | nil => cases h
  | cons p rest ih =>
    by_cases hp : p.1 = k
    · simp [lookup, hp]
    · rw [lookup, if_neg hp]
      rcases List.mem_cons.mp h with rfl | hRest
      · exact absurd rfl hp
      · exact ih hRest

theorem mem_of_get?_ofList {pairs : List (κ × ν)} {k : κ} {v : ν}
    (h : (ofList pairs).get? k = some v) : (k, v) ∈ pairs := by
  rw [get?_ofList] at h
  exact List.mem_reverse.mp (mem_of_lookup h)

theorem exists_get?_ofList {pairs : List (κ × ν)} {k : κ} {v : ν} (h : (k, v) ∈ pairs) :
    ∃ w, (ofList pairs).get? k = some w := by
  rw [get?_ofList]
  exact Option.isSome_iff_exists.mp (lookup_isSome_of_mem (List.mem_reverse.mpr h))

/-- Pairs of different keys are all kept. -/
theorem mem_iff_get?_ofList {pairs : List (κ × ν)} (hKeys : (pairs.map Prod.fst).Nodup) {k : κ}
    {v : ν} : (k, v) ∈ pairs ↔ (ofList pairs).get? k = some v := by
  have hReverse : (pairs.reverse.map Prod.fst).Nodup := by
    rw [List.map_reverse]
    exact List.nodup_reverse.mpr hKeys
  rw [get?_ofList, ← mem_iff_lookup k v _ hReverse, List.mem_reverse]

/-! ## Reordering -/

omit [DecidableEq κ] in
theorem items_nodup (d : Dict κ ν) : d.items.Nodup := .of_map Prod.fst d.nodup_keys

/-- The same entries in any order. -/
def Reordered (d d' : Dict κ ν) : Prop := d.items.Perm d'.items

omit [DecidableEq κ] in
theorem Reordered.keys {d d' : Dict κ ν} (h : Reordered d d') : d.keys.Perm d'.keys :=
  List.Perm.map Prod.fst h

theorem Reordered.get?_eq {d d' : Dict κ ν} (h : Reordered d d') (k : κ) :
    d.get? k = d'.get? k := by
  ext v
  rw [← mem_items_iff, ← mem_items_iff]
  exact List.Perm.mem_iff h

theorem reordered_iff {d d' : Dict κ ν} : Reordered d d' ↔ ∀ k, d.get? k = d'.get? k := by
  constructor
  · exact Reordered.get?_eq
  · intro h
    apply (List.perm_ext_iff_of_nodup d.items_nodup d'.items_nodup).mpr
    rintro ⟨k, v⟩
    rw [mem_items_iff, mem_items_iff, h]

theorem Reordered.set {d d' : Dict κ ν} (h : Reordered d d') (k : κ) (v : ν) :
    Reordered (d.set k v) (d'.set k v) := by
  rw [reordered_iff]
  intro k'
  rw [get?_set, get?_set, h.get?_eq]

theorem reordered_ofList {pairs pairs' : List (κ × ν)} (h : pairs.Perm pairs')
    (hKeys : (pairs.map Prod.fst).Nodup) : Reordered (ofList pairs) (ofList pairs') := by
  rw [reordered_iff]
  intro k
  have hKeys' : (pairs'.map Prod.fst).Nodup := (h.map Prod.fst).nodup hKeys
  ext v
  rw [← mem_iff_get?_ofList hKeys, ← mem_iff_get?_ofList hKeys']
  exact h.mem_iff

section Total

variable {M : Type w} [AddCommGroup M]

def total (d : Dict κ ν) (weight : κ → ν → M) : M :=
  (d.items.map fun p => weight p.1 p.2).sum

omit [DecidableEq κ] in
@[simp] theorem total_empty (weight : κ → ν → M) : (empty : Dict κ ν).total weight = 0 := rfl

/-- One assignment replaces the old entry's weight, if there was one, by the new. -/
theorem total_set (d : Dict κ ν) (k : κ) (v : ν) (weight : κ → ν → M) :
    (d.set k v).total weight =
      d.total weight - ((d.get? k).elim 0 (weight k)) + weight k v := by
  obtain ⟨items, hNodup⟩ := d
  change ((assign k v items).map _).sum = (items.map _).sum - (lookup k items).elim 0 _ + _
  clear hNodup
  induction items with
  | nil => simp [assign, lookup]
  | cons p rest ih =>
    by_cases hp : p.1 = k
    · simp only [assign, lookup, hp, if_true, List.map_cons, List.sum_cons, Option.elim_some]
      abel
    · simp only [assign, lookup, hp, if_false, List.map_cons, List.sum_cons, ih]
      abel

theorem total_erase (d : Dict κ ν) (k : κ) (weight : κ → ν → M) :
    (d.erase k).total weight = d.total weight - (d.get? k).elim 0 (weight k) := by
  obtain ⟨items, hNodup⟩ := d
  change ((items.filter _).map _).sum = (items.map _).sum - (lookup k items).elim 0 _
  induction items with
  | nil => simp [lookup]
  | cons p rest ih =>
    obtain ⟨hp, hRest⟩ := List.nodup_cons.mp hNodup
    by_cases hk : p.1 = k
    · have hNone : rest.filter (fun q => decide (q.1 ≠ k)) = rest := by
        refine List.filter_eq_self.mpr fun q hq => decide_eq_true fun e => hp ?_
        exact List.mem_map.mpr ⟨q, hq, e.trans hk.symm⟩
      rw [List.filter_cons_of_neg (by simp [hk]), hNone, lookup, if_pos hk]
      simp [hk]
    · rw [List.filter_cons_of_pos (by simp [hk]), lookup, if_neg hk, List.map_cons, List.sum_cons,
        List.map_cons, List.sum_cons, ih hRest]
      abel

theorem total_of_empty {d : Dict κ ν} (h : ∀ k, d.get? k = none) (weight : κ → ν → M) :
    d.total weight = 0 := by
  have hItems : d.items = [] := List.eq_nil_iff_forall_not_mem.mpr fun p hp => by
    have := (d.mem_items_iff p.1 p.2).mp hp
    rw [h p.1] at this
    cases this
  rw [total, hItems]
  rfl

theorem total_congr (d : Dict κ ν) {f g : κ → ν → M}
    (h : ∀ k v, d.get? k = some v → f k v = g k v) : d.total f = d.total g := by
  refine congrArg List.sum (List.map_congr_left ?_)
  rintro ⟨k, v⟩ hp
  exact h k v ((d.mem_items_iff k v).mp hp)

/-- Changing the weight of one entry changes the total by the difference. -/
theorem total_replace (d : Dict κ ν) {f g : κ → ν → M} {k : κ} {v : ν} (hGet : d.get? k = some v)
    (hOther : ∀ k' v', k' ≠ k → g k' v' = f k' v') : d.total g = d.total f - f k v + g k v := by
  obtain ⟨items, hNodup⟩ := d
  change lookup k items = some v at hGet
  change (items.map _).sum = (items.map _).sum - f k v + g k v
  induction items with
  | nil => cases hGet
  | cons p rest ih =>
    obtain ⟨hp, hRest⟩ := List.nodup_cons.mp hNodup
    simp only [List.map_cons, List.sum_cons]
    by_cases hk : p.1 = k
    · rw [lookup, if_pos hk, Option.some.injEq] at hGet
      have hSame : rest.map (fun p => g p.1 p.2) = rest.map fun p => f p.1 p.2 :=
        List.map_congr_left fun q hq => hOther q.1 q.2 fun e =>
          hp (List.mem_map.mpr ⟨q, hq, e.trans hk.symm⟩)
      rw [hSame, hk, hGet]
      abel
    · rw [lookup, if_neg hk] at hGet
      rw [hOther p.1 p.2 hk, ih hRest hGet]
      abel

end Total

end Dict

end Futur3.Prelude
