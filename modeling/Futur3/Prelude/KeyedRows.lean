import Futur3.Prelude.StableSort

/-! # Rows with a key

Removing duplicates in a batch, joining what is new to what exists, and the
sorted union of the two. A key is either found in the existing rows, which
keep their row, or takes the last row of the batch.
-/

namespace Futur3.Prelude

open Selection

universe u v w

variable {ρ : Type u} {κ : Type v} {τ : Type w} [DecidableEq κ] (key : ρ → κ)

/-- `unique(subset=key, keep="last", maintain_order=True)`. -/
def keepLast : List ρ → List ρ
  | [] => []
  | r :: rest => if key r ∈ rest.map key then keepLast rest else r :: keepLast rest

/-- `new.join(existing, on=key, how="anti")`. -/
def antiJoin (new existing : List ρ) : List ρ :=
  new.filter fun r => key r ∉ existing.map key

def lastOf (k : κ) (rows : List ρ) : Option ρ := rows.reverse.find? fun r => key r = k

variable {key}

theorem keepLast_sublist (rows : List ρ) : (keepLast key rows).Sublist rows := by
  induction rows with
  | nil => exact List.Sublist.slnil
  | cons r rest ih =>
    rw [keepLast]
    split_ifs
    · exact ih.cons r
    · exact ih.cons_cons r

theorem mem_map_keepLast {k : κ} {rows : List ρ} :
    k ∈ (keepLast key rows).map key ↔ k ∈ rows.map key := by
  induction rows with
  | nil => exact Iff.rfl
  | cons r rest ih =>
    rw [keepLast]
    split_ifs with h
    · rw [ih, List.map_cons, List.mem_cons]
      constructor
      · exact Or.inr
      · rintro (rfl | hk)
        · exact h
        · exact hk
    · rw [List.map_cons, List.map_cons, List.mem_cons, List.mem_cons, ih]

theorem nodup_keepLast (rows : List ρ) : ((keepLast key rows).map key).Nodup := by
  induction rows with
  | nil => exact List.nodup_nil
  | cons r rest ih =>
    rw [keepLast]
    split_ifs with h
    · exact ih
    · rw [List.map_cons, List.nodup_cons, mem_map_keepLast]
      exact ⟨h, ih⟩

theorem keepLast_of_nodup {rows : List ρ} (h : (rows.map key).Nodup) : keepLast key rows = rows := by
  induction rows with
  | nil => rfl
  | cons r rest ih =>
    obtain ⟨hr, hRest⟩ := List.nodup_cons.mp h
    rw [keepLast, if_neg hr, ih hRest]

theorem antiJoin_nil (new : List ρ) : antiJoin key new [] = new := by
  simp [antiJoin]

theorem mem_antiJoin {new existing : List ρ} {r : ρ} :
    r ∈ antiJoin key new existing ↔ r ∈ new ∧ key r ∉ existing.map key := by
  simp [antiJoin]

theorem antiJoin_of_disjoint {new existing : List ρ}
    (h : ∀ r ∈ new, key r ∉ existing.map key) : antiJoin key new existing = new :=
  List.filter_eq_self.mpr fun r hr => decide_eq_true (h r hr)

theorem length_antiJoin_le (new existing : List ρ) :
    (antiJoin key new existing).length ≤ new.length :=
  List.length_filter_le _ new

theorem length_keepLast_le (rows : List ρ) : (keepLast key rows).length ≤ rows.length :=
  (keepLast_sublist rows).length_le

/-! ## The last row of a key -/

theorem lastOf_append (k : κ) (xs ys : List ρ) :
    lastOf key k (xs ++ ys) = (lastOf key k ys).or (lastOf key k xs) := by
  unfold lastOf
  rw [List.reverse_append, List.find?_append]

@[simp] theorem lastOf_nil (k : κ) : lastOf key k ([] : List ρ) = none := rfl

theorem lastOf_cons (k : κ) (r : ρ) (rest : List ρ) :
    lastOf key k (r :: rest) = (lastOf key k rest).or (if key r = k then some r else none) := by
  rw [← List.singleton_append, lastOf_append]
  unfold lastOf
  by_cases h : key r = k <;> simp [h]

theorem key_of_lastOf {k : κ} {rows : List ρ} {r : ρ} (h : lastOf key k rows = some r) :
    key r = k := by
  simpa using List.find?_some h

theorem mem_of_lastOf {k : κ} {rows : List ρ} {r : ρ} (h : lastOf key k rows = some r) :
    r ∈ rows :=
  List.mem_reverse.mp (List.mem_of_find?_eq_some h)

theorem lastOf_eq_none_iff {k : κ} {rows : List ρ} :
    lastOf key k rows = none ↔ k ∉ rows.map key := by
  simp [lastOf]

theorem exists_lastOf {k : κ} {rows : List ρ} (h : k ∈ rows.map key) :
    ∃ r, lastOf key k rows = some r := by
  cases hLast : lastOf key k rows with
  | none => exact absurd h (lastOf_eq_none_iff.mp hLast)
  | some r => exact ⟨r, rfl⟩

theorem lastOf_keepLast (k : κ) (rows : List ρ) :
    lastOf key k (keepLast key rows) = lastOf key k rows := by
  induction rows with
  | nil => rfl
  | cons r rest ih =>
    rw [keepLast]
    split_ifs with h
    · rw [ih, lastOf_cons]
      by_cases hk : key r = k
      · obtain ⟨s, hs⟩ := exists_lastOf (hk ▸ h)
        rw [hs, Option.some_or]
      · rw [if_neg hk, Option.or_none]
    · rw [lastOf_cons, lastOf_cons, ih]

theorem lastOf_eq_some_iff {rows : List ρ} (hNodup : (rows.map key).Nodup) {k : κ} {r : ρ} :
    lastOf key k rows = some r ↔ r ∈ rows ∧ key r = k := by
  constructor
  · exact fun h => ⟨mem_of_lastOf h, key_of_lastOf h⟩
  · rintro ⟨hr, rfl⟩
    have hMem : key r ∈ rows.map key := List.mem_map_of_mem hr
    obtain ⟨s, hs⟩ := exists_lastOf hMem
    have hSame := List.inj_on_of_nodup_map hNodup (mem_of_lastOf hs) hr (key_of_lastOf hs)
    rw [hs, hSame]

/-- Without duplicates the order of the rows does not matter. -/
theorem lastOf_perm {xs ys : List ρ} (h : xs.Perm ys) (hNodup : (xs.map key).Nodup) (k : κ) :
    lastOf key k xs = lastOf key k ys := by
  have hNodup' : (ys.map key).Nodup := (h.map key).nodup_iff.mp hNodup
  apply Option.ext
  intro r
  rw [lastOf_eq_some_iff hNodup, lastOf_eq_some_iff hNodup', h.mem_iff]

/-- Two duplicate-free lists with the same row for every key hold the same rows. -/
theorem perm_of_lastOf {xs ys : List ρ} (hxs : (xs.map key).Nodup) (hys : (ys.map key).Nodup)
    (h : ∀ k, lastOf key k xs = lastOf key k ys) : xs.Perm ys := by
  apply (List.perm_ext_iff_of_nodup hxs.of_map hys.of_map).mpr
  intro r
  have hIff := lastOf_eq_some_iff hxs (k := key r) (r := r)
  rw [h (key r), lastOf_eq_some_iff hys] at hIff
  simpa using hIff.symm

theorem lastOf_antiJoin {new existing : List ρ} {k : κ} (h : k ∉ existing.map key) :
    lastOf key k (antiJoin key new existing) = lastOf key k new := by
  induction new with
  | nil => rfl
  | cons r rest ih =>
    unfold antiJoin at ih ⊢
    rw [List.filter_cons]
    split_ifs with hr
    · rw [lastOf_cons, lastOf_cons, ih]
    · have hne : key r ≠ k := by
        rintro rfl
        exact hr (decide_eq_true h)
      rw [lastOf_cons, if_neg hne, Option.or_none, ih]

/-! ## The sorted union -/

section Merge

variable [LinearOrder τ] (key) (order : ρ → τ)

/-- The existing rows and those of the batch whose keys are new, sorted. -/
def merge (existing batch : List ρ) : List ρ :=
  sortBy order (existing ++ antiJoin key (keepLast key batch) existing)

variable {key order}

theorem merge_nil {existing : List ρ}
    (hSorted : existing.Pairwise fun a b => order a ≤ order b) : merge key order existing [] = existing := by
  unfold merge
  rw [keepLast, antiJoin, List.filter_nil, List.append_nil, sortBy_of_pairwise hSorted]

theorem merge_perm (existing batch : List ρ) :
    (merge key order existing batch).Perm
      (existing ++ antiJoin key (keepLast key batch) existing) :=
  sortBy_perm_self order _

theorem nodup_merge {existing : List ρ} (hNodup : (existing.map key).Nodup) (batch : List ρ) :
    ((merge key order existing batch).map key).Nodup := by
  rw [((merge_perm existing batch).map key).nodup_iff, List.map_append]
  apply List.nodup_append.mpr
  refine ⟨hNodup, (nodup_keepLast batch).sublist (List.filter_sublist.map key), ?_⟩
  rintro k hk k' hk' rfl
  obtain ⟨r, hr, rfl⟩ := List.mem_map.mp hk'
  exact (mem_antiJoin.mp hr).2 hk

theorem mem_merge {existing batch : List ρ} {r : ρ} (h : r ∈ merge key order existing batch) :
    r ∈ existing ∨ r ∈ batch := by
  rcases List.mem_append.mp (mem_sortBy.mp h) with h | h
  · exact Or.inl h
  · exact Or.inr ((keepLast_sublist batch).subset (mem_antiJoin.mp h).1)

/-- The existing row stays; a new key takes the last row of the batch. -/
theorem lastOf_merge {existing : List ρ} (hNodup : (existing.map key).Nodup) (batch : List ρ) (k : κ) :
    lastOf key k (merge key order existing batch) =
      (lastOf key k existing).or (lastOf key k batch) := by
  rw [lastOf_perm (merge_perm existing batch) (nodup_merge hNodup batch), lastOf_append]
  by_cases hk : k ∈ existing.map key
  · obtain ⟨r, hr⟩ := exists_lastOf hk
    have hNone : lastOf key k (antiJoin key (keepLast key batch) existing) = none := by
      rw [lastOf_eq_none_iff]
      intro hMem
      obtain ⟨s, hs, rfl⟩ := List.mem_map.mp hMem
      exact (mem_antiJoin.mp hs).2 hk
    rw [hNone, hr, Option.none_or, Option.some_or]
  · rw [lastOf_antiJoin hk, lastOf_keepLast, lastOf_eq_none_iff.mpr hk, Option.or_none,
      Option.none_or]

/-- With keys that never occur twice, merging only sorts what has arrived. -/
theorem merge_sortBy_of_nodup {arrived batch : List ρ} (h : ((arrived ++ batch).map key).Nodup) :
    merge key order (sortBy order arrived) batch = sortBy order (arrived ++ batch) := by
  rw [List.map_append] at h
  obtain ⟨-, hBatch, hDisjoint⟩ := List.nodup_append.mp h
  unfold merge
  rw [keepLast_of_nodup hBatch, antiJoin_of_disjoint, sortBy_append_sortBy]
  intro r hr hMem
  have hArrived := ((sortBy_perm_self order arrived).map key).subset hMem
  exact hDisjoint _ hArrived _ (List.mem_map_of_mem hr) rfl

end Merge

end Futur3.Prelude
