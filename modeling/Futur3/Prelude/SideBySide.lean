import Futur3.Prelude.Dict
import Futur3.Prelude.StableSort
import Mathlib.Data.List.Chain
import Mathlib.Data.List.Forall2

/-! # Lists and dictionaries side by side

Two lists whose items correspond place by place correspond after sorting by a
key that corresponding items share. Two dictionaries correspond when they have
the same keys in the same order with corresponding values; assigning keeps that.
-/

namespace Futur3.Prelude

universe u v w

section Lists

variable {α : Type u} {α' : Type v} {β : Type w} {R : α → α' → Prop}

theorem map_eq_of_forall₂ {f : α → β} {g : α' → β} {xs : List α} {ys : List α'}
    (h : List.Forall₂ R xs ys) (hEq : ∀ a b, R a b → f a = g b) : xs.map f = ys.map g := by
  induction h with
  | nil => rfl
  | cons hHead _ ih => rw [List.map_cons, List.map_cons, hEq _ _ hHead, ih]

theorem filterMap_eq_of_forall₂ {f : α → Option β} {g : α' → Option β} {xs : List α}
    {ys : List α'} (h : List.Forall₂ R xs ys) (hEq : ∀ a b, R a b → f a = g b) :
    xs.filterMap f = ys.filterMap g := by
  induction h with
  | nil => rfl
  | cons hHead _ ih => rw [List.filterMap_cons, List.filterMap_cons, hEq _ _ hHead, ih]

/-- What holds of corresponding items holds of both lists or of neither. -/
theorem forall_mem_iff_of_forall₂ {P : α → Prop} {Q : α' → Prop} {xs : List α} {ys : List α'}
    (h : List.Forall₂ R xs ys) (hIff : ∀ a b, R a b → (P a ↔ Q b)) :
    (∀ a ∈ xs, P a) ↔ ∀ b ∈ ys, Q b := by
  induction h with
  | nil => simp
  | cons hHead _ ih => rw [List.forall_mem_cons, List.forall_mem_cons, hIff _ _ hHead, ih]

theorem exists_left_of_forall₂ {xs : List α} {ys : List α'} (h : List.Forall₂ R xs ys) {y : α'}
    (hy : y ∈ ys) : ∃ x ∈ xs, R x y := by
  induction h with
  | nil => cases hy
  | cons hHead _ ih =>
    rcases List.mem_cons.mp hy with rfl | hTail
    · exact ⟨_, List.mem_cons_self, hHead⟩
    · obtain ⟨x, hx, hRel⟩ := ih hTail
      exact ⟨x, List.mem_cons_of_mem _ hx, hRel⟩

/-- Items that each give a corresponding one give a corresponding list. -/
theorem except_mapM_forall₂ {ε : Type w} {f : α → Except ε α'} {xs : List α}
    (h : ∀ a ∈ xs, ∃ b, f a = .ok b ∧ R a b) : ∃ ys, xs.mapM f = .ok ys ∧ List.Forall₂ R xs ys := by
  induction xs with
  | nil => exact ⟨[], rfl, .nil⟩
  | cons a xs ih =>
    obtain ⟨b, hb, hab⟩ := h a List.mem_cons_self
    obtain ⟨ys, hys, hRest⟩ := ih fun x hx => h x (List.mem_cons_of_mem a hx)
    refine ⟨b :: ys, ?_, .cons hab hRest⟩
    rw [List.mapM_cons, hb]
    change (xs.mapM f >>= fun rest => pure (b :: rest)) = _
    rw [hys]
    rfl

/-- A relation along the one list goes along the pairs. -/
theorem isChain_zip {S : α → α → Prop} {xs : List α} {ys : List α'} (h : List.Forall₂ R xs ys)
    (hChain : xs.IsChain S) :
    (xs.zip ys).IsChain fun p q => S p.1 q.1 ∧ R p.1 p.2 ∧ R q.1 q.2 := by
  induction h with
  | nil => exact .nil
  | cons hHead hRest ih =>
    cases hRest with
    | nil => exact .singleton _
    | cons hNext hRest =>
      rw [List.isChain_cons_cons] at hChain
      exact .cons_cons ⟨hChain.1, hHead, hNext⟩ (ih hChain.2)

theorem isChain_of_zip {S : α' → α' → Prop} {xs : List α} {ys : List α'} (h : List.Forall₂ R xs ys)
    (hChain : (xs.zip ys).IsChain fun p q => S p.2 q.2) : ys.IsChain S := by
  have hSecond : (xs.zip ys).map Prod.snd = ys := List.map_snd_zip h.length_eq.ge
  rwa [← hSecond, List.isChain_map]

variable [LinearOrder β] {key : α → β} {key' : α' → β}

theorem forall₂_orderedInsert (hKeys : ∀ a b, R a b → key a = key' b) {a : α} {b : α'}
    (hab : R a b) {xs : List α} {ys : List α'} (h : List.Forall₂ R xs ys) :
    List.Forall₂ R (xs.orderedInsert (fun a b => key a ≤ key b) a)
      (ys.orderedInsert (fun a b => key' a ≤ key' b) b) := by
  induction h with
  | nil => exact .cons hab .nil
  | cons hHead hRest ih =>
    rw [List.orderedInsert_cons, List.orderedInsert_cons, hKeys _ _ hab, hKeys _ _ hHead]
    split_ifs
    · exact .cons hab (.cons hHead hRest)
    · exact .cons hHead ih

theorem forall₂_sortBy (hKeys : ∀ a b, R a b → key a = key' b) {xs : List α} {ys : List α'}
    (h : List.Forall₂ R xs ys) :
    List.Forall₂ R (Selection.sortBy key xs) (Selection.sortBy key' ys) := by
  induction h with
  | nil => exact .nil
  | cons hHead _ ih => exact forall₂_orderedInsert hKeys hHead ih

end Lists

namespace Dict

variable {κ : Type u} {ν : Type v} {ν' : Type w} (R : ν → ν' → Prop)

/-- The same keys in the same order, with corresponding values. -/
def SideBySide (d : Dict κ ν) (d' : Dict κ ν') : Prop :=
  List.Forall₂ (fun p q => p.1 = q.1 ∧ R p.2 q.2) d.items d'.items

variable {R} {d : Dict κ ν} {d' : Dict κ ν'}

theorem sideBySide_empty : SideBySide R (empty : Dict κ ν) (empty : Dict κ ν') := .nil

variable [DecidableEq κ]

theorem SideBySide.set (h : SideBySide R d d') (k : κ) {v : ν} {v' : ν'} (hv : R v v') :
    SideBySide R (d.set k v) (d'.set k v') := by
  obtain ⟨items, hNodup⟩ := d
  obtain ⟨items', hNodup'⟩ := d'
  change List.Forall₂ _ items items' at h
  change List.Forall₂ _ (assign k v items) (assign k v' items')
  clear hNodup hNodup'
  induction h with
  | nil => exact .cons ⟨rfl, hv⟩ .nil
  | cons hHead hRest ih =>
    unfold assign
    rw [hHead.1]
    split_ifs
    · exact .cons ⟨rfl, hv⟩ hRest
    · exact .cons hHead ih

theorem SideBySide.get? (h : SideBySide R d d') (k : κ) :
    Option.Rel R (d.get? k) (d'.get? k) := by
  unfold SideBySide at h
  unfold Dict.get?
  generalize d.items = items at h
  generalize d'.items = items' at h
  induction h with
  | nil => exact .none
  | cons hHead _ ih =>
    unfold lookup
    rw [hHead.1]
    split_ifs
    · exact .some hHead.2
    · exact ih

theorem SideBySide.getD (h : SideBySide R d d') (k : κ) {v : ν} {v' : ν'} (hv : R v v') :
    R ((d.get? k).getD v) ((d'.get? k).getD v') := by
  have hGet := h.get? k
  generalize d.get? k = found at hGet
  generalize d'.get? k = found' at hGet
  cases hGet with
  | some hFound => exact hFound
  | none => exact hv

end Dict

end Futur3.Prelude
