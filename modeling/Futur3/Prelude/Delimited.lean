import Mathlib.Data.List.Infix
import Mathlib.Data.Set.Function

/-! # Texts joined by a doubled mark

Parts are joined by two copies of one mark. A part that contains no doubled
mark can be split off as long as the text on the far side of the separator
does not begin (or end) with the mark itself.
-/

namespace Futur3.Prelude.Delimited

universe u

variable {α : Type u} {mark : α}

def NoPair (mark : α) (text : List α) : Prop := ¬[mark, mark] <:+: text

theorem NoPair.tail {c : α} {text : List α} (h : NoPair mark (c :: text)) : NoPair mark text := by
  intro hInfix
  apply h
  exact hInfix.trans (List.infix_cons List.infix_rfl)

theorem NoPair.reverse {text : List α} (h : NoPair mark text) : NoPair mark text.reverse := by
  intro hInfix
  apply h
  exact List.reverse_infix.mp hInfix

theorem NoPair.of_not_mem {text : List α} (h : mark ∉ text) : NoPair mark text := by
  intro hInfix
  apply h
  exact hInfix.subset List.mem_cons_self

/-! ## One mark -/

theorem split_first {xs ys r r' : List α} (hxs : mark ∉ xs) (hys : mark ∉ ys)
    (h : xs ++ mark :: r = ys ++ mark :: r') : xs = ys ∧ r = r' := by
  induction xs generalizing ys with
  | nil =>
    cases ys with
    | nil =>
      cases h
      exact ⟨rfl, rfl⟩
    | cons d ys =>
      cases h
      exact absurd List.mem_cons_self hys
  | cons c xs ih =>
    cases ys with
    | nil =>
      cases h
      exact absurd List.mem_cons_self hxs
    | cons d ys =>
      obtain ⟨rfl, hRest⟩ := List.cons.inj h
      obtain ⟨rfl, rfl⟩ := ih (fun hc => hxs (List.mem_cons_of_mem _ hc))
        (fun hd => hys (List.mem_cons_of_mem _ hd)) hRest
      exact ⟨rfl, rfl⟩

theorem split_last {xs ys r r' : List α} (hxs : mark ∉ xs) (hys : mark ∉ ys)
    (h : r ++ mark :: xs = r' ++ mark :: ys) : r = r' ∧ xs = ys := by
  have hReverse : xs.reverse ++ mark :: r.reverse = ys.reverse ++ mark :: r'.reverse := by
    simpa using congrArg List.reverse h
  obtain ⟨hParts, hRests⟩ := split_first (by simpa using hxs) (by simpa using hys) hReverse
  exact ⟨List.reverse_injective hRests, List.reverse_injective hParts⟩

/-! ## Two marks -/

/-- A part without any mark can be split off whatever stands before the separator. -/
theorem split_last_double {xs ys r r' : List α} (hxs : mark ∉ xs) (hys : mark ∉ ys)
    (h : r ++ mark :: mark :: xs = r' ++ mark :: mark :: ys) : r = r' ∧ xs = ys := by
  have hSingle : (r ++ [mark]) ++ mark :: xs = (r' ++ [mark]) ++ mark :: ys := by
    rw [List.append_assoc, List.append_assoc]
    exact h
  obtain ⟨hRests, hParts⟩ := split_last hxs hys hSingle
  exact ⟨List.append_cancel_right hRests, hParts⟩

theorem split_first_pair {xs ys r r' : List α} (hxs : NoPair mark xs) (hys : NoPair mark ys)
    (hr : mark ∉ r.head?) (hr' : mark ∉ r'.head?)
    (h : xs ++ mark :: mark :: r = ys ++ mark :: mark :: r') : xs = ys ∧ r = r' := by
  induction xs generalizing ys with
  | nil =>
    rcases ys with _ | ⟨d, _ | ⟨e, ys⟩⟩
    · cases h
      exact ⟨rfl, rfl⟩
    · cases h
      exact absurd rfl hr
    · cases h
      exact absurd (List.prefix_append [mark, mark] ys).isInfix hys
  | cons c xs ih =>
    cases ys with
    | nil =>
      rcases xs with _ | ⟨e, xs⟩
      · cases h
        exact absurd rfl hr'
      · cases h
        exact absurd (List.prefix_append [mark, mark] xs).isInfix hxs
    | cons d ys =>
      obtain ⟨rfl, hRest⟩ := List.cons.inj h
      obtain ⟨rfl, rfl⟩ := ih hxs.tail hys.tail hRest
      exact ⟨rfl, rfl⟩

theorem split_last_pair {xs ys r r' : List α} (hxs : NoPair mark xs) (hys : NoPair mark ys)
    (hr : mark ∉ r.getLast?) (hr' : mark ∉ r'.getLast?)
    (h : r ++ mark :: mark :: xs = r' ++ mark :: mark :: ys) : r = r' ∧ xs = ys := by
  have hReverse : xs.reverse ++ mark :: mark :: r.reverse =
      ys.reverse ++ mark :: mark :: r'.reverse := by
    simpa using congrArg List.reverse h
  obtain ⟨hParts, hRests⟩ := split_first_pair hxs.reverse hys.reverse (by simpa using hr)
    (by simpa using hr') hReverse
  exact ⟨List.reverse_injective hRests, List.reverse_injective hParts⟩

/-! ## Joined lists -/

theorem intercalate_inj {xs ys : List (List α)} (hxs : ∀ x ∈ xs, mark ∉ x ∧ x ≠ [])
    (hys : ∀ y ∈ ys, mark ∉ y ∧ y ≠ [])
    (h : [mark, mark].intercalate xs = [mark, mark].intercalate ys) : xs = ys := by
  induction xs generalizing ys with
  | nil =>
    rcases ys with _ | ⟨y, _ | ⟨y', ys⟩⟩
    · rfl
    · rw [List.intercalate_nil, List.intercalate_singleton] at h
      exact absurd h.symm (hys y List.mem_cons_self).2
    · simp [List.intercalate_cons_cons] at h
  | cons x xs ih =>
    obtain ⟨hx, hxNil⟩ := hxs x List.mem_cons_self
    rcases ys with _ | ⟨y, ys⟩
    · rcases xs with _ | ⟨x', xs⟩
      · rw [List.intercalate_nil, List.intercalate_singleton] at h
        exact absurd h hxNil
      · simp [List.intercalate_cons_cons] at h
    · obtain ⟨hy, -⟩ := hys y List.mem_cons_self
      rcases xs with _ | ⟨x', xs⟩ <;> rcases ys with _ | ⟨y', ys⟩
      · rw [List.intercalate_singleton, List.intercalate_singleton] at h
        rw [h]
      · rw [List.intercalate_singleton, List.intercalate_cons_cons] at h
        exact absurd (by simp [h]) hx
      · rw [List.intercalate_singleton, List.intercalate_cons_cons] at h
        exact absurd (by simp [← h]) hy
      · simp only [List.intercalate_cons_cons, List.append_assoc, List.cons_append,
          List.nil_append] at h
        obtain ⟨rfl, hRest⟩ := split_first hx hy h
        have hTail := ih (fun z hz => hxs z (List.mem_cons_of_mem _ hz))
          (fun z hz => hys z (List.mem_cons_of_mem _ hz)) (List.cons.inj hRest).2
        rw [hTail]

/-! ## Lists of texts up to order -/

/-- A map that tells the items of two lists apart reflects their rearrangement. -/
theorem perm_of_map_perm {β : Type u} {f : α → β} {xs ys : List α}
    (hf : Set.InjOn f {x | x ∈ xs ∨ x ∈ ys}) (h : (xs.map f).Perm (ys.map f)) : xs.Perm ys := by
  rcases xs with _ | ⟨x, xs⟩
  · rw [List.map_nil] at h
    rw [List.map_eq_nil_iff.mp h.nil_eq.symm]
  · have : Nonempty α := ⟨x⟩
    have hLeft := hf.leftInvOn_invFunOn
    have hSelf : ∀ zs : List α, (∀ z ∈ zs, z ∈ x :: xs ∨ z ∈ ys) →
        (zs.map f).map (Function.invFunOn f {z | z ∈ x :: xs ∨ z ∈ ys}) = zs := by
      intro zs hzs
      have hId : ∀ z ∈ zs, (Function.invFunOn f {z | z ∈ x :: xs ∨ z ∈ ys} ∘ f) z = id z :=
        fun z hz => hLeft (hzs z hz)
      rw [List.map_map, List.map_congr_left hId, List.map_id]
    have hBack := h.map (Function.invFunOn f {z | z ∈ x :: xs ∨ z ∈ ys})
    rw [hSelf _ fun z => Or.inl, hSelf _ fun z => Or.inr] at hBack
    exact hBack

end Futur3.Prelude.Delimited
