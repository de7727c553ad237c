import Futur3.Stats.RomanoWolf
import Mathlib.Algebra.Order.Field.Basic

/-! # Coherence of the step-down

As the set of remaining strategies shrinks, so does the greatest statistic of the valid
ones, as long as one of them remains. Where none remains the greatest statistic is zero,
and a strategy without variance may fall behind a valid one with the same statistic.
-/

namespace Futur3.Stats

open Prelude

variable {K : Type} {n : ℕ}

namespace Stepdown

/-- The state after the hypothesis is rejected at a running value. -/
def pass (st : Stepdown K n) (idx : Fin n) (running : K) : Stepdown K n :=
  { adjusted := Function.update st.adjusted idx running, reject := Function.update st.reject idx true,
    remaining := st.remaining.erase idx, running := running }

/-- The state after the hypothesis is accepted at a running value. -/
def stop (st : Stepdown K n) (idx : Fin n) (running : K) : Stepdown K n :=
  { adjusted := fun k => if k ∈ st.remaining then running else Function.update st.adjusted idx running k,
    reject := st.reject, remaining := st.remaining, running := running }

structure Pending (rest : List (Fin n)) (st : Stepdown K n) : Prop where
  nodup : rest.Nodup
  mem_iff : ∀ k, k ∈ st.remaining ↔ k ∈ rest

theorem Pending.pass {idx : Fin n} {rest : List (Fin n)} {st : Stepdown K n}
    (h : st.Pending (idx :: rest)) (running : K) : (st.pass idx running).Pending rest where
  nodup := h.nodup.of_cons
  mem_iff k := by
    have hNew := (List.nodup_cons.mp h.nodup).1
    simp only [Stepdown.pass, Finset.mem_erase, h.mem_iff, List.mem_cons]
    constructor
    · rintro ⟨hOther, rfl | hRest⟩
      · exact absurd rfl hOther
      · exact hRest
    · intro hRest
      exact ⟨fun hSame => hNew (hSame ▸ hRest), .inr hRest⟩

theorem stop_adjusted {idx k : Fin n} {rest : List (Fin n)} {st : Stepdown K n}
    (h : st.Pending (idx :: rest)) (hk : k ∈ idx :: rest) (running : K) :
    (st.stop idx running).adjusted k = running := if_pos ((h.mem_iff k).mpr hk)

end Stepdown

open Stepdown

section Order

variable [LinearOrder K]

theorem mem_descending (tObs : Fin n → K) (k : Fin n) : k ∈ descending tObs :=
  (Selection.sortBy_perm_self _ _).mem_iff.mpr (List.mem_finRange k)

theorem descending_sorted (tObs : Fin n → K) : (descending tObs).Pairwise fun i j => tObs j ≤ tObs i :=
  Selection.pairwise_sortBy (fun k => OrderDual.toDual (tObs k)) (List.finRange n)

end Order

variable [Field K] [LinearOrder K] {tObs : Fin n → K} {valid : Fin n → Bool} {tstar : List (Fin n → K)}

def stepPvalue (valid : Fin n → Bool) (tstar : List (Fin n → K)) (nBootstrap : ℕ)
    (remaining : Finset (Fin n)) (level : K) : K :=
  (exceedances valid tstar remaining level + 1) / (nBootstrap + 1)

theorem exceedances_le {few many : Finset (Fin n)} {low high : K} (hSubset : few ⊆ many)
    (hValid : ∃ k ∈ few, valid k = true) (hLevel : low ≤ high) :
    exceedances valid tstar few high ≤ exceedances valid tstar many low := by
  apply List.countP_mono_left
  intro row _ hReach
  rw [decide_eq_true_eq] at hReach ⊢
  obtain ⟨k, hk, hkValid⟩ := hValid
  have hImage : ((few.filter fun k => valid k).image row) ⊆ (many.filter fun k => valid k).image row :=
    Finset.image_subset_image (Finset.filter_subset_filter _ hSubset)
  have hSome : ((few.filter fun k => valid k).image row).max ≠ ⊥ := by
    rw [Ne, Finset.max_eq_bot]
    exact Finset.ne_empty_of_mem (Finset.mem_image_of_mem row (Finset.mem_filter.mpr ⟨hk, hkValid⟩))
  exact hLevel.trans (hReach.trans (WithBot.unbotD_mono hSome (Finset.max_mono hImage)))

/-- A hypothesis is rejected at the running value, or ends the loop. -/
theorem stepdownLoop_cases (tObs : Fin n → K) (valid : Fin n → Bool) (tstar : List (Fin n → K))
    (nBootstrap : ℕ) (alpha : K) (idx : Fin n) (rest : List (Fin n)) (st : Stepdown K n) :
    let running := max st.running (stepPvalue valid tstar nBootstrap st.remaining (tObs idx))
    (running ≤ alpha ∧ stepdownLoop tObs valid tstar nBootstrap alpha (idx :: rest) st =
        stepdownLoop tObs valid tstar nBootstrap alpha rest (st.pass idx running)) ∨
      (¬running ≤ alpha ∧ stepdownLoop tObs valid tstar nBootstrap alpha (idx :: rest) st =
        st.stop idx running) := by
  intro running
  by_cases hPass : running ≤ alpha
  · exact .inl ⟨hPass, if_pos hPass⟩
  · exact .inr ⟨hPass, if_neg hPass⟩

/-! ## What a run from any state does -/

section Run

variable {nBootstrap : ℕ} {alpha : K} {rest : List (Fin n)} {st : Stepdown K n}

theorem stepdownLoop_untouched (h : st.Pending rest) {k : Fin n} (hk : k ∉ rest) :
    (stepdownLoop tObs valid tstar nBootstrap alpha rest st).adjusted k = st.adjusted k ∧
      (stepdownLoop tObs valid tstar nBootstrap alpha rest st).reject k = st.reject k := by
  induction rest generalizing st with
  | nil => exact ⟨rfl, rfl⟩
  | cons idx rest ih =>
    obtain ⟨hIdx, hRest⟩ := List.ne_and_not_mem_of_not_mem_cons hk
    obtain ⟨hPass, hRun⟩ | ⟨hStop, hRun⟩ := stepdownLoop_cases tObs valid tstar nBootstrap alpha idx rest st
    · rw [hRun, (ih (h.pass _) hRest).1, (ih (h.pass _) hRest).2]
      exact ⟨Function.update_of_ne hIdx _ _, Function.update_of_ne hIdx _ _⟩
    · rw [hRun]
      refine ⟨(if_neg fun hMem => hk ((h.mem_iff k).mp hMem)).trans ?_, rfl⟩
      exact Function.update_of_ne hIdx _ _

variable (tObs valid tstar nBootstrap alpha) in
theorem stepdownLoop_head {idx : Fin n} (h : st.Pending (idx :: rest)) :
    (stepdownLoop tObs valid tstar nBootstrap alpha (idx :: rest) st).adjusted idx =
      max st.running (stepPvalue valid tstar nBootstrap st.remaining (tObs idx)) := by
  obtain ⟨hPass, hRun⟩ | ⟨hStop, hRun⟩ := stepdownLoop_cases tObs valid tstar nBootstrap alpha idx rest st
  · rw [hRun,
      (stepdownLoop_untouched (h.pass _) (List.nodup_cons.mp h.nodup).1).1]
    exact Function.update_self _ _ _
  · rw [hRun, stop_adjusted h List.mem_cons_self]

theorem reject_kept {k : Fin n} (h : st.reject k = true) :
    (stepdownLoop tObs valid tstar nBootstrap alpha rest st).reject k = true := by
  induction rest generalizing st with
  | nil => exact h
  | cons idx rest ih =>
    obtain ⟨-, hRun⟩ | ⟨-, hRun⟩ := stepdownLoop_cases tObs valid tstar nBootstrap alpha idx rest st
    · rw [hRun]
      apply ih
      rcases eq_or_ne k idx with rfl | hOther
      · exact Function.update_self _ _ _
      · exact (Function.update_of_ne hOther _ _).trans h
    · rw [hRun]
      exact h

/-- The running value never falls. -/
theorem running_le_adjusted (h : st.Pending rest) {k : Fin n} (hk : k ∈ rest) :
    st.running ≤ (stepdownLoop tObs valid tstar nBootstrap alpha rest st).adjusted k := by
  induction rest generalizing st with
  | nil => cases hk
  | cons idx rest ih =>
    rcases List.mem_cons.mp hk with rfl | hRest
    · rw [stepdownLoop_head _ _ _ _ _ h]
      exact le_max_left _ _
    · obtain ⟨hPass, hRun⟩ | ⟨hStop, hRun⟩ := stepdownLoop_cases tObs valid tstar nBootstrap alpha idx rest st
      · rw [hRun]
        exact (le_max_left _ _).trans (ih (h.pass _) hRest)
      · rw [hRun, stop_adjusted h hk]
        exact le_max_left _ _

theorem reject_iff_adjusted_le (h : st.Pending rest) (hOpen : ∀ k ∈ rest, st.reject k = false) {k : Fin n}
    (hk : k ∈ rest) :
    (stepdownLoop tObs valid tstar nBootstrap alpha rest st).reject k = true ↔
      (stepdownLoop tObs valid tstar nBootstrap alpha rest st).adjusted k ≤ alpha := by
  induction rest generalizing st with
  | nil => cases hk
  | cons idx rest ih =>
    have hNew := (List.nodup_cons.mp h.nodup).1
    obtain ⟨hPass, hRun⟩ | ⟨hStop, hRun⟩ := stepdownLoop_cases tObs valid tstar nBootstrap alpha idx rest st
    · rcases List.mem_cons.mp hk with rfl | hRest
      · rw [stepdownLoop_head _ _ _ _ _ h, hRun,
          (stepdownLoop_untouched (h.pass _) hNew).2]
        exact iff_of_true (Function.update_self _ _ _) hPass
      · rw [hRun]
        apply ih (h.pass _) _ hRest
        intro j hj
        have hOther : j ≠ idx := fun hSame => hNew (hSame ▸ hj)
        exact (Function.update_of_ne hOther _ _).trans (hOpen j (List.mem_cons_of_mem idx hj))
    · rw [hRun, stop_adjusted h hk]
      refine iff_of_false ?_ hStop
      rw [Stepdown.stop, hOpen k hk]
      exact Bool.false_ne_true

theorem adjusted_pairwise_mono (h : st.Pending rest) :
    rest.Pairwise fun i j =>
      (stepdownLoop tObs valid tstar nBootstrap alpha rest st).adjusted i ≤
        (stepdownLoop tObs valid tstar nBootstrap alpha rest st).adjusted j := by
  induction rest generalizing st with
  | nil => exact .nil
  | cons idx rest ih =>
    rw [List.pairwise_cons, stepdownLoop_head _ _ _ _ _ h]
    obtain ⟨hPass, hRun⟩ | ⟨hStop, hRun⟩ := stepdownLoop_cases tObs valid tstar nBootstrap alpha idx rest st
    · rw [hRun]
      exact ⟨fun j hj => running_le_adjusted (h.pass _) hj, ih (h.pass _)⟩
    · rw [hRun]
      refine ⟨fun j hj => (stop_adjusted h (List.mem_cons_of_mem idx hj) _).ge, ?_⟩
      apply List.Pairwise.imp_of_mem (R := fun _ _ => True) _ (List.pairwise_of_forall fun _ _ => trivial)
      intro i j hi hj _
      rw [stop_adjusted h (List.mem_cons_of_mem idx hi), stop_adjusted h (List.mem_cons_of_mem idx hj)]

section Ordered

variable [IsStrictOrderedRing K]

theorem stepPvalue_le {few many : Finset (Fin n)} {low high : K} (hSubset : few ⊆ many)
    (hValid : ∃ k ∈ few, valid k = true) (hLevel : low ≤ high) :
    stepPvalue valid tstar nBootstrap few high ≤ stepPvalue valid tstar nBootstrap many low := by
  apply div_le_div_of_nonneg_right _ (add_nonneg (Nat.cast_nonneg _) zero_le_one)
  exact add_le_add_left (Nat.cast_le.mpr (exceedances_le hSubset hValid hLevel)) 1

/-- A valid strategy is held up by no stronger one. -/
theorem adjusted_le (h : st.Pending rest) (hSorted : rest.Pairwise fun i j => tObs j ≤ tObs i) {j : Fin n}
    (hj : j ∈ rest) (hValid : valid j = true) :
    (stepdownLoop tObs valid tstar nBootstrap alpha rest st).adjusted j ≤
      max st.running (stepPvalue valid tstar nBootstrap st.remaining (tObs j)) := by
  induction rest generalizing st with
  | nil => cases hj
  | cons idx rest ih =>
    obtain ⟨hHead, hSorted⟩ := List.pairwise_cons.mp hSorted
    rcases List.mem_cons.mp hj with rfl | hRest
    · rw [stepdownLoop_head _ _ _ _ _ h]
    · have hStep : stepPvalue valid tstar nBootstrap st.remaining (tObs idx) ≤
          stepPvalue valid tstar nBootstrap st.remaining (tObs j) :=
        stepPvalue_le subset_rfl ⟨j, (h.mem_iff j).mpr hj, hValid⟩ (hHead j hRest)
      obtain ⟨hPass, hRun⟩ | ⟨hStop, hRun⟩ := stepdownLoop_cases tObs valid tstar nBootstrap alpha idx rest st
      · have hLater : stepPvalue valid tstar nBootstrap (st.remaining.erase idx) (tObs j) ≤
            stepPvalue valid tstar nBootstrap st.remaining (tObs j) :=
          stepPvalue_le (Finset.erase_subset _ _) ⟨j, ((h.pass 0).mem_iff j).mpr hRest, hValid⟩ le_rfl
        rw [hRun]
        exact (ih (h.pass _) hSorted hRest).trans
          (max_le (max_le_max le_rfl hStep) (hLater.trans (le_max_right _ _)))
      · rw [hRun, stop_adjusted h hj]
        exact max_le_max le_rfl hStep

/-- Of two equal statistics the later one is not adjusted further when it is valid. -/
theorem adjusted_pairwise_tied (h : st.Pending rest) (hSorted : rest.Pairwise fun i j => tObs j ≤ tObs i) :
    rest.Pairwise fun i j => tObs i = tObs j → valid j = true →
      (stepdownLoop tObs valid tstar nBootstrap alpha rest st).adjusted j ≤
        (stepdownLoop tObs valid tstar nBootstrap alpha rest st).adjusted i := by
  induction rest generalizing st with
  | nil => exact .nil
  | cons idx rest ih =>
    obtain ⟨-, hSorted'⟩ := List.pairwise_cons.mp hSorted
    rw [List.pairwise_cons, stepdownLoop_head _ _ _ _ _ h]
    refine ⟨fun j hj hTied hValid => ?_, ?_⟩
    · rw [hTied]
      exact adjusted_le h hSorted (List.mem_cons_of_mem idx hj) hValid
    · obtain ⟨hPass, hRun⟩ | ⟨hStop, hRun⟩ := stepdownLoop_cases tObs valid tstar nBootstrap alpha idx rest st
      · rw [hRun]
        exact ih (h.pass _) hSorted'
      · rw [hRun]
        apply hSorted'.imp_of_mem
        intro i j hi hj _ _ _
        rw [stop_adjusted h (List.mem_cons_of_mem idx hi), stop_adjusted h (List.mem_cons_of_mem idx hj)]

end Ordered

/-- A higher level rejects more. -/
theorem reject_mono {alpha' : K} (hAlpha : alpha ≤ alpha') (h : st.Pending rest) {k : Fin n}
    (hReject : (stepdownLoop tObs valid tstar nBootstrap alpha rest st).reject k = true) :
    (stepdownLoop tObs valid tstar nBootstrap alpha' rest st).reject k = true := by
  induction rest generalizing st with
  | nil => exact hReject
  | cons idx rest ih =>
    obtain ⟨hPass, hRun⟩ | ⟨-, hRun⟩ := stepdownLoop_cases tObs valid tstar nBootstrap alpha idx rest st
    · obtain ⟨-, hRun'⟩ | ⟨hStop, -⟩ := stepdownLoop_cases tObs valid tstar nBootstrap alpha' idx rest st
      · rw [hRun] at hReject
        rw [hRun']
        exact ih (h.pass _) hReject
      · exact absurd (hPass.trans hAlpha) hStop
    · rw [hRun] at hReject
      exact reject_kept hReject

end Run

/-! ## The whole loop -/

theorem rel_or_rel_of_pairwise {α : Type} {R : α → α → Prop} {items : List α} (h : items.Pairwise R) {a b : α}
    (ha : a ∈ items) (hb : b ∈ items) (hOther : a ≠ b) : R a b ∨ R b a := by
  have hEither : items.Pairwise (Relation.SymmGen R) := h.imp Relation.SymmGen.of_rel
  exact hEither.forall ha hb hOther

theorem pending_start (tObs : Fin n → K) : (stepdownStart : Stepdown K n).Pending (descending tObs) where
  nodup := (Selection.sortBy_perm_self _ _).nodup_iff.mpr (List.nodup_finRange n)
  mem_iff k := iff_of_true (Finset.mem_univ k) (mem_descending tObs k)

theorem stepdown_pairwise_mono (tObs : Fin n → K) (valid : Fin n → Bool) (tstar : List (Fin n → K))
    (nBootstrap : ℕ) (alpha : K) : (descending tObs).Pairwise fun i j =>
      (stepdown tObs valid tstar nBootstrap alpha).adjusted i ≤
        (stepdown tObs valid tstar nBootstrap alpha).adjusted j :=
  adjusted_pairwise_mono (pending_start tObs)

/-- No strategy is adjusted below the p-value of the first step. -/
theorem exists_stepPvalue_le_adjusted (tObs : Fin n → K) (valid : Fin n → Bool) (tstar : List (Fin n → K))
    (nBootstrap : ℕ) (alpha : K) (k : Fin n) : ∃ head,
    stepPvalue valid tstar nBootstrap Finset.univ (tObs head) ≤
      (stepdown tObs valid tstar nBootstrap alpha).adjusted k := by
  have hPending := pending_start tObs
  have hMem := mem_descending tObs k
  have hMono := stepdown_pairwise_mono tObs valid tstar nBootstrap alpha
  unfold stepdown at hMono ⊢
  generalize descending tObs = order at hPending hMem hMono ⊢
  cases order with
  | nil => cases hMem
  | cons head rest =>
    have hHead := stepdownLoop_head tObs valid tstar nBootstrap alpha hPending
    refine ⟨head, (le_max_right _ _).trans (hHead.ge.trans ?_)⟩
    rcases List.mem_cons.mp hMem with rfl | hRest
    · exact le_rfl
    · exact (List.pairwise_cons.mp hMono).1 k hRest

/-- What holds of the step-down at a level, whatever the statistics. -/
structure CoherentStepdown (tObs : Fin n → K) (valid : Fin n → Bool) (tstar : List (Fin n → K))
    (nBootstrap : ℕ) (alpha : K) (st : Stepdown K n) : Prop where
  descending : ∀ j k, tObs k < tObs j → st.adjusted j ≤ st.adjusted k
  tied : ∀ j k, tObs k = tObs j → valid j = true → valid k = true → st.adjusted j = st.adjusted k
  decided : ∀ k, st.reject k = true ↔ st.adjusted k ≤ alpha
  upward : ∀ j k, st.reject k = true → (tObs k < tObs j ∨ tObs k = tObs j ∧ valid j = true) →
    st.reject j = true
  singleStep : ∀ k, valid k = true → stepPvalue valid tstar nBootstrap Finset.univ (tObs k) ≤ alpha →
    st.reject k = true

variable [IsStrictOrderedRing K] (tObs valid tstar) (nBootstrap : ℕ) (alpha : K)

theorem stepdown_pairwise_tied : (descending tObs).Pairwise fun i j => tObs i = tObs j → valid j = true →
    (stepdown tObs valid tstar nBootstrap alpha).adjusted j ≤
      (stepdown tObs valid tstar nBootstrap alpha).adjusted i :=
  adjusted_pairwise_tied (pending_start tObs) (descending_sorted tObs)

/-- Strictly stronger, or tied and valid. -/
theorem adjusted_le_of_stronger {j k : Fin n} (h : tObs k < tObs j ∨ tObs k = tObs j ∧ valid j = true) :
    (stepdown tObs valid tstar nBootstrap alpha).adjusted j ≤
      (stepdown tObs valid tstar nBootstrap alpha).adjusted k := by
  rcases eq_or_ne j k with rfl | hOther
  · exact le_rfl
  have hMono := stepdown_pairwise_mono tObs valid tstar nBootstrap alpha
  have hTied := stepdown_pairwise_tied tObs valid tstar nBootstrap alpha
  rcases rel_or_rel_of_pairwise ((descending_sorted tObs).and (hMono.and hTied)) (mem_descending tObs j)
    (mem_descending tObs k) hOther with ⟨-, hBefore, -⟩ | ⟨hOrder, -, hAfter⟩
  · exact hBefore
  · rcases h with hLess | ⟨hSame, hValid⟩
    · exact absurd hLess (not_lt.mpr hOrder)
    · exact hAfter hSame hValid

theorem stepdown_coherent :
    CoherentStepdown tObs valid tstar nBootstrap alpha (stepdown tObs valid tstar nBootstrap alpha) ∧
      ∀ alpha', alpha ≤ alpha' → ∀ k, (stepdown tObs valid tstar nBootstrap alpha).reject k = true →
        (stepdown tObs valid tstar nBootstrap alpha').reject k = true := by
  have hDecided : ∀ k, (stepdown tObs valid tstar nBootstrap alpha).reject k = true ↔
      (stepdown tObs valid tstar nBootstrap alpha).adjusted k ≤ alpha :=
    fun k => reject_iff_adjusted_le (pending_start tObs) (fun _ _ => rfl) (mem_descending tObs k)
  constructor
  · refine ⟨fun j k hLess => ?_, fun j k hTied hj hk => ?_, hDecided, fun j k hReject hStronger => ?_,
      fun k hk hSingle => ?_⟩
    · exact adjusted_le_of_stronger tObs valid tstar nBootstrap alpha (.inl hLess)
    · exact le_antisymm (adjusted_le_of_stronger tObs valid tstar nBootstrap alpha (.inr ⟨hTied, hj⟩))
        (adjusted_le_of_stronger tObs valid tstar nBootstrap alpha (.inr ⟨hTied.symm, hk⟩))
    · rw [hDecided] at hReject ⊢
      exact (adjusted_le_of_stronger tObs valid tstar nBootstrap alpha hStronger).trans hReject
    · rw [hDecided]
      refine (adjusted_le (pending_start tObs) (descending_sorted tObs) (mem_descending tObs k) hk).trans
        (max_le ?_ hSingle)
      exact (div_nonneg (add_nonneg (Nat.cast_nonneg _) zero_le_one)
        (add_nonneg (Nat.cast_nonneg _) zero_le_one)).trans hSingle
  · exact fun alpha' hAlpha k => reject_mono hAlpha (pending_start tObs)

theorem stepdown_coherent_pair :
    let tObs : Fin 2 → ℚ := ![3, 1]
    let tstar : List (Fin 2 → ℚ) := [![1, 2], ![0, -1]]
    CoherentStepdown tObs ![true, true] tstar 2 (1 / 2) (stepdown tObs ![true, true] tstar 2 (1 / 2)) ∧
      ∀ alpha' : ℚ, 1 / 2 ≤ alpha' → ∀ k, (stepdown tObs ![true, true] tstar 2 (1 / 2)).reject k = true →
        (stepdown tObs ![true, true] tstar 2 alpha').reject k = true :=
  stepdown_coherent ![3, 1] ![true, true] [![1, 2], ![0, -1]] 2 (1 / 2)

/-- The second strategy has no variance; the first one is rejected before it. -/
theorem stepdown_tied_apart :
    (0 : ℚ) < 1 / 2 ∧ (1 / 2 : ℚ) < 1 ∧
      let tObs : Fin 2 → ℚ := ![0, 0]
      let valid := ![true, false]
      let tstar := List.replicate 4 ![-1, 0]
      let st := stepdown tObs valid tstar 4 (1 / 2)
      ¬(∀ j k, tObs j = tObs k → st.adjusted j = st.adjusted k) ∧
        ¬(∀ j k, st.reject k = true → tObs k ≤ tObs j → st.reject j = true) ∧
        ¬(∀ k, stepPvalue valid tstar 4 Finset.univ (tObs k) ≤ 1 / 2 → st.reject k = true) := by
  decide +kernel

end Futur3.Stats
