import Futur3.Prelude.RankScan
import Futur3.Stats.MultipleTesting
import Mathlib.Algebra.Order.Field.Basic
import Mathlib.Data.Fintype.Perm
import Mathlib.Algebra.Order.Ring.Rat
import Mathlib.Tactic.Linarith
import Mathlib.Tactic.NormNum
import Mathlib.Tactic.Ring

/-! # The corrections are the classical procedures

Comparing an adjusted p-value with a level decides the same as Holm's step-down and
Benjamini and Hochberg's step-up procedure along any ascending order. An adjusted
value depends on its p-value and on how many are as large or as small, and on
nothing else.
-/

namespace Futur3.Stats

open Prelude RankScan

variable {K : Type} [Field K] [LinearOrder K]

/-! ## The procedures -/

/-- The hypotheses by ascending p-value. -/
structure IsAscending (p : List K) (order : List ℕ) : Prop where
  perm : order.Perm (List.range p.length)
  sorted : order.Pairwise fun i j => p.getD i 0 ≤ p.getD j 0

/-- Holm's procedure: test in ascending order, each at the level divided by the number of hypotheses
left, and stop at the first one that is not rejected. -/
def stepDown (p : List K) (alpha : K) : List ℕ → List ℕ
  | [] => []
  | i :: rest =>
    if p.getD i 0 ≤ alpha / (rest.length + 1 : ℕ) then i :: stepDown p alpha rest else []

/-- Benjamini and Hochberg's procedure: test in descending order, each at its rank's share of the
level, and stop at the first one that passes, rejecting it and all that are left. -/
def stepUp (p : List K) (q : K) : List ℕ → List ℕ
  | [] => []
  | i :: rest =>
    if p.getD i 0 ≤ (rest.length + 1 : ℕ) / p.length * q then i :: rest else stepUp p q rest

def Rejects (r : MultipleTestResult K) (i : ℕ) : Prop := r.reject[i]? = some true

theorem mem_stepDown_iff {p : List K} {alpha : K} {order : List ℕ} (hNodup : order.Nodup) {i : ℕ}
    (hi : i ∈ order) :
    i ∈ stepDown p alpha order ↔ UpTo (fun j k => p.getD j 0 ≤ alpha / (k + 1 : ℕ)) i order := by
  induction order with
  | nil => cases hi
  | cons j rest ih =>
    obtain ⟨hFresh, hRest⟩ := List.nodup_cons.mp hNodup
    rw [stepDown]
    by_cases hSame : i = j
    · subst hSame
      rw [upTo_head hFresh]
      split
      · rename_i hHere
        exact iff_of_true List.mem_cons_self hHere
      · rename_i hNot
        exact iff_of_false List.not_mem_nil hNot
    · have hLater : i ∈ rest := (List.mem_cons.mp hi).resolve_left hSame
      rw [upTo_cons hLater]
      split
      · rename_i hHere
        rw [List.mem_cons, or_iff_right hSame, ih hRest hLater, and_iff_right hHere]
      · rename_i hNot
        exact iff_of_false List.not_mem_nil fun h => hNot h.1

theorem stepUp_subset (p : List K) (q : K) (order : List ℕ) : stepUp p q order ⊆ order := by
  induction order with
  | nil => exact List.Subset.refl _
  | cons i rest ih =>
    rw [stepUp]
    split
    · exact List.Subset.refl _
    · exact fun j hj => List.mem_cons_of_mem i (ih hj)

theorem mem_stepUp_iff {p : List K} {q : K} {order : List ℕ} (hNodup : order.Nodup) {i : ℕ}
    (hi : i ∈ order) :
    i ∈ stepUp p q order ↔
      ¬UpTo (fun j k => ¬p.getD j 0 ≤ (k + 1 : ℕ) / p.length * q) i order := by
  induction order with
  | nil => cases hi
  | cons j rest ih =>
    obtain ⟨hFresh, hRest⟩ := List.nodup_cons.mp hNodup
    rw [stepUp]
    by_cases hSame : i = j
    · subst hSame
      rw [upTo_head hFresh, not_not]
      split
      · rename_i hHere
        exact iff_of_true List.mem_cons_self hHere
      · rename_i hNot
        exact iff_of_false (fun hMem => hFresh (stepUp_subset p q rest hMem)) hNot
    · have hLater : i ∈ rest := (List.mem_cons.mp hi).resolve_left hSame
      rw [upTo_cons hLater]
      split
      · rename_i hHere
        exact iff_of_true hi fun h => h.1 hHere
      · rename_i hNot
        rw [ih hRest hLater, and_iff_right hNot]

/-! ## Ascending orders -/

theorem map_getD_range {α : Type} [Zero α] (p : List α) : (List.range p.length).map (fun i => p.getD i 0) = p := by
  refine List.ext_getElem (by simp) fun i hi hi' => ?_
  simp [List.getElem?_eq_getElem hi']

theorem ascending_isAscending (p : List K) : IsAscending p (ascending p) :=
  ⟨Selection.sortBy_perm_self _ _, Selection.pairwise_sortBy _ _⟩

section Ascending

variable {p : List K} {order : List ℕ}

theorem IsAscending.nodup (h : IsAscending p order) : order.Nodup :=
  h.perm.nodup_iff.mpr List.nodup_range

theorem IsAscending.mem_iff (h : IsAscending p order) {i : ℕ} : i ∈ order ↔ i < p.length := by
  rw [h.perm.mem_iff, List.mem_range]

theorem IsAscending.map (h : IsAscending p order) : (order.map fun i => p.getD i 0).Perm p := by
  have hMap := h.perm.map fun i => p.getD i 0
  rwa [map_getD_range] at hMap

theorem IsAscending.forall_iff (h : IsAscending p order) {P : K → Prop} :
    (∀ j ∈ order, P (p.getD j 0)) ↔ ∀ y ∈ p, P y := by
  rw [← List.forall_mem_map (f := fun j => p.getD j 0)]
  exact forall_congr' fun y => by rw [h.map.mem_iff]

def atLeast {α : Type} [LinearOrder α] (p : List α) (y : α) : ℕ := p.countP fun z => y ≤ z

def atMost {α : Type} [LinearOrder α] (p : List α) (y : α) : ℕ := p.countP fun z => z ≤ y

theorem atLeast_pos {α : Type} [LinearOrder α] {p : List α} {y : α} (hy : y ∈ p) : 0 < atLeast p y :=
  List.countP_pos_iff.mpr ⟨y, hy, decide_eq_true le_rfl⟩

theorem atMost_pos {α : Type} [LinearOrder α] {p : List α} {y : α} (hy : y ∈ p) : 0 < atMost p y :=
  List.countP_pos_iff.mpr ⟨y, hy, decide_eq_true le_rfl⟩

/-- The values as large and those as small are all of them, those equal counted twice. -/
theorem length_add_count_le {α : Type} [LinearOrder α] (p : List α) (y : α) :
    p.length + p.count y ≤ atLeast p y + atMost p y := by
  unfold atLeast atMost
  induction p with
  | nil => exact le_rfl
  | cons z rest ih =>
    rw [List.length_cons, List.count_cons, List.countP_cons, List.countP_cons]
    rcases lt_trichotomy y z with hLess | rfl | hLess
    · simp [hLess.le, hLess.ne', not_le.mpr hLess]
      omega
    · simp
      omega
    · simp [hLess.le, hLess.ne, not_le.mpr hLess]
      omega

theorem length_le_mul {α : Type} [LinearOrder α] {p : List α} {y : α} (hy : y ∈ p) :
    p.length ≤ atLeast p y * atMost p y := by
  have hAll := length_add_count_le p y
  have hOne := List.count_pos_iff.mpr hy
  have hLow := atLeast_pos hy
  have hHigh := atMost_pos hy
  nlinarith

/-- A condition on the hypotheses tested up to one, in ascending order. -/
theorem IsAscending.upTo_iff (h : IsAscending p order) {Q : K → ℕ → Prop}
    (hQ : ∀ y ∈ p, ∀ k k', 0 < k → k ≤ k' → Q y k' → Q y k) {i : ℕ} (hi : i < p.length) :
    UpTo (fun j k => Q (p.getD j 0) (k + 1)) i order ↔
      ∀ y ∈ p, y ≤ p.getD i 0 → Q y (atLeast p y) := by
  have hCount : ∀ y, (order.countP fun b => y ≤ p.getD b 0) = atLeast p y := by
    intro y
    rw [atLeast, ← h.map.countP_eq, List.countP_map]
    rfl
  rw [upTo_sorted_iff (h.forall_iff.mpr hQ) h.sorted (h.mem_iff.mpr hi), ← h.forall_iff]
  simp only [hCount]

theorem IsAscending.upTo_reverse_iff (h : IsAscending p order) {Q : K → ℕ → Prop}
    (hQ : ∀ y ∈ p, ∀ k k', 0 < k → k ≤ k' → Q y k' → Q y k) {i : ℕ} (hi : i < p.length) :
    UpTo (fun j k => Q (p.getD j 0) (k + 1)) i order.reverse ↔
      ∀ y ∈ p, p.getD i 0 ≤ y → Q y (atMost p y) := by
  have hCount : ∀ y, (order.reverse.countP fun b => p.getD b 0 ≤ y) = atMost p y := by
    intro y
    rw [atMost, ← h.map.countP_eq, List.countP_map, List.countP_reverse]
    rfl
  have hMem : ∀ {P : K → Prop}, (∀ j ∈ order.reverse, P (p.getD j 0)) ↔ ∀ y ∈ p, P y := by
    intro P
    rw [← h.forall_iff]
    exact forall_congr' fun j => by rw [List.mem_reverse]
  have hSorted : order.reverse.Pairwise fun a b =>
      OrderDual.toDual (p.getD a 0) ≤ OrderDual.toDual (p.getD b 0) :=
    List.pairwise_reverse.mpr h.sorted
  have hUpTo := upTo_sorted_iff (α := Kᵒᵈ) (Q := Q) (hMem.mpr hQ) hSorted
    (List.mem_reverse.mpr (h.mem_iff.mpr hi))
  refine hUpTo.trans (Iff.trans ?_ hMem)
  refine forall₂_congr fun j _ => ?_
  rw [← hCount]
  exact Iff.rfl

end Ascending

/-! ## The loops -/

section Loops

variable {p : List K}

def holmNext (p : List K) (runningMax : K) (idx left : ℕ) : K :=
  max runningMax (min 1 ((left + 1 : ℕ) * p.getD idx 0))

theorem holmFrom_eq {rank : ℕ} {runningMax : K} {order : List ℕ} {adjusted : List K}
    (hRank : rank + order.length = p.length) :
    holmFrom p rank runningMax order adjusted = assign (running (holmNext p) runningMax order) adjusted := by
  induction order generalizing rank runningMax adjusted with
  | nil => rfl
  | cons idx rest ih =>
    rw [List.length_cons] at hRank
    rw [holmFrom, running, show p.length - rank = rest.length + 1 by omega, ih (by omega)]
    rfl

def bhNext (p : List K) (runningMin : K) (idx left : ℕ) : K :=
  min (min runningMin 1) (p.getD idx 0 * p.length / (left + 1 : ℕ))

theorem bhFrom_eq {order : List ℕ} {rank : ℕ} {runningMin : K} {adjusted : List K}
    (hRank : rank ≤ order.length) :
    bhFrom p order rank runningMin adjusted =
      assign (running (bhNext p) runningMin (order.take rank).reverse) adjusted := by
  induction rank generalizing runningMin adjusted with
  | zero => rfl
  | succ rank ih =>
    have hTake : (order.take (rank + 1)).reverse = order.getD rank 0 :: (order.take rank).reverse := by
      rw [List.take_add_one, List.getElem?_eq_getElem hRank, List.reverse_append]
      simp [List.getElem?_eq_getElem hRank]
    have hLength : (order.take rank).reverse.length = rank := by simp; omega
    rw [bhFrom, hTake, running, hLength, ih (by omega)]
    rfl

theorem exists_running {β : Type} (next : β → ℕ → ℕ → β) (b : β) {order : List ℕ} {i : ℕ}
    (hNodup : order.Nodup) (hi : i ∈ order) (xs : List β) (hLength : i < xs.length) :
    ∃ v, (assign (running next b order) xs)[i]? = some v ∧ (i, v) ∈ running next b order := by
  rw [← map_fst_running next b order] at hi
  obtain ⟨⟨j, v⟩, hMem, rfl⟩ := List.mem_map.mp hi
  refine ⟨v, assign_of_mem ?_ hMem hLength, hMem⟩
  rwa [map_fst_running]

end Loops

/-! ## What an adjusted value is -/

/-- What an adjusted value is compared with: each is at most a level exactly under the bound. -/
structure AdjustedBy (p adjusted : List K) (Bound : K → K → Prop) : Prop where
  length : adjusted.length = p.length
  le_iff : ∀ (i : ℕ) (x v : K), p[i]? = some x → adjusted[i]? = some v → ∀ a, v ≤ a ↔ Bound x a

def BonferroniBound (p : List K) (x a : K) : Prop := 1 ≤ a ∨ x * p.length ≤ a

def HolmBound (p : List K) (x a : K) : Prop :=
  0 ≤ a ∧ ∀ y ∈ p, y ≤ x → min 1 (atLeast p y * y) ≤ a

def BhBound (p : List K) (x a : K) : Prop :=
  1 ≤ a ∨ ∃ y ∈ p, x ≤ y ∧ y * p.length / atMost p y ≤ a

theorem bonferroni_adjustedBy (p : List K) : AdjustedBy p (bonferroniAdjusted p) (BonferroniBound p) := by
  refine ⟨List.length_map _, fun i x v hx hv a => ?_⟩
  rw [bonferroniAdjusted, List.getElem?_map, hx] at hv
  obtain rfl := Option.some.inj hv
  exact min_le_iff

/-! ## Properties of an adjustment -/

/-- What adjusted values and rejections have to do with the p-values. -/
structure Coherent (p : List K) (r : MultipleTestResult K) : Prop where
  pValues : r.pValues = p
  length : r.adjusted.length = p.length
  reject : r.reject = r.adjusted.map fun a => decide (a ≤ r.level)
  nReject : r.nReject = r.reject.count true
  mono : ∀ (i j : ℕ) (x y a b : K), p[i]? = some x → p[j]? = some y → r.adjusted[i]? = some a →
    r.adjusted[j]? = some b → x ≤ y → a ≤ b
  tied : ∀ (i j : ℕ) (x a b : K), p[i]? = some x → p[j]? = some x → r.adjusted[i]? = some a →
    r.adjusted[j]? = some b → a = b
  capped : ∀ a ∈ r.adjusted, a ≤ 1

def permuted {α : Type} (p : List α) (σ : Equiv.Perm (Fin p.length)) : List α :=
  List.ofFn fun i => p.get (σ i)

/-- A permuted list of p-values has its adjusted values permuted. -/
def Equivariant (correct : List K → Except (MultipleTestError K) (MultipleTestResult K)) (p : List K) :
    Prop :=
  ∀ σ : Equiv.Perm (Fin p.length), ∃ r r', correct p = .ok r ∧ correct (permuted p σ) = .ok r' ∧
    ∀ i : Fin p.length, r'.adjusted[i.val]? = r.adjusted[(σ i).val]?

theorem coherent_of_adjustedBy {p adjusted : List K} {Bound : K → K → Prop}
    (h : AdjustedBy p adjusted Bound) (hMono : ∀ x y a, x ≤ y → Bound y a → Bound x a)
    (hCap : ∀ x ∈ p, Bound x 1) (method : String) (level : K) :
    Coherent p (result method level p adjusted) where
  pValues := rfl
  length := h.length
  reject := rfl
  nReject := rfl
  mono := by
    intro i j x y a b hx hy ha hb hLe
    exact (h.le_iff i x a hx ha b).mpr (hMono x y b hLe ((h.le_iff j y b hy hb b).mp le_rfl))
  tied := by
    intro i j x a b hx hy ha hb
    exact eq_of_forall_ge_iff fun c => (h.le_iff i x a hx ha c).trans (h.le_iff j x b hy hb c).symm
  capped := by
    intro a ha
    obtain ⟨i, hi, rfl⟩ := List.getElem_of_mem ha
    have hLength : i < p.length := h.length ▸ hi
    exact (h.le_iff i p[i] _ (List.getElem?_eq_getElem hLength) (List.getElem?_eq_getElem hi) 1).mpr
      (hCap _ (List.getElem_mem hLength))

theorem permuted_perm {α : Type} {p : List α} (σ : Equiv.Perm (Fin p.length)) :
    (permuted p σ).Perm p := by
  have hSame : List.ofFn p.get = p := List.ofFn_get p
  conv_rhs => rw [← hSame]
  exact Equiv.Perm.ofFn_comp_perm σ p.get

theorem permuted_adjusted {p : List K} {adjust : List K → List K} {Bound : List K → K → K → Prop}
    (h : ∀ p : List K, (∀ y ∈ p, 0 ≤ y) → AdjustedBy p (adjust p) (Bound p))
    (hBound : ∀ p p' : List K, p.Perm p' → ∀ x a, Bound p x a ↔ Bound p' x a)
    (hp : ∀ y ∈ p, 0 ≤ y) (σ : Equiv.Perm (Fin p.length)) (i : Fin p.length) :
    (adjust (permuted p σ))[i.val]? = (adjust p)[(σ i).val]? := by
  have hPerm := permuted_perm σ
  have hHere := h (permuted p σ) fun y hy => hp y (hPerm.mem_iff.mp hy)
  have hThere := h p hp
  have hi : i.val < (adjust (permuted p σ)).length := by
    rw [hHere.length, hPerm.length_eq]
    exact i.isLt
  have hj : (σ i).val < (adjust p).length := by
    rw [hThere.length]
    exact (σ i).isLt
  rw [List.getElem?_eq_getElem hi, List.getElem?_eq_getElem hj]
  refine congrArg some (eq_of_forall_ge_iff fun a => ?_)
  have hValue : (permuted p σ)[i.val]? = some (p.get (σ i)) := by
    rw [permuted, List.getElem?_ofFn, dif_pos i.isLt]
  rw [hHere.le_iff i.val _ _ hValue (List.getElem?_eq_getElem hi) a, hBound _ _ hPerm,
    hThere.le_iff (σ i).val (p.get (σ i)) _ (List.getElem?_eq_getElem (σ i).isLt)
      (List.getElem?_eq_getElem hj) a]

theorem rejects_iff {p adjusted : List K} {Bound : K → K → Prop} (h : AdjustedBy p adjusted Bound)
    (method : String) (level : K) (i : ℕ) :
    Rejects (result method level p adjusted) i ↔ i < p.length ∧ Bound (p.getD i 0) level := by
  have hReject : (result method level p adjusted).reject[i]? =
      adjusted[i]?.map fun a => decide (a ≤ level) := by
    rw [result, List.getElem?_map]
  rw [Rejects, hReject]
  by_cases hi : i < p.length
  · have hi' : i < adjusted.length := h.length ▸ hi
    have hBound := h.le_iff i p[i] _ (List.getElem?_eq_getElem hi) (List.getElem?_eq_getElem hi') level
    rw [List.getElem?_eq_getElem hi', List.getD_eq_getElem?_getD, List.getElem?_eq_getElem hi,
      Option.getD_some, ← hBound]
    simp [hi]
  · rw [List.getElem?_eq_none (by rw [h.length]; omega)]
    exact iff_of_false (by simp) fun hBoth => hi hBoth.1

theorem rejects_iff_mem {p adjusted : List K} {Bound : K → K → Prop} (h : AdjustedBy p adjusted Bound)
    (method : String) {level : K} {picked : List ℕ} (hPicked : ∀ i ∈ picked, i < p.length)
    (hBound : ∀ {i}, i < p.length → (Bound (p.getD i 0) level ↔ i ∈ picked)) (i : ℕ) :
    Rejects (result method level p adjusted) i ↔ i ∈ picked := by
  rw [rejects_iff h]
  constructor
  · rintro ⟨hi, hHere⟩
    exact (hBound hi).mp hHere
  · intro hMem
    have hi := hPicked i hMem
    exact ⟨hi, (hBound hi).mpr hMem⟩

/-- What the one bound rejects, a weaker bound rejects too. -/
theorem rejects_weaker {p adjusted adjusted' : List K} {Bound Bound' : K → K → Prop}
    (h : AdjustedBy p adjusted Bound) (h' : AdjustedBy p adjusted' Bound') (method method' : String)
    {level : K} (hWeaker : ∀ x ∈ p, Bound x level → Bound' x level) (i : ℕ)
    (hRejects : Rejects (result method level p adjusted) i) :
    Rejects (result method' level p adjusted') i := by
  obtain ⟨hi, hBound⟩ := (rejects_iff h _ _ i).mp hRejects
  have hMem : p.getD i 0 ∈ p := by
    rw [List.getD_eq_getElem?_getD, List.getElem?_eq_getElem hi]
    exact List.getElem_mem hi
  exact (rejects_iff h' _ _ i).mpr ⟨hi, hWeaker _ hMem hBound⟩

/-! ## Bounds -/

theorem BonferroniBound.of_perm (p p' : List K) (h : p.Perm p') (x a : K) :
    BonferroniBound p x a ↔ BonferroniBound p' x a := by
  rw [BonferroniBound, BonferroniBound, h.length_eq]

theorem HolmBound.of_perm (p p' : List K) (h : p.Perm p') (x a : K) :
    HolmBound p x a ↔ HolmBound p' x a := by
  simp only [HolmBound, atLeast, h.countP_eq, h.mem_iff]

theorem BhBound.of_perm (p p' : List K) (h : p.Perm p') (x a : K) :
    BhBound p x a ↔ BhBound p' x a := by
  simp only [BhBound, atMost, h.countP_eq, h.mem_iff, h.length_eq]

theorem HolmBound.antitone {p : List K} {x y a : K} (hLe : x ≤ y) (h : HolmBound p y a) : HolmBound p x a :=
  ⟨h.1, fun z hz hzx => h.2 z hz (hzx.trans hLe)⟩

theorem BhBound.antitone {p : List K} {x y a : K} (hLe : x ≤ y) (h : BhBound p y a) : BhBound p x a := by
  rcases h with hOne | ⟨z, hz, hyz, hBound⟩
  · exact .inl hOne
  · exact .inr ⟨z, hz, hLe.trans hyz, hBound⟩

/-! ## Calls -/

theorem validate_ok {p : List K} {alpha : K} (hp : ∀ v ∈ p, 0 ≤ v ∧ v ≤ 1) (hSome : p ≠ [])
    (hAlpha : 0 < alpha ∧ alpha < 1) (levelName : String) : validate p alpha levelName = .ok p := by
  unfold validate
  rw [if_neg (not_not.mpr hAlpha), if_neg (by simpa using hSome), if_neg (not_not.mpr hp)]
  rfl

theorem equivariant_of_adjustedBy {p : List K} {adjust : List K → List K} {Bound : List K → K → K → Prop}
    (h : ∀ p : List K, (∀ y ∈ p, 0 ≤ y) → AdjustedBy p (adjust p) (Bound p))
    (hBound : ∀ p p' : List K, p.Perm p' → ∀ x a, Bound p x a ↔ Bound p' x a)
    (hp : ∀ v ∈ p, 0 ≤ v ∧ v ≤ 1) {correct : List K → Except (MultipleTestError K) (MultipleTestResult K)}
    {method : String} {level : K} (hCorrect : ∀ p : List K, (∀ v ∈ p, 0 ≤ v ∧ v ≤ 1) → p ≠ [] →
      correct p = .ok (result method level p (adjust p))) (hSome : p ≠ []) : Equivariant correct p := by
  intro σ
  have hPerm := permuted_perm σ
  refine ⟨_, _, hCorrect p hp hSome, hCorrect (permuted p σ)
    (fun v hv => hp v (hPerm.mem_iff.mp hv)) ?_, ?_⟩
  · intro hNil
    rw [hNil] at hPerm
    exact hSome hPerm.nil_eq.symm
  · exact permuted_adjusted h hBound (fun y hy => (hp y hy).1) σ

theorem correct_ok {p : List K} {alpha : K} (hp : ∀ v ∈ p, 0 ≤ v ∧ v ≤ 1) (hSome : p ≠ [])
    (hAlpha : 0 < alpha ∧ alpha < 1) :
    bonferroniCorrect p alpha = .ok (result "bonferroni" alpha p (bonferroniAdjusted p)) ∧
      holmBonferroniCorrect p alpha = .ok (result "holm" alpha p (holmAdjusted p)) ∧
      bhFdrCorrect p alpha = .ok (result "bh_fdr" alpha p (bhAdjusted p)) := by
  refine ⟨?_, ?_, ?_⟩
  · rw [bonferroniCorrect, validate_ok hp hSome hAlpha]
    rfl
  · rw [holmBonferroniCorrect, validate_ok hp hSome hAlpha]
    rfl
  · rw [bhFdrCorrect, validate_ok hp hSome hAlpha]
    rfl

theorem stepDown_subset (p : List K) (alpha : K) (order : List ℕ) : stepDown p alpha order ⊆ order := by
  induction order with
  | nil => exact List.Subset.refl _
  | cons i rest ih =>
    rw [stepDown]
    split
    · exact List.cons_subset_cons i ih
    · exact List.nil_subset _

section Ordered

variable [IsStrictOrderedRing K] {p : List K}

theorem holm_adjustedBy (hp : ∀ y ∈ p, 0 ≤ y) : AdjustedBy p (holmAdjusted p) (HolmBound p) := by
  have hOrder := ascending_isAscending p
  have hEq : holmAdjusted p = assign (running (holmNext p) 0 (ascending p)) (List.replicate p.length 0) :=
    holmFrom_eq (by rw [Nat.zero_add, hOrder.perm.length_eq, List.length_range])
  refine ⟨by rw [hEq, length_assign, List.length_replicate], fun i x v hx hv a => ?_⟩
  obtain ⟨hi, rfl⟩ := List.getElem?_eq_some_iff.mp hx
  obtain ⟨v', hv', hMem⟩ := exists_running (holmNext p) 0 hOrder.nodup
    (hOrder.mem_iff.mpr hi) (List.replicate p.length 0) (by rwa [List.length_replicate])
  rw [hEq, hv'] at hv
  obtain rfl := Option.some.inj hv
  have hRunning := running_iff (G := fun v => v ≤ a)
    (R := fun j k => min 1 (((k + 1 : ℕ) : K) * p.getD j 0) ≤ a) (fun b j k => max_le_iff) hOrder.nodup hMem
  have hUpTo := hOrder.upTo_iff (Q := fun y k => min 1 ((k : K) * y) ≤ a) ?_ hi
  · rw [hRunning, hUpTo, List.getD_eq_getElem?_getD, hx]
    rfl
  · intro y hy k k' _ hLe h
    refine le_trans (min_le_min le_rfl ?_) h
    exact mul_le_mul_of_nonneg_right (Nat.cast_le.mpr hLe) (hp y hy)

theorem bh_adjustedBy (hp : ∀ y ∈ p, 0 ≤ y) : AdjustedBy p (bhAdjusted p) (BhBound p) := by
  have hOrder := ascending_isAscending p
  have hLength : (ascending p).length = p.length := by
    rw [hOrder.perm.length_eq, List.length_range]
  have hEq : bhAdjusted p =
      assign (running (bhNext p) 1 (ascending p).reverse) (List.replicate p.length 0) := by
    rw [bhAdjusted, bhFrom_eq hLength.ge, List.take_of_length_le hLength.le]
  refine ⟨by rw [hEq, length_assign, List.length_replicate], fun i x v hx hv a => ?_⟩
  obtain ⟨hi, rfl⟩ := List.getElem?_eq_some_iff.mp hx
  have hNodup : (ascending p).reverse.Nodup := List.nodup_reverse.mpr hOrder.nodup
  obtain ⟨v', hv', hMem⟩ := exists_running (bhNext p) 1 hNodup
    (List.mem_reverse.mpr (hOrder.mem_iff.mpr hi)) (List.replicate p.length 0) (by rwa [List.length_replicate])
  rw [hEq, hv'] at hv
  obtain rfl := Option.some.inj hv
  have hRunning := running_iff (G := fun v => a < v)
    (R := fun j k => a < 1 ∧ a < p.getD j 0 * p.length / (k + 1 : ℕ))
    (fun b j k => by rw [bhNext, lt_min_iff, lt_min_iff, and_assoc]) hNodup hMem
  have hUpTo := hOrder.upTo_reverse_iff (Q := fun y k => a < 1 ∧ a < y * p.length / k) ?_ hi
  · rw [← not_lt, hRunning, hUpTo, List.getD_eq_getElem?_getD, hx, Option.getD_some]
    by_cases ha : a < 1
    · simp [BhBound, ha, not_le.mpr ha]
    · simp [BhBound, ha, not_lt.mp ha]
  · rintro y hy k k' hk hLe ⟨ha, hLess⟩
    refine ⟨ha, hLess.trans_le ?_⟩
    have hNonneg : 0 ≤ y * p.length := mul_nonneg (hp y hy) (Nat.cast_nonneg _)
    exact div_le_div_of_nonneg_left hNonneg (Nat.cast_pos.mpr hk) (Nat.cast_le.mpr hLe)

/-! ## Deciding by adjusted values -/

theorem holmBound_iff_stepDown {alpha : K} (hAlpha : 0 < alpha ∧ alpha < 1) {order : List ℕ}
    (hOrder : IsAscending p order) {i : ℕ} (hi : i < p.length) :
    HolmBound p (p.getD i 0) alpha ↔ i ∈ stepDown p alpha order := by
  have hUpTo := hOrder.upTo_iff (Q := fun y k => y ≤ alpha / (k : K)) ?_ hi
  · rw [mem_stepDown_iff hOrder.nodup (hOrder.mem_iff.mpr hi), hUpTo, HolmBound,
      and_iff_right hAlpha.1.le]
    refine forall₂_congr fun y hy => imp_congr_right fun _ => ?_
    rw [min_le_iff, or_iff_right (not_le.mpr hAlpha.2), le_div_iff₀' (Nat.cast_pos.mpr (atLeast_pos hy))]
  · intro y _ k k' hk hLe h
    exact h.trans (div_le_div_of_nonneg_left hAlpha.1.le (Nat.cast_pos.mpr hk) (Nat.cast_le.mpr hLe))

theorem bhBound_iff_stepUp {q : K} (hq : 0 < q ∧ q < 1) {order : List ℕ} (hOrder : IsAscending p order)
    {i : ℕ} (hi : i < p.length) :
    BhBound p (p.getD i 0) q ↔ i ∈ stepUp p q order.reverse := by
  have hUpTo := hOrder.upTo_reverse_iff (Q := fun y k => ¬y ≤ (k : K) / p.length * q) ?_ hi
  · have hNodup : order.reverse.Nodup := List.nodup_reverse.mpr hOrder.nodup
    rw [mem_stepUp_iff hNodup (List.mem_reverse.mpr (hOrder.mem_iff.mpr hi)), hUpTo, BhBound,
      or_iff_right (not_le.mpr hq.2)]
    push Not
    refine exists_congr fun y => and_congr_right fun hy => and_congr_right fun _ => ?_
    have hCount : (0 : K) < atMost p y := Nat.cast_pos.mpr (atMost_pos hy)
    have hLength : (0 : K) < p.length := Nat.cast_pos.mpr (by omega)
    rw [div_le_iff₀ hCount, div_mul_eq_mul_div, le_div_iff₀ hLength, mul_comm q]
  · intro y _ k k' _ hLe h hPasses
    refine h (hPasses.trans ?_)
    have hShare : (k : K) / p.length ≤ k' / p.length :=
      div_le_div_of_nonneg_right (Nat.cast_le.mpr hLe) (Nat.cast_nonneg _)
    exact mul_le_mul_of_nonneg_right hShare hq.1.le

/-! ## The corrections -/

theorem BonferroniBound.antitone {x y a : K} (hLe : x ≤ y) (h : BonferroniBound p y a) :
    BonferroniBound p x a :=
  h.imp_right fun hBound => (mul_le_mul_of_nonneg_right hLe (Nat.cast_nonneg _)).trans hBound

/-- Bonferroni's bound is the strictest. -/
theorem BonferroniBound.holm (hp : ∀ y ∈ p, 0 ≤ y) {x a : K} (hx : x ∈ p) (h : BonferroniBound p x a) :
    HolmBound p x a := by
  refine ⟨?_, fun y hy hLe => ?_⟩
  · rcases h with hOne | hBound
    · exact zero_le_one.trans hOne
    · exact (mul_nonneg (hp x hx) (Nat.cast_nonneg _)).trans hBound
  · rcases h with hOne | hBound
    · exact (min_le_left _ _).trans hOne
    · refine (min_le_right _ _).trans (le_trans ?_ hBound)
      have hCount : (atLeast p y : K) ≤ p.length := Nat.cast_le.mpr List.countP_le_length
      calc (atLeast p y : K) * y ≤ p.length * y := mul_le_mul_of_nonneg_right hCount (hp y hy)
        _ ≤ p.length * x := mul_le_mul_of_nonneg_left hLe (Nat.cast_nonneg _)
        _ = x * p.length := mul_comm _ _

theorem HolmBound.bh (hp : ∀ y ∈ p, 0 ≤ y) {x a : K} (hx : x ∈ p) (h : HolmBound p x a) :
    BhBound p x a := by
  rcases min_le_iff.mp (h.2 x hx le_rfl) with hOne | hBound
  · exact .inl hOne
  · refine .inr ⟨x, hx, le_rfl, le_trans ?_ hBound⟩
    have hCount : (0 : K) < atMost p x := Nat.cast_pos.mpr (atMost_pos hx)
    have hProduct : (p.length : K) ≤ atLeast p x * atMost p x := by
      exact_mod_cast length_le_mul hx
    rw [div_le_iff₀ hCount]
    calc x * p.length ≤ x * (atLeast p x * atMost p x) := mul_le_mul_of_nonneg_left hProduct (hp x hx)
      _ = atLeast p x * x * atMost p x := by ring

/-- The corrections decide as the classical procedures do, along any ascending order. -/
theorem corrections_classical {alpha : K} (hp : ∀ v ∈ p, 0 ≤ v ∧ v ≤ 1) (hSome : p ≠ [])
    (hAlpha : 0 < alpha ∧ alpha < 1) :
    ∃ bonferroni holm bh, bonferroniCorrect p alpha = .ok bonferroni ∧
      holmBonferroniCorrect p alpha = .ok holm ∧ bhFdrCorrect p alpha = .ok bh ∧
      (∀ order, IsAscending p order → ∀ i, Rejects holm i ↔ i ∈ stepDown p alpha order) ∧
      (∀ order, IsAscending p order → ∀ i, Rejects bh i ↔ i ∈ stepUp p alpha order.reverse) ∧
      (Coherent p bonferroni ∧ Coherent p holm ∧ Coherent p bh) ∧
      (Equivariant (fun p => bonferroniCorrect p alpha) p ∧
        Equivariant (fun p => holmBonferroniCorrect p alpha) p ∧
        Equivariant (fun p => bhFdrCorrect p alpha) p) ∧
      (∀ i, Rejects bonferroni i → Rejects holm i) ∧ ∀ i, Rejects holm i → Rejects bh i := by
  have hNonneg : ∀ y ∈ p, 0 ≤ y := fun y hy => (hp y hy).1
  have hBonferroni := bonferroni_adjustedBy p
  have hHolm := holm_adjustedBy hNonneg
  have hBh := bh_adjustedBy hNonneg
  obtain ⟨hCallBonferroni, hCallHolm, hCallBh⟩ := correct_ok hp hSome hAlpha
  refine ⟨_, _, _, hCallBonferroni, hCallHolm, hCallBh, ?_, ?_, ⟨?_, ?_, ?_⟩, ⟨?_, ?_, ?_⟩, ?_, ?_⟩
  · intro order hOrder
    refine rejects_iff_mem hHolm "holm" (fun i hStep => ?_) (holmBound_iff_stepDown hAlpha hOrder)
    exact hOrder.mem_iff.mp (stepDown_subset p alpha order hStep)
  · intro order hOrder
    refine rejects_iff_mem hBh "bh_fdr" (fun i hStep => ?_) (bhBound_iff_stepUp hAlpha hOrder)
    exact hOrder.mem_iff.mp (List.mem_reverse.mp (stepUp_subset p alpha order.reverse hStep))
  · exact coherent_of_adjustedBy hBonferroni (fun _ _ _ hLe h => h.antitone hLe)
      (fun _ _ => .inl le_rfl) "bonferroni" alpha
  · exact coherent_of_adjustedBy hHolm (fun _ _ _ hLe h => h.antitone hLe)
      (fun _ _ => ⟨zero_le_one, fun _ _ _ => min_le_left _ _⟩) "holm" alpha
  · exact coherent_of_adjustedBy hBh (fun _ _ _ hLe h => h.antitone hLe)
      (fun _ _ => .inl le_rfl) "bh_fdr" alpha
  · exact equivariant_of_adjustedBy (fun p _ => bonferroni_adjustedBy p) BonferroniBound.of_perm hp
      (fun p hp hSome => (correct_ok hp hSome hAlpha).1) hSome
  · exact equivariant_of_adjustedBy (fun p hp => holm_adjustedBy hp) HolmBound.of_perm hp
      (fun p hp hSome => (correct_ok hp hSome hAlpha).2.1) hSome
  · exact equivariant_of_adjustedBy (fun p hp => bh_adjustedBy hp) BhBound.of_perm hp
      (fun p hp hSome => (correct_ok hp hSome hAlpha).2.2) hSome
  · exact rejects_weaker hBonferroni hHolm _ _ fun _ hx h => h.holm hNonneg hx
  · exact rejects_weaker hHolm hBh _ _ fun _ hx h => h.bh hNonneg hx

end Ordered

def fourPValues : List ℚ := [3 / 100, 1 / 100, 3 / 100, 1 / 2]

theorem corrections_classical_four : ∃ bonferroni holm bh,
    bonferroniCorrect fourPValues (1 / 20) = .ok bonferroni ∧
      holmBonferroniCorrect fourPValues (1 / 20) = .ok holm ∧
      bhFdrCorrect fourPValues (1 / 20) = .ok bh ∧
      (∀ i, Rejects holm i ↔ i ∈ stepDown fourPValues (1 / 20) (ascending fourPValues)) ∧
      ∀ i, Rejects bh i ↔ i ∈ stepUp fourPValues (1 / 20) (ascending fourPValues).reverse := by
  have hAll : ∀ v ∈ fourPValues, 0 ≤ v ∧ v ≤ 1 := by decide +kernel
  obtain ⟨bonferroni, holm, bh, hBonferroni, hHolm, hBh, hStepDown, hStepUp, -⟩ :=
    corrections_classical hAll (by decide) (show (0 : ℚ) < 1 / 20 ∧ (1 / 20 : ℚ) < 1 by norm_num)
  exact ⟨bonferroni, holm, bh, hBonferroni, hHolm, hBh, hStepDown _ (ascending_isAscending _),
    hStepUp _ (ascending_isAscending _)⟩

end Futur3.Stats
