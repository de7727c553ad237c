import Futur3.Prelude.Method
import Mathlib.Data.List.Forall2
import Mathlib.Data.List.Perm.Basic

/-! # Two methods side by side

A relation between the states of two objects and a relation between the values of
two methods: from related states the methods both return, related values and related
states, or they both raise. What they raise, and what a raising method leaves, is free.
-/

namespace Futur3.Prelude

universe u

/-- Two pure computations both return related values or both raise. -/
inductive BothExcept {ε ε' α α' : Type u} (Q : α → α' → Prop) : Except ε α → Except ε' α' → Prop
  | ok {a : α} {b : α'} : Q a b → BothExcept Q (.ok a) (.ok b)
  | error {e : ε} {e' : ε'} : BothExcept Q (.error e) (.error e')

namespace BothExcept

variable {ε ε' ω ω' α α' β β' : Type u} {Q : α → α' → Prop} {Q' : β → β' → Prop}

theorem refl (x : Except ε α) : BothExcept Eq x x := by
  cases x with
  | ok a => exact .ok rfl
  | error e => exact .error

theorem mapError {x : Except ε α} {y : Except ε' α'} (h : BothExcept Q x y) (f : ε → ω)
    (g : ε' → ω') : BothExcept Q (x.mapError f) (y.mapError g) := by
  cases h with
  | ok h => exact .ok h
  | error => exact .error

theorem bind {x : Except ε α} {y : Except ε' α'} {f : α → Except ε β} {g : α' → Except ε' β'}
    (h : BothExcept Q x y) (hNext : ∀ a b, Q a b → BothExcept Q' (f a) (g b)) :
    BothExcept Q' (x >>= f) (y >>= g) := by
  cases h with
  | ok h => exact hNext _ _ h
  | error => exact .error

theorem with_left {x : Except ε α} {y : Except ε' α'} {P : α → Prop} (h : BothExcept Q x y)
    (hP : ∀ a, x = .ok a → P a) : BothExcept (fun a b => Q a b ∧ P a) x y := by
  cases h with
  | ok h => exact .ok ⟨h, hP _ rfl⟩
  | error => exact .error

theorem exists_mapM_of_perm {f : α → Except ε β} {xs ys : List α} {bs : List β} (h : xs.Perm ys)
    (hMap : xs.mapM f = .ok bs) : ∃ bs', ys.mapM f = .ok bs' ∧ bs.Perm bs' := by
  rw [except_mapM_ok_iff] at hMap
  have hReturns : ∀ y ∈ ys, ∃ b, f y = .ok b := by
    intro y hy
    have hMem : f y ∈ xs.map f := List.mem_map.mpr ⟨y, h.symm.subset hy, rfl⟩
    rw [hMap] at hMem
    obtain ⟨b, -, hb⟩ := List.mem_map.mp hMem
    exact ⟨b, hb.symm⟩
  obtain ⟨bs', hMap'⟩ := except_mapM_returns hReturns
  refine ⟨bs', hMap', ?_⟩
  have hPerm := h.map f
  rw [hMap, except_mapM_ok_iff.mp hMap'] at hPerm
  exact (List.map_perm_map_iff fun _ _ hb => Except.ok.inj hb).mp hPerm

/-- Which item raises first may depend on the order, but not whether one does. -/
theorem mapM_perm {f : α → Except ε β} {xs ys : List α} (h : xs.Perm ys) :
    BothExcept List.Perm (xs.mapM f) (ys.mapM f) := by
  cases hx : xs.mapM f with
  | ok bs =>
    obtain ⟨bs', hy, hPerm⟩ := exists_mapM_of_perm h hx
    rw [hy]
    exact .ok hPerm
  | error failure =>
    cases hy : ys.mapM f with
    | ok bs' =>
      obtain ⟨bs, hx', -⟩ := exists_mapM_of_perm h.symm hy
      rw [hx] at hx'
      cases hx'
    | error failure' => exact .error

end BothExcept

namespace Method

variable {ε ε' σ σ' α α' β β' ι ι' : Type u}

/-- What two runs come to: related values in related states, or a failure of both. -/
inductive Both (T : σ → σ' → Prop) (Q : α → α' → Prop) :
    EStateM.Result ε σ α → EStateM.Result ε' σ' α' → Prop
  | ok {a : α} {b : α'} {t : σ} {t' : σ'} : Q a b → T t t' → Both T Q (.ok a t) (.ok b t')
  | error {e : ε} {e' : ε'} {t : σ} {t' : σ'} : Both T Q (.error e t) (.error e' t')

/-- Run from states related by `R`, the two methods come to states related by `T`. -/
def Leads (R T : σ → σ' → Prop) (Q : α → α' → Prop) (x : Method ε σ α) (y : Method ε' σ' α') : Prop :=
  ∀ s s', R s s' → Both T Q (x s) (y s')

/-- The two methods keep a relation between their states. -/
abbrev Agree (R : σ → σ' → Prop) (Q : α → α' → Prop) (x : Method ε σ α) (y : Method ε' σ' α') : Prop :=
  Leads R R Q x y

variable {R S T : σ → σ' → Prop} {Q : α → α' → Prop} {Q' : β → β' → Prop}

theorem Both.exists_ok {r : EStateM.Result ε σ α} {r' : EStateM.Result ε' σ' α'} {a : α} {t : σ}
    (h : Both T Q r r') (hOk : r = .ok a t) : ∃ b t', r' = .ok b t' ∧ Q a b ∧ T t t' := by
  cases h with
  | ok hQ hT =>
    cases hOk
    exact ⟨_, _, rfl, hQ, hT⟩
  | error => cases hOk

theorem Both.exists_ok_left {r : EStateM.Result ε σ α} {r' : EStateM.Result ε' σ' α'} {b : α'}
    {t' : σ'} (h : Both T Q r r') (hOk : r' = .ok b t') : ∃ a t, r = .ok a t ∧ Q a b ∧ T t t' := by
  cases h with
  | ok hQ hT =>
    cases hOk
    exact ⟨_, _, rfl, hQ, hT⟩
  | error => cases hOk

theorem both_bind {x : Method ε σ α} {y : Method ε' σ' α'} {f : α → Method ε σ β}
    {g : α' → Method ε' σ' β'} {s : σ} {s' : σ'} (h : Both S Q (x s) (y s'))
    (hNext : ∀ a b, Q a b → Leads S T Q' (f a) (g b)) : Both T Q' ((x >>= f) s) ((y >>= g) s') := by
  change Both T Q' (EStateM.bind x f s) (EStateM.bind y g s')
  unfold EStateM.bind
  cases hx : x s with
  | ok a t =>
    obtain ⟨b, t', hy, hQ, hS⟩ := h.exists_ok hx
    rw [hy]
    exact hNext a b hQ t t' hS
  | error e t =>
    cases hy : y s' with
    | ok b t' =>
      obtain ⟨a, t, hx', -⟩ := h.exists_ok_left hy
      rw [hx] at hx'
      cases hx'
    | error e' t' => exact .error

theorem leads_bind {x : Method ε σ α} {y : Method ε' σ' α'} {f : α → Method ε σ β}
    {g : α' → Method ε' σ' β'} (h : Leads R S Q x y)
    (hNext : ∀ a b, Q a b → Leads S T Q' (f a) (g b)) : Leads R T Q' (x >>= f) (y >>= g) :=
  fun s s' hR => both_bind (h s s' hR) hNext

theorem leads_pure {a : α} {b : α'} (h : Q a b) :
    Leads R R Q (pure a : Method ε σ α) (pure b : Method ε' σ' α') :=
  fun _ _ hR => .ok h hR

theorem leads_throw (e : ε) (e' : ε') :
    Leads R T Q (throw e : Method ε σ α) (throw e' : Method ε' σ' α') :=
  fun _ _ _ => .error

theorem leads_throw_bind (e : ε) (e' : ε') (f : α → Method ε σ β) (g : α' → Method ε' σ' β') :
    Leads R T Q' ((throw e : Method ε σ α) >>= f) ((throw e' : Method ε' σ' α') >>= g) :=
  fun _ _ _ => .error

/-- Both methods read their states, which are related, and go on from there. -/
theorem leads_get_bind {f : σ → Method ε σ β} {g : σ' → Method ε' σ' β'}
    (h : ∀ s s', R s s' → Leads R T Q' (f s) (g s')) : Leads R T Q' (get >>= f) (get >>= g) :=
  fun s s' hR => h s s' hR s s' hR

theorem leads_get_left {f : σ → Method ε σ α} {y : Method ε' σ' α'}
    (h : ∀ s, Leads R T Q (f s) y) : Leads R T Q (get >>= f) y :=
  fun s s' hR => h s s s' hR

theorem leads_get_right {x : Method ε σ α} {g : σ' → Method ε' σ' α'}
    (h : ∀ s', Leads R T Q x (g s')) : Leads R T Q x (get >>= g) :=
  fun s s' hR => h s' s s' hR

theorem agree_set {t : σ} {t' : σ'} (h : R t t') :
    Agree R Eq (set t : Method ε σ PUnit.{u + 1}) (set t' : Method ε' σ' PUnit.{u + 1}) :=
  fun _ _ _ => .ok rfl h

theorem leads_modify {f : σ → σ} {g : σ' → σ'} (h : ∀ s s', R s s' → T (f s) (g s')) :
    Leads R T Eq (modify f : Method ε σ PUnit.{u + 1}) (modify g : Method ε' σ' PUnit.{u + 1}) :=
  fun s s' hR => .ok rfl (h s s' hR)

theorem agree_modify {f : σ → σ} {g : σ' → σ'} (h : ∀ s s', R s s' → R (f s) (g s')) :
    Agree R Eq (modify f : Method ε σ PUnit.{u + 1}) (modify g : Method ε' σ' PUnit.{u + 1}) :=
  leads_modify h

/-- A change that the first method makes alone. -/
theorem leads_modify_left {f : σ → σ} {x : Method ε σ α} {y : Method ε' σ' α'}
    (h : ∀ s s', R s s' → S (f s) s') (hNext : Leads S T Q x y) :
    Leads R T Q (modify f >>= fun _ => x) y :=
  fun s s' hR => hNext (f s) s' (h s s' hR)

theorem leads_ite {p q : Prop} [Decidable p] [Decidable q] {x₁ x₂ : Method ε σ α}
    {y₁ y₂ : Method ε' σ' α'} (hIff : p ↔ q) (h₁ : p → Leads R T Q x₁ y₁)
    (h₂ : ¬p → Leads R T Q x₂ y₂) : Leads R T Q (if p then x₁ else x₂) (if q then y₁ else y₂) := by
  by_cases hp : p
  · rw [if_pos hp, if_pos (hIff.mp hp)]
    exact h₁ hp
  · rw [if_neg hp, if_neg fun hq => hp (hIff.mpr hq)]
    exact h₂ hp

theorem leads_liftExcept {x : Except ε α} {y : Except ε' α'} (h : BothExcept Q x y) :
    Leads R R Q (liftExcept x : Method ε σ α) (liftExcept y : Method ε' σ' α') := by
  cases h with
  | ok h => exact leads_pure h
  | error => exact leads_throw _ _

/-- The same computation, raising different failures. -/
theorem leads_liftExcept_same {ω : Type u} (x : Except ω α) (f : ω → ε) (g : ω → ε') :
    Leads R R Eq (liftExcept (x.mapError f) : Method ε σ α)
      (liftExcept (x.mapError g) : Method ε' σ' α) :=
  leads_liftExcept ((BothExcept.refl x).mapError f g)

/-- What the first method makes of a property of its state. -/
theorem Leads.with_left {x : Method ε σ α} {y : Method ε' σ' α'} {I J : σ → Prop}
    (h : Leads R T Q x y) (hStep : ∀ s a s', I s → x s = .ok a s' → J s') :
    Leads (fun s s' => R s s' ∧ I s) (fun t t' => T t t' ∧ J t) Q x y := by
  rintro s s' ⟨hR, hI⟩
  have hBoth := h s s' hR
  have hLeft := hStep s
  generalize x s = r at hBoth hLeft ⊢
  generalize y s' = r' at hBoth ⊢
  cases hBoth with
  | ok hQ hT => exact .ok hQ ⟨hT, hLeft _ _ hI rfl⟩
  | error => exact .error

/-- The second method goes on alone. -/
theorem Leads.then_right {P : α → β' → Prop} {x : Method ε σ α} {y : Method ε' σ' α'}
    {g : α' → Method ε' σ' β'} (h : Leads R S Q x y)
    (hNext : ∀ a b, Q a b → Leads S T P (pure a : Method ε σ α) (g b)) : Leads R T P x (y >>= g) := by
  rw [← bind_pure x]
  exact leads_bind h hNext

theorem Leads.then_left {P : β → α' → Prop} {x : Method ε σ α} {y : Method ε' σ' α'}
    {f : α → Method ε σ β} (h : Leads R S Q x y)
    (hNext : ∀ a b, Q a b → Leads S T P (f a) (pure b : Method ε' σ' α')) :
    Leads R T P (x >>= f) y := by
  rw [← bind_pure y]
  exact leads_bind h hNext

theorem Leads.of_pre {R' : σ → σ' → Prop} {x : Method ε σ α} {y : Method ε' σ' α'}
    (h : Leads R T Q x y) (hPre : ∀ s s', R' s s' → R s s') : Leads R' T Q x y :=
  fun s s' hR => h s s' (hPre s s' hR)

/-- Two loops over related items. -/
theorem agree_each_rel {P : ι → ι' → Prop} {f : ι → Method ε σ α} {g : ι' → Method ε' σ' α'}
    {items : List ι} {items' : List ι'} (hItems : List.Forall₂ P items items')
    (h : ∀ i j, P i j → Agree R Q (f i) (g j)) :
    Agree R (List.Forall₂ Q) (each f items) (each g items') := by
  induction hItems with
  | nil => exact leads_pure .nil
  | cons hHead _ ih =>
    apply leads_bind (h _ _ hHead)
    intro a b hQ
    apply leads_bind ih
    intro as bs hQs
    exact leads_pure (.cons hQ hQs)

/-- Two loops over the same items. -/
theorem agree_each {f : ι → Method ε σ α} {g : ι → Method ε' σ' α'} {items : List ι}
    (h : ∀ i ∈ items, Agree R Q (f i) (g i)) :
    Agree R (List.Forall₂ Q) (each f items) (each g items) := by
  apply agree_each_rel (P := fun i j => i = j ∧ i ∈ items)
  · exact List.forall₂_same.mpr fun i hi => ⟨rfl, hi⟩
  · rintro i _ ⟨rfl, hi⟩
    exact h i hi

theorem agree_each_eq {f : ι → Method ε σ α} {g : ι → Method ε' σ' α} {items : List ι}
    (h : ∀ i ∈ items, Agree R Eq (f i) (g i)) : Agree R Eq (each f items) (each g items) := by
  have hEach := agree_each h
  rwa [List.forall₂_eq_eq_eq] at hEach

end Method

end Futur3.Prelude
