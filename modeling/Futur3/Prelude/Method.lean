import Mathlib.Tactic.TypeStar

/-! # Methods of a mutable object

A method reads and writes the object's state and either returns or raises; the
state it leaves behind is kept in both cases. The lemmas take one normal return
of a composed method apart, and carry invariants through loops.
-/

namespace Futur3.Prelude

universe u v

/-- A method on objects of type `σ` that may raise `ε`. -/
abbrev Method (ε σ α : Type u) := EStateM ε σ α

namespace Method

variable {ε σ α β : Type u}

theorem bind_ok_iff {x : Method ε σ α} {f : α → Method ε σ β} {s s'' : σ} {b : β} :
    (x >>= f) s = .ok b s'' ↔ ∃ a s', x s = .ok a s' ∧ f a s' = .ok b s'' := by
  change EStateM.bind x f s = _ ↔ _
  unfold EStateM.bind
  cases h : x s with
  | error e t => simp
  | ok a t =>
    constructor
    · intro hf
      exact ⟨a, t, rfl, hf⟩
    · rintro ⟨a', t', he, hf⟩
      cases he
      exact hf

theorem bind_error_iff {x : Method ε σ α} {f : α → Method ε σ β} {s s'' : σ} {e : ε} :
    (x >>= f) s = .error e s'' ↔
      x s = .error e s'' ∨ ∃ a s', x s = .ok a s' ∧ f a s' = .error e s'' := by
  change EStateM.bind x f s = _ ↔ _
  unfold EStateM.bind
  cases h : x s with
  | error e' t => simp
  | ok a t =>
    constructor
    · intro hf
      exact Or.inr ⟨a, t, rfl, hf⟩
    · rintro (hError | ⟨a', t', he, hf⟩)
      · cases hError
      · cases he
        exact hf

theorem pure_ok_iff {a b : α} {s s' : σ} :
    (pure a : Method ε σ α) s = .ok b s' ↔ a = b ∧ s = s' := by
  change EStateM.Result.ok a s = .ok b s' ↔ _
  simp

theorem throw_ok_iff {e : ε} {b : α} {s s' : σ} :
    (throw e : Method ε σ α) s = .ok b s' ↔ False := by
  change EStateM.Result.error e s = .ok b s' ↔ _
  simp

theorem get_ok_iff {s s' t : σ} :
    (get : Method ε σ σ) s = .ok t s' ↔ s = t ∧ s = s' := by
  change EStateM.Result.ok s s = .ok t s' ↔ _
  simp

theorem set_ok_iff {s s' t : σ} {r : PUnit.{u + 1}} :
    (set t : Method ε σ PUnit.{u + 1}) s = .ok r s' ↔ t = s' := by
  change EStateM.Result.ok _ t = .ok r s' ↔ _
  simp

theorem modify_ok_iff {f : σ → σ} {s s' : σ} {r : PUnit.{u + 1}} :
    (modify f : Method ε σ PUnit.{u + 1}) s = .ok r s' ↔ f s = s' := by
  change EStateM.Result.ok _ (f s) = .ok r s' ↔ _
  simp

theorem ite_ok_iff {p : Prop} [Decidable p] {x y : Method ε σ α} {s s' : σ} {a : α} :
    (if p then x else y) s = .ok a s' ↔ (p ∧ x s = .ok a s') ∨ (¬p ∧ y s = .ok a s') := by
  split <;> simp_all

/-- A guard that raises and otherwise falls through. -/
theorem guard_ok_iff {p : Prop} [Decidable p] {e : ε} {x : Method ε σ α} {s s' : σ} {a : α} :
    (if p then throw e else x) s = .ok a s' ↔ ¬p ∧ x s = .ok a s' := by
  rw [ite_ok_iff, throw_ok_iff]
  simp

/-- Raise the failure of a pure computation, or return its value. -/
def liftExcept (x : Except ε α) : Method ε σ α :=
  match x with
  | .ok a => pure a
  | .error e => throw e

theorem liftExcept_ok_iff {x : Except ε α} {a : α} {s s' : σ} :
    (liftExcept x : Method ε σ α) s = .ok a s' ↔ x = .ok a ∧ s = s' := by
  cases x with
  | error e => simp [liftExcept, throw_ok_iff]
  | ok b => simp [liftExcept, pure_ok_iff]

/-- The method returns normally on this object, with a result that passes a test. -/
def returns (x : Method ε σ α) (s : σ) (test : α → σ → Bool) : Bool :=
  match x s with
  | .ok a s' => test a s'
  | .error _ _ => false

theorem exists_ok_of_returns {x : Method ε σ α} {s : σ} {test : α → σ → Bool}
    (h : returns x s test = true) : ∃ a s', x s = .ok a s' ∧ test a s' = true := by
  unfold returns at h
  cases hx : x s with
  | ok a s' =>
    rw [hx] at h
    exact ⟨a, s', rfl, h⟩
  | error e s' => simp [hx] at h

/-! ## Loops -/

variable {ι : Type u}

/-- Run a method for each item in turn and collect what it returns. -/
def each (f : ι → Method ε σ α) : List ι → Method ε σ (List α)
  | [] => pure []
  | i :: rest => do
    let a ← f i
    let as ← each f rest
    pure (a :: as)

theorem each_nil_ok_iff {f : ι → Method ε σ α} {s s' : σ} {as : List α} :
    each f [] s = .ok as s' ↔ as = [] ∧ s = s' := by
  rw [each, pure_ok_iff, eq_comm]

theorem each_cons_ok_iff {f : ι → Method ε σ α} {i : ι} {rest : List ι} {s s' : σ} {as : List α} :
    each f (i :: rest) s = .ok as s' ↔
      ∃ a s₁ others, f i s = .ok a s₁ ∧ each f rest s₁ = .ok others s' ∧ as = a :: others := by
  simp only [each, bind_ok_iff, pure_ok_iff]
  constructor
  · rintro ⟨a, s₁, hFirst, others, s₂, hRest, rfl, rfl⟩
    exact ⟨a, s₁, others, hFirst, hRest, rfl⟩
  · rintro ⟨a, s₁, others, hFirst, hRest, rfl⟩
    exact ⟨a, s₁, hFirst, others, s', hRest, rfl, rfl⟩

theorem each_singleton (f : ι → Method ε σ α) (i : ι) :
    each f [i] = f i >>= fun a => pure [a] := by
  simp [each]

theorem each_append_ok {f : ι → Method ε σ α} {xs ys : List ι} {s s' : σ} {as : List α}
    (h : each f (xs ++ ys) s = .ok as s') :
    ∃ first mid later, each f xs s = .ok first mid ∧ each f ys mid = .ok later s' ∧
      as = first ++ later := by
  induction xs generalizing s as with
  | nil => exact ⟨[], s, as, rfl, h, rfl⟩
  | cons i rest ih =>
    obtain ⟨a, s₁, others, hFirst, hRest, rfl⟩ := each_cons_ok_iff.mp h
    obtain ⟨first, mid, later, hXs, hYs, rfl⟩ := ih hRest
    exact ⟨a :: first, mid, later, each_cons_ok_iff.mpr ⟨a, s₁, first, hFirst, hXs, rfl⟩, hYs, rfl⟩

theorem length_of_each {f : ι → Method ε σ α} {items : List ι} {s s' : σ} {as : List α}
    (h : each f items s = .ok as s') : as.length = items.length := by
  induction items generalizing s as with
  | nil =>
    obtain ⟨rfl, -⟩ := each_nil_ok_iff.mp h
    rfl
  | cons i rest ih =>
    obtain ⟨a, s₁, others, -, hRest, rfl⟩ := each_cons_ok_iff.mp h
    rw [List.length_cons, List.length_cons, ih hRest]

theorem each_congr {f g : ι → Method ε σ α} {items : List ι} (h : ∀ i ∈ items, f i = g i) :
    each f items = each g items := by
  induction items with
  | nil => rfl
  | cons i rest ih =>
    rw [each, each, h i List.mem_cons_self, ih fun j hj => h j (List.mem_cons_of_mem i hj)]

/-- A loop whose turns each append an item to a list appends as many as it has turns. -/
theorem each_appends {γ : Type v} {f : ι → Method ε σ α} {part : σ → List γ}
    (hStep : ∀ i s a s', f i s = .ok a s' → ∃ c, part s' = part s ++ [c]) {items : List ι} {s s' : σ}
    {as : List α} (h : each f items s = .ok as s') :
    ∃ added, part s' = part s ++ added ∧ added.length = items.length := by
  induction items generalizing s as with
  | nil =>
    obtain ⟨-, rfl⟩ := each_nil_ok_iff.mp h
    exact ⟨[], by simp, rfl⟩
  | cons i rest ih =>
    obtain ⟨a, s₁, others, hFirst, hRest, -⟩ := each_cons_ok_iff.mp h
    obtain ⟨c, hc⟩ := hStep i s a s₁ hFirst
    obtain ⟨added, hAdded, hLength⟩ := ih hRest
    refine ⟨c :: added, ?_, by rw [List.length_cons, List.length_cons, hLength]⟩
    rw [hAdded, hc, List.append_assoc, List.singleton_append]

theorem each_returns {f : ι → Method ε σ α} {items : List ι}
    (h : ∀ i ∈ items, ∀ s, ∃ a s', f i s = .ok a s') (s : σ) :
    ∃ as s', each f items s = .ok as s' := by
  induction items generalizing s with
  | nil => exact ⟨[], s, rfl⟩
  | cons i rest ih =>
    obtain ⟨a, s₁, hFirst⟩ := h i List.mem_cons_self s
    obtain ⟨as, s₂, hRest⟩ := ih (fun j hj => h j (List.mem_cons_of_mem i hj)) s₁
    exact ⟨a :: as, s₂, each_cons_ok_iff.mpr ⟨a, s₁, as, hFirst, hRest, rfl⟩⟩

/-- The loop rule: an invariant of the items done, what they returned and the state. -/
theorem each_rule {f : ι → Method ε σ α} (Inv : List ι → List α → σ → Prop) {items : List ι}
    (hStep : ∀ done i rest log a s s', items = done ++ i :: rest → Inv done log s →
      f i s = .ok a s' → Inv (done ++ [i]) (log ++ [a]) s')
    {s s' : σ} {as : List α} (hStart : Inv [] [] s) (h : each f items s = .ok as s') :
    Inv items as s' := by
  -- generalized to a loop that has already done some of the items
  suffices hFrom : ∀ rest done log s as, items = done ++ rest → Inv done log s →
      each f rest s = .ok as s' → Inv items (log ++ as) s' from
    hFrom items [] [] s as rfl hStart h
  intro rest
  induction rest with
  | nil =>
    intro done log s as hItems hInv h
    obtain ⟨rfl, rfl⟩ := each_nil_ok_iff.mp h
    rw [List.append_nil] at hItems ⊢
    exact hItems ▸ hInv
  | cons i rest ih =>
    intro done log s as hItems hInv h
    obtain ⟨a, s₁, others, hFirst, hRest, rfl⟩ := each_cons_ok_iff.mp h
    have hNext := hStep done i rest log a s s₁ hItems hInv hFirst
    have := ih (done ++ [i]) (log ++ [a]) s₁ others (by rw [hItems]; simp) hNext hRest
    simpa using this

/-! ## What a method leaves alone, also when it raises -/

section Keeps

variable {γ : Type v}

/-- The method never changes this part of the object. -/
def Keeps (part : σ → γ) (x : Method ε σ α) : Prop :=
  ∀ s, match x s with
    | .ok _ s' => part s' = part s
    | .error _ s' => part s' = part s

variable {part : σ → γ}

theorem Keeps.ok {x : Method ε σ α} (h : Keeps part x) {s s' : σ} {a : α} (hRun : x s = .ok a s') :
    part s' = part s := by
  have := h s
  rwa [hRun] at this

theorem Keeps.error {x : Method ε σ α} (h : Keeps part x) {s s' : σ} {e : ε}
    (hRun : x s = .error e s') : part s' = part s := by
  have := h s
  rwa [hRun] at this

theorem keeps_pure (a : α) : Keeps part (pure a : Method ε σ α) := fun _ => rfl

theorem keeps_throw (e : ε) : Keeps part (throw e : Method ε σ α) := fun _ => rfl

theorem keeps_get : Keeps part (get : Method ε σ σ) := fun _ => rfl

theorem keeps_modify {f : σ → σ} (hf : ∀ s, part (f s) = part s) :
    Keeps part (modify f : Method ε σ PUnit.{u + 1}) := hf

theorem keeps_ite {p : Prop} [Decidable p] {x y : Method ε σ α} (hx : Keeps part x)
    (hy : Keeps part y) : Keeps part (if p then x else y) := by
  split
  · exact hx
  · exact hy

theorem keeps_liftExcept (x : Except ε α) : Keeps part (liftExcept x : Method ε σ α) := by
  cases x with
  | error e => exact keeps_throw e
  | ok a => exact keeps_pure a

theorem keeps_bind {x : Method ε σ α} {f : α → Method ε σ β} (hx : Keeps part x)
    (hf : ∀ a, Keeps part (f a)) : Keeps part (x >>= f) := by
  intro s
  change match EStateM.bind x f s with
    | .ok _ s' => part s' = part s
    | .error _ s' => part s' = part s
  unfold EStateM.bind
  cases hFirst : x s with
  | error e s₁ => exact hx.error hFirst
  | ok a s₁ =>
    have hSecond := hf a s₁
    rw [hx.ok hFirst] at hSecond
    exact hSecond

theorem keeps_each {f : ι → Method ε σ α} (hf : ∀ i, Keeps part (f i)) (items : List ι) :
    Keeps part (each f items) := by
  induction items with
  | nil => exact keeps_pure []
  | cons i rest ih =>
    apply keeps_bind (hf i)
    intro a
    apply keeps_bind ih
    intro as
    exact keeps_pure (a :: as)

end Keeps

end Method

section Attempt

variable {ε σ α : Type}

/-- Run a method and return what it raises; the object stays as the method leaves it. -/
def Method.attempt (x : Method ε σ α) : Method Empty σ (Except ε α) := fun s =>
  match x s with
  | .ok a s' => .ok (.ok a) s'
  | .error e s' => .ok (.error e) s'

theorem Method.attempt_ok_iff {x : Method ε σ α} {s s' : σ} {r : Except ε α} :
    x.attempt s = .ok r s' ↔
      (∃ a, r = .ok a ∧ x s = .ok a s') ∨ ∃ e, r = .error e ∧ x s = .error e s' := by
  unfold Method.attempt
  cases x s with
  | ok a t =>
    constructor
    · intro h
      cases h
      exact Or.inl ⟨a, rfl, rfl⟩
    · rintro (⟨b, rfl, h⟩ | ⟨e, rfl, h⟩)
      · cases h
        rfl
      · cases h
  | error e t =>
    constructor
    · intro h
      cases h
      exact Or.inr ⟨e, rfl, rfl⟩
    · rintro (⟨b, rfl, h⟩ | ⟨e', rfl, h⟩)
      · cases h
      · cases h
        rfl

end Attempt

section Except

variable {ε : Type v} {α β : Type u}

theorem except_ok_bind (a : α) (f : α → Except ε β) : (Except.ok a >>= f) = f a := rfl

theorem except_bind_of_ok {x : Except ε α} {a : α} (h : x = .ok a) (f : α → Except ε β) :
    (x >>= f) = f a := by
  rw [h, except_ok_bind]

theorem except_bind_ok_iff {x : Except ε α} {f : α → Except ε β} {b : β} :
    (x >>= f) = .ok b ↔ ∃ a, x = .ok a ∧ f a = .ok b := by
  cases x with
  | error e => simp [bind, Except.bind]
  | ok a => simp [bind, Except.bind]

theorem except_pure_ok_iff {a b : α} : (pure a : Except ε α) = .ok b ↔ a = b := by
  simp [pure, Except.pure]

theorem except_throw_ok_iff {e : ε} {b : α} : (throw e : Except ε α) = .ok b ↔ False := by
  simp [throw, throwThe, MonadExceptOf.throw]

theorem except_bind_error_iff {x : Except ε α} {f : α → Except ε β} {e : ε} :
    (x >>= f) = .error e ↔ x = .error e ∨ ∃ a, x = .ok a ∧ f a = .error e := by
  cases x with
  | error e' => simp [bind, Except.bind]
  | ok a => simp [bind, Except.bind]

theorem except_throw_error_iff {e e' : ε} : (throw e : Except ε α) = .error e' ↔ e = e' := by
  simp [throw, throwThe, MonadExceptOf.throw]

theorem except_map_ok {x : Except ε α} {f : α → β} {b : β} (h : x.map f = .ok b) :
    ∃ a, x = .ok a ∧ f a = b := by
  cases x with
  | ok a => exact ⟨a, rfl, Except.ok.inj h⟩
  | error e => cases h

theorem mapError_ok_iff {ε' : Type v} {f : ε → ε'} {x : Except ε α} {a : α} :
    x.mapError f = .ok a ↔ x = .ok a := by
  cases x with
  | ok b =>
    constructor
    · exact fun h => congrArg Except.ok (Except.ok.inj h)
    · exact fun h => congrArg Except.ok (Except.ok.inj h)
  | error e =>
    constructor
    · rintro ⟨⟩
    · rintro ⟨⟩

theorem except_map_bind_congr {γ : Type _} {x : Except ε α} {f g : α → Except ε β} {k : β → γ}
    (h : ∀ a, (f a).map k = (g a).map k) : (x >>= f).map k = (x >>= g).map k := by
  cases x with
  | ok a => exact h a
  | error e => rfl

theorem except_mapM_ok_iff {f : α → Except ε β} {xs : List α} {ys : List β} :
    xs.mapM f = .ok ys ↔ xs.map f = ys.map .ok := by
  induction xs generalizing ys with
  | nil =>
    rw [List.mapM_nil, except_pure_ok_iff]
    cases ys <;> simp
  | cons x rest ih =>
    rw [List.mapM_cons, except_bind_ok_iff]
    simp only [except_bind_ok_iff, except_pure_ok_iff, ih]
    constructor
    · rintro ⟨y, hy, rest', hRest, rfl⟩
      rw [List.map_cons, hy, hRest, List.map_cons]
    · intro h
      cases ys with
      | nil => cases h
      | cons y rest' =>
        obtain ⟨hy, hRest⟩ := List.cons.inj h
        exact ⟨y, hy, rest', hRest, rfl⟩

theorem except_mapM_returns {f : α → Except ε β} {xs : List α}
    (h : ∀ x ∈ xs, ∃ y, f x = .ok y) : ∃ ys, xs.mapM f = .ok ys := by
  induction xs with
  | nil => exact ⟨[], rfl⟩
  | cons x rest ih =>
    obtain ⟨y, hy⟩ := h x List.mem_cons_self
    obtain ⟨ys, hys⟩ := ih fun z hz => h z (List.mem_cons_of_mem x hz)
    refine ⟨y :: ys, ?_⟩
    rw [except_mapM_ok_iff] at hys ⊢
    rw [List.map_cons, hy, hys, List.map_cons]

theorem except_guard_ok_iff {p : Prop} [Decidable p] {e : ε} {x : Except ε α} {a : α} :
    (if p then throw e else x) = .ok a ↔ ¬p ∧ x = .ok a := by
  split <;> simp_all [except_throw_ok_iff]

/-- A guard of a `do` block: raise, or go on with the rest. -/
theorem except_raise_guard_ok_iff {p : Prop} [Decidable p] {e : ε} {f : α → Except ε β}
    {x : Except ε β} {b : β} : (if p then (throw e >>= f) else x) = .ok b ↔ ¬p ∧ x = .ok b := by
  split <;> simp_all [except_bind_ok_iff, except_throw_ok_iff]

theorem except_raise_guard_error_iff {p : Prop} [Decidable p] {e e' : ε} {f : α → Except ε β}
    {x : Except ε β} :
    (if p then (throw e >>= f) else x) = .error e' ↔ (p ∧ e = e') ∨ (¬p ∧ x = .error e') := by
  split <;> simp_all [except_bind_error_iff, except_throw_error_iff, except_throw_ok_iff]

theorem except_exists_ok {x : Except ε α} {test : α → Bool} (h : x.toOption.any test = true) :
    ∃ a, x = .ok a ∧ test a = true := by
  cases x with
  | error e => cases h
  | ok a => exact ⟨a, rfl, h⟩

end Except

end Futur3.Prelude
