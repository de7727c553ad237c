import Futur3.Prelude.OperationRun

/-! # How a method ends

A method run on an object either returns, with a property of its value and the
object it leaves, or raises a failure of a given kind. The rules take a composed
method apart; nothing is said of the object that a raising method leaves.
-/

namespace Futur3.Prelude

namespace Method

universe u

variable {ε σ α β : Type u}

/-- Run on this object, the method returns with `Q` or raises a failure of `F`. -/
def Ends (x : Method ε σ α) (s : σ) (Q : α → σ → Prop) (F : ε → Prop) : Prop :=
  match x s with
  | .ok a s' => Q a s'
  | .error e _ => F e

variable {s : σ} {Q : α → σ → Prop} {R : β → σ → Prop} {F : ε → Prop}

theorem Ends.of_ok {x : Method ε σ α} {s' : σ} {a : α} (h : x s = .ok a s') (hQ : Q a s') :
    Ends x s Q F := by
  rw [Ends, h]
  exact hQ

theorem Ends.of_error {x : Method ε σ α} {s' : σ} {e : ε} (h : x s = .error e s') (hF : F e) :
    Ends x s Q F := by
  rw [Ends, h]
  exact hF

/-- The two ways a method can end. -/
theorem Ends.cases {x : Method ε σ α} (h : Ends x s Q F) :
    (∃ a s', x s = .ok a s' ∧ Q a s') ∨ ∃ e s', x s = .error e s' ∧ F e := by
  unfold Ends at h
  cases hRun : x s with
  | ok a s' =>
    rw [hRun] at h
    exact Or.inl ⟨a, s', rfl, h⟩
  | error e s' =>
    rw [hRun] at h
    exact Or.inr ⟨e, s', rfl, h⟩

theorem Ends.weaken {x : Method ε σ α} {F' : ε → Prop} (h : Ends x s Q F) (hF : ∀ e, F e → F' e) :
    Ends x s Q F' := by
  rcases h.cases with ⟨a, s', hRun, hEnd⟩ | ⟨e, s', hRun, hEnd⟩
  · exact .of_ok hRun hEnd
  · exact .of_error hRun (hF e hEnd)

theorem ends_pure {a : α} (h : Q a s) : Ends (pure a : Method ε σ α) s Q F := h

theorem ends_bind {x : Method ε σ α} {f : α → Method ε σ β} (hx : Ends x s Q F)
    (hf : ∀ a s', Q a s' → Ends (f a) s' R F) : Ends (x >>= f) s R F := by
  rcases hx.cases with ⟨a, s', hRun, hEnd⟩ | ⟨e, s', hRun, hEnd⟩
  · rw [Ends, bind_of_ok hRun]
    exact hf a s' hEnd
  · exact .of_error (bind_of_error hRun) hEnd

theorem ends_get_bind {f : σ → Method ε σ β} (h : Ends (f s) s R F) :
    Ends (get >>= f) s R F := h

/-- A change of the object, and what is known of the object after it. -/
theorem ends_modify_bind {P : σ → Prop} {g : σ → σ} {f : PUnit → Method ε σ β} (hg : P (g s))
    (hf : ∀ s', P s' → Ends (f ⟨⟩) s' R F) : Ends (modify g >>= f) s R F :=
  hf (g s) hg

theorem ends_liftExcept_ok {x : Except ε α} {f : α → Method ε σ β} {a : α} (hx : x = .ok a)
    (h : Ends (f a) s R F) : Ends (liftExcept x >>= f) s R F := by
  subst hx
  exact h

theorem ends_liftExcept_error {x : Except ε α} {f : α → Method ε σ β} {e : ε} (hx : x = .error e)
    (h : F e) : Ends (liftExcept x >>= f) s R F := by
  subst hx
  exact h

theorem ends_ite {p : Prop} [Decidable p] {x y : Method ε σ α} (hx : p → Ends x s Q F)
    (hy : ¬p → Ends y s Q F) : Ends (if p then x else y) s Q F := by
  split
  · rename_i h
    exact hx h
  · rename_i h
    exact hy h

/-- A loop whose turns keep an invariant ends with it, or raises what one of its turns may raise. -/
theorem ends_each {ι : Type u} {f : ι → Method ε σ α} {items : List ι} {Inv : σ → Prop}
    {G : ι → ε → Prop} (hTurn : ∀ i ∈ items, ∀ s, Inv s → Ends (f i) s (fun _ => Inv) (G i))
    (hStart : Inv s) :
    Ends (each f items) s (fun _ => Inv) (fun e => ∃ i ∈ items, G i e) := by
  induction items generalizing s with
  | nil => exact ends_pure hStart
  | cons i rest ih =>
    have hFirst : Ends (f i) s (fun _ => Inv) fun e => ∃ j ∈ i :: rest, G j e :=
      (hTurn i List.mem_cons_self s hStart).weaken fun e he => ⟨i, List.mem_cons_self, he⟩
    apply ends_bind hFirst
    intro a s₁ hInv
    have hRest : Ends (each f rest) s₁ (fun _ => Inv) fun e => ∃ j ∈ i :: rest, G j e :=
      (ih (fun j hj => hTurn j (List.mem_cons_of_mem i hj)) hInv).weaken
        fun e ⟨j, hj, he⟩ => ⟨j, List.mem_cons_of_mem i hj, he⟩
    apply ends_bind hRest
    intro as s₂ hEnd
    exact ends_pure hEnd

end Method

end Futur3.Prelude
