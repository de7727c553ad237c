import Futur3.Prelude.Method

/-! # Runs of operations on one object

A client calls methods of an object in any order. A call that raises leaves what
it wrote before raising, so every call has a state after it. An invariant of the
calls that meet a condition holds after every run of such calls.
-/

namespace Futur3.Prelude

universe u v

namespace Method

variable {ε σ α β : Type u}

/-- The state a method leaves behind, whether it returns or raises. -/
def after (x : Method ε σ α) (s : σ) : σ :=
  match x s with
  | .ok _ s' => s'
  | .error _ s' => s'

def raised (x : Method ε σ α) (s : σ) : Option ε :=
  match x s with
  | .ok _ _ => none
  | .error e _ => some e

theorem after_of_ok {x : Method ε σ α} {s s' : σ} {a : α} (h : x s = .ok a s') : x.after s = s' := by
  rw [after, h]

theorem after_of_error {x : Method ε σ α} {s s' : σ} {e : ε} (h : x s = .error e s') :
    x.after s = s' := by
  rw [after, h]

theorem raised_of_ok {x : Method ε σ α} {s s' : σ} {a : α} (h : x s = .ok a s') :
    x.raised s = none := by
  rw [raised, h]

theorem raised_of_error {x : Method ε σ α} {s s' : σ} {e : ε} (h : x s = .error e s') :
    x.raised s = some e := by
  rw [raised, h]

theorem bind_of_ok {x : Method ε σ α} {f : α → Method ε σ β} {s s' : σ} {a : α}
    (h : x s = .ok a s') : (x >>= f) s = f a s' := by
  change EStateM.bind x f s = f a s'
  rw [EStateM.bind, h]

theorem bind_of_error {x : Method ε σ α} {f : α → Method ε σ β} {s s' : σ} {e : ε}
    (h : x s = .error e s') : (x >>= f) s = .error e s' := by
  change EStateM.bind x f s = .error e s'
  rw [EStateM.bind, h]

theorem get_bind (f : σ → Method ε σ β) (s : σ) : (get >>= f) s = f s s := rfl

theorem modify_bind (g : σ → σ) (f : PUnit → Method ε σ β) (s : σ) :
    (modify g >>= f) s = f ⟨⟩ (g s) := rfl

theorem pure_error_iff {a : α} {s s' : σ} {e : ε} :
    (pure a : Method ε σ α) s = .error e s' ↔ False := by
  change EStateM.Result.ok a s = .error e s' ↔ _
  simp

theorem throw_error_iff {e e' : ε} {s s' : σ} :
    (throw e : Method ε σ α) s = .error e' s' ↔ e = e' ∧ s = s' := by
  change EStateM.Result.error e s = .error e' s' ↔ _
  simp

theorem get_error_iff {s s' : σ} {e : ε} : (get : Method ε σ σ) s = .error e s' ↔ False := by
  change EStateM.Result.ok s s = .error e s' ↔ _
  simp

theorem modify_error_iff {f : σ → σ} {s s' : σ} {e : ε} :
    (modify f : Method ε σ PUnit.{u + 1}) s = .error e s' ↔ False := by
  change EStateM.Result.ok _ (f s) = .error e s' ↔ _
  simp

theorem ite_error_iff {p : Prop} [Decidable p] {x y : Method ε σ α} {s s' : σ} {e : ε} :
    (if p then x else y) s = .error e s' ↔
      (p ∧ x s = .error e s') ∨ (¬p ∧ y s = .error e s') := by
  split <;> simp_all

theorem liftExcept_error_iff {x : Except ε α} {s s' : σ} {e : ε} :
    (liftExcept x : Method ε σ α) s = .error e s' ↔ x = .error e ∧ s = s' := by
  cases x with
  | ok a => simp [liftExcept, pure_error_iff]
  | error e' => simp [liftExcept, throw_error_iff]

theorem after_modify (f : σ → σ) (s : σ) : (modify f : Method ε σ PUnit).after s = f s := rfl

theorem after_get_bind (f : σ → Method ε σ β) (s : σ) :
    (get >>= f : Method ε σ β).after s = (f s).after s := rfl

def forget (x : Method ε σ α) : Method ε σ PUnit := x >>= fun _ => pure ⟨⟩

theorem after_forget (x : Method ε σ α) (s : σ) : x.forget.after s = x.after s := by
  cases h : x s with
  | ok a s' => rw [forget, after_of_ok h, after, bind_of_ok h]; rfl
  | error e s' => rw [forget, after_of_error h, after, bind_of_error h]

theorem raised_bind_pure (x : Method ε σ α) (b : β) (s : σ) :
    (x >>= fun _ => pure b : Method ε σ β).raised s = x.raised s := by
  cases h : x s with
  | ok a s' => rw [raised_of_ok h, raised, bind_of_ok h]; rfl
  | error e s' => rw [raised_of_error h, raised, bind_of_error h]

theorem raised_forget (x : Method ε σ α) (s : σ) : x.forget.raised s = x.raised s :=
  raised_bind_pure x PUnit.unit s

theorem Keeps.after {γ : Type v} {part : σ → γ} {x : Method ε σ α} (h : Keeps part x) (s : σ) :
    part (x.after s) = part s := by
  cases hRun : x s with
  | ok a s' => rw [after_of_ok hRun, h.ok hRun]
  | error e s' => rw [after_of_error hRun, h.error hRun]

theorem after_each_cons_error {ι : Type u} {f : ι → Method ε σ α} {i : ι} {rest : List ι} {s s' : σ}
    {e : ε} (h : f i s = .error e s') : (each f (i :: rest)).after s = s' :=
  after_of_error (bind_of_error h)

theorem after_each_cons_ok {ι : Type u} {f : ι → Method ε σ α} {i : ι} {rest : List ι} {s s' : σ}
    {a : α} (h : f i s = .ok a s') : (each f (i :: rest)).after s = (each f rest).after s' := by
  rw [Method.after, each, bind_of_ok h]
  cases hTail : each f rest s' with
  | error e t => rw [after_of_error hTail, bind_of_error hTail]
  | ok as t =>
    rw [after_of_ok hTail, bind_of_ok hTail]
    rfl

theorem raised_each_cons_error {ι : Type u} {f : ι → Method ε σ α} {i : ι} {rest : List ι} {s s' : σ}
    {e : ε} (h : f i s = .error e s') : (each f (i :: rest)).raised s = some e :=
  raised_of_error (bind_of_error h)

theorem raised_each_cons_ok {ι : Type u} {f : ι → Method ε σ α} {i : ι} {rest : List ι} {s s' : σ}
    {a : α} (h : f i s = .ok a s') : (each f (i :: rest)).raised s = (each f rest).raised s' := by
  rw [Method.raised, each, bind_of_ok h]
  cases hTail : each f rest s' with
  | error e t => rw [raised_of_error hTail, bind_of_error hTail]
  | ok as t =>
    rw [raised_of_ok hTail, bind_of_ok hTail]
    rfl

/-- A loop keeps what each of its turns keeps, also when a turn raises. -/
theorem after_each_invariant {ι : Type u} {f : ι → Method ε σ α} (Inv : σ → Prop)
    {items : List ι} (hStep : ∀ i ∈ items, ∀ s, Inv s → Inv ((f i).after s)) {s : σ} (hStart : Inv s) :
    Inv ((each f items).after s) := by
  induction items generalizing s with
  | nil => exact hStart
  | cons i rest ih =>
    have hFirst := hStep i List.mem_cons_self s hStart
    have hRest := fun s => ih (fun j hj => hStep j (List.mem_cons_of_mem i hj)) (s := s)
    cases hRun : f i s with
    | error e t =>
      rw [after_of_error hRun] at hFirst
      rwa [after_each_cons_error hRun]
    | ok a t =>
      rw [after_of_ok hRun] at hFirst
      rw [after_each_cons_ok hRun]
      exact hRest t hFirst

end Method

/-! ## Runs -/

section Runs

variable {ε σ : Type u} {ο : Type v} (perform : ο → Method ε σ PUnit.{u + 1})

def runAll (s : σ) (ops : List ο) : σ :=
  ops.foldl (fun s op => (perform op).after s) s

/-- Every call of the run meets the condition in the state it finds. -/
def Follows (cond : σ → ο → Prop) : σ → List ο → Prop
  | _, [] => True
  | s, op :: rest => cond s op ∧ Follows cond ((perform op).after s) rest

variable {perform}

instance decidableFollows {cond : σ → ο → Prop} [∀ s op, Decidable (cond s op)] :
    ∀ s ops, Decidable (Follows perform cond s ops)
  | _, [] => .isTrue trivial
  | s, op :: rest =>
    have : Decidable (Follows perform cond ((perform op).after s) rest) := decidableFollows _ rest
    inferInstanceAs (Decidable (_ ∧ _))

theorem runAll_cons (s : σ) (op : ο) (rest : List ο) :
    runAll perform s (op :: rest) = runAll perform ((perform op).after s) rest := rfl

theorem runAll_append (s : σ) (xs ys : List ο) :
    runAll perform s (xs ++ ys) = runAll perform (runAll perform s xs) ys :=
  List.foldl_append ..

theorem runAll_concat (s : σ) (ops : List ο) (op : ο) :
    runAll perform s (ops ++ [op]) = (perform op).after (runAll perform s ops) :=
  runAll_append s ops [op]

theorem follows_append {cond : σ → ο → Prop} (s : σ) (xs ys : List ο) :
    Follows perform cond s (xs ++ ys) ↔
      Follows perform cond s xs ∧ Follows perform cond (runAll perform s xs) ys := by
  induction xs generalizing s with
  | nil => simp [Follows, runAll]
  | cons op rest ih =>
    rw [List.cons_append, Follows, ih, Follows, runAll_cons, and_assoc]

theorem Follows.both {cond cond' : σ → ο → Prop} {s : σ} {ops : List ο}
    (h : Follows perform cond s ops) (h' : Follows perform cond' s ops) :
    Follows perform (fun s op => cond s op ∧ cond' s op) s ops := by
  induction ops generalizing s with
  | nil => trivial
  | cons op rest ih => exact ⟨⟨h.1, h'.1⟩, ih h.2 h'.2⟩

theorem follows_true (s : σ) (ops : List ο) : Follows perform (fun _ _ => True) s ops := by
  induction ops generalizing s with
  | nil => trivial
  | cons op rest ih => exact ⟨trivial, ih _⟩

/-- The run rule: an invariant of the calls that meet the condition. -/
theorem follows_rule {cond : σ → ο → Prop} (Inv : σ → Prop)
    (hStep : ∀ s op, Inv s → cond s op → Inv ((perform op).after s)) {s : σ} {ops : List ο}
    (hStart : Inv s) (h : Follows perform cond s ops) : Inv (runAll perform s ops) := by
  induction ops generalizing s with
  | nil => exact hStart
  | cons op rest ih =>
    rw [runAll_cons]
    exact ih (hStep s op hStart h.1) h.2

end Runs

/-! ## What each call of a run returned -/

section Transcript

variable {ε σ α : Type u} {ο : Type v} (call : ο → Method ε σ α)

/-- The calls of a run with what each returned or raised, and the object after them. -/
def transcript (s : σ) : List ο → List (ο × Except ε α) × σ
  | [] => ([], s)
  | op :: rest =>
    match call op s with
    | .ok a s' => ((op, .ok a) :: (transcript s' rest).1, (transcript s' rest).2)
    | .error e s' => ((op, .error e) :: (transcript s' rest).1, (transcript s' rest).2)

variable {call}

/-- The transcript rule: an invariant of the calls made so far and the object. -/
theorem transcript_rule (Inv : List (ο × Except ε α) → σ → Prop)
    (hOk : ∀ log s op a s', Inv log s → call op s = .ok a s' → Inv (log ++ [(op, .ok a)]) s')
    (hError : ∀ log s op e s', Inv log s → call op s = .error e s' →
      Inv (log ++ [(op, .error e)]) s')
    {s : σ} (hStart : Inv [] s) (ops : List ο) :
    Inv (transcript call s ops).1 (transcript call s ops).2 := by
  suffices hFrom : ∀ log s, Inv log s →
      Inv (log ++ (transcript call s ops).1) (transcript call s ops).2 from hFrom [] s hStart
  induction ops with
  | nil =>
    intro log s h
    simpa [transcript] using h
  | cons op rest ih =>
    intro log s h
    cases hRun : call op s with
    | ok a s' =>
      have hNext := ih _ s' (hOk log s op a s' h hRun)
      simpa [transcript, hRun] using hNext
    | error e s' =>
      have hNext := ih _ s' (hError log s op e s' h hRun)
      simpa [transcript, hRun] using hNext

end Transcript

end Futur3.Prelude
