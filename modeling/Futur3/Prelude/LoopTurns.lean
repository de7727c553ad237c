import Futur3.Prelude.Method

/-! # The turns of a loop

What a loop has done so far does not depend on the items that it has not come
to. The turns it has taken are listed with the state after each; when one of
them raises, the loop ends with it.
-/

namespace Futur3.Prelude.Method

universe u

variable {ε σ α ι : Type u}

structure Turn (ι α σ : Type u) where
  item : ι
  value : α
  after : σ

structure Stop (ι ε σ : Type u) where
  item : ι
  failure : ε
  after : σ

/-- What a loop did: its turns, and the one that raised if one did. -/
structure Turns (ι ε σ α : Type u) where
  done : List (Turn ι α σ)
  stop : Option (Stop ι ε σ)

def turns (f : ι → Method ε σ α) : List ι → σ → Turns ι ε σ α
  | [], _ => ⟨[], none⟩
  | i :: rest, s =>
    match f i s with
    | .ok a s' => ⟨⟨i, a, s'⟩ :: (turns f rest s').done, (turns f rest s').stop⟩
    | .error e s' => ⟨[], some ⟨i, e, s'⟩⟩

def lastState (s : σ) (done : List (Turn ι α σ)) : σ := (done.getLast?.map Turn.after).getD s

theorem lastState_cons (s : σ) (t : Turn ι α σ) (done : List (Turn ι α σ)) :
    lastState s (t :: done) = lastState t.after done := by
  unfold lastState
  rw [List.getLast?_cons]
  cases done.getLast? <;> rfl

/-- A loop returns the values of its turns, or raises what its last turn raised. -/
theorem each_eq_turns (f : ι → Method ε σ α) (items : List ι) (s : σ) :
    each f items s = match (turns f items s).stop with
      | none => .ok ((turns f items s).done.map Turn.value) (lastState s (turns f items s).done)
      | some stop => .error stop.failure stop.after := by
  induction items generalizing s with
  | nil => rfl
  | cons i rest ih =>
    unfold each turns
    change EStateM.bind _ _ s = _
    unfold EStateM.bind
    cases hFirst : f i s with
    | error e s' => rfl
    | ok a s' =>
      change EStateM.bind _ _ s' = _
      unfold EStateM.bind
      rw [ih s']
      cases hStop : (turns f rest s').stop with
      | some stop => rfl
      | none =>
        simp only [lastState_cons, List.map_cons]
        rfl

theorem turns_append (f : ι → Method ε σ α) (xs ys : List ι) (s : σ) :
    turns f (xs ++ ys) s = match (turns f xs s).stop with
      | some stop => ⟨(turns f xs s).done, some stop⟩
      | none => ⟨(turns f xs s).done ++ (turns f ys (lastState s (turns f xs s).done)).done,
          (turns f ys (lastState s (turns f xs s).done)).stop⟩ := by
  induction xs generalizing s with
  | nil => rfl
  | cons i rest ih =>
    rw [List.cons_append, turns, turns]
    cases hFirst : f i s with
    | error e s' => rfl
    | ok a s' =>
      simp only [ih s', lastState_cons]
      cases hStop : (turns f rest s').stop with
      | some stop => rfl
      | none => rfl

theorem turns_congr {f g : ι → Method ε σ α} {items : List ι} (h : ∀ i ∈ items, f i = g i) (s : σ) :
    turns f items s = turns g items s := by
  induction items generalizing s with
  | nil => rfl
  | cons i rest ih =>
    have hRest := fun s => ih (fun j hj => h j (List.mem_cons_of_mem i hj)) s
    rw [turns, turns, h i List.mem_cons_self]
    cases g i s with
    | error e s' => rfl
    | ok a s' => simp only [hRest]

theorem item_mem_turns (f : ι → Method ε σ α) (items : List ι) (s : σ) :
    (∀ t ∈ (turns f items s).done, t.item ∈ items) ∧
      ∀ stop ∈ (turns f items s).stop, stop.item ∈ items := by
  induction items generalizing s with
  | nil => simp [turns]
  | cons i rest ih =>
    rw [turns]
    cases f i s with
    | error e s' =>
      constructor
      · intro t ht
        cases ht
      · rintro stop ⟨⟩
        exact List.mem_cons_self
    | ok a s' =>
      constructor
      · intro t ht
        rcases List.mem_cons.mp ht with rfl | ht
        · exact List.mem_cons_self
        · exact List.mem_cons_of_mem i ((ih s').1 t ht)
      · intro stop hStop
        exact List.mem_cons_of_mem i ((ih s').2 stop hStop)

/-! ## A part of the items -/

/-- The turns over the items that pass a test. -/
def Turns.upTo (test : ι → Bool) (r : Turns ι ε σ α) : Turns ι ε σ α :=
  ⟨r.done.filter fun t => test t.item, r.stop.filter fun stop => test stop.item⟩

theorem upTo_of_all {f : ι → Method ε σ α} {items : List ι} {test : ι → Bool}
    (h : ∀ i ∈ items, test i = true) (s : σ) : (turns f items s).upTo test = turns f items s := by
  obtain ⟨hDone, hStop⟩ := item_mem_turns f items s
  unfold Turns.upTo
  congr 1
  · exact List.filter_eq_self.mpr fun t ht => h t.item (hDone t ht)
  · cases hCase : (turns f items s).stop with
    | none => rfl
    | some stop => exact Option.filter_eq_some_iff.mpr ⟨rfl, h stop.item (hStop stop hCase)⟩

/-- The first part of a loop does what the loop over the first part does. -/
theorem upTo_append {f : ι → Method ε σ α} {xs ys : List ι} {test : ι → Bool}
    (hxs : ∀ i ∈ xs, test i = true) (hys : ∀ i ∈ ys, test i = false) (s : σ) :
    (turns f (xs ++ ys) s).upTo test = turns f xs s := by
  have hFirst : (turns f xs s).upTo test = turns f xs s := upTo_of_all hxs s
  rw [turns_append]
  cases hStop : (turns f xs s).stop with
  | some stop =>
    simp only
    rw [← hStop]
    exact hFirst
  | none =>
    have hLater := item_mem_turns f ys (lastState s (turns f xs s).done)
    generalize turns f ys (lastState s (turns f xs s).done) = later at hLater
    have hDone : (later.done.filter fun t => test t.item) = [] :=
      List.filter_eq_nil_iff.mpr fun t ht => by simp [hys t.item (hLater.1 t ht)]
    have hNone : (later.stop.filter fun stop => test stop.item) = none :=
      Option.filter_eq_none_iff.mpr fun stop hMem => by simp [hys stop.item (hLater.2 stop hMem)]
    have hSame := congrArg Turns.done hFirst
    unfold Turns.upTo at hSame ⊢
    simp only [List.filter_append, hDone, hNone, List.append_nil] at hSame ⊢
    rw [hSame, ← hStop]

end Futur3.Prelude.Method
