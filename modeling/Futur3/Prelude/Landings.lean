import Mathlib.Data.Nat.Count
import Mathlib.Tactic.Cases

/-! # Counting landings

Steps along the natural numbers that count only the places of a kind. Where the
steps lead is told by the number of such places below, so that shifts compose,
keep the order, and stay near their start where such places are dense.
-/

namespace Futur3.Prelude.Landings

open Nat

section Counting

variable {p q r : ℕ → Prop} [DecidablePred p] [DecidablePred q] [DecidablePred r]

theorem count_le_add {n : ℕ} (h : ∀ k < n, p k → q k ∨ r k) :
    count p n ≤ count q n + count r n := by
  induction n with
  | zero => simp
  | succ n ih =>
    have hBelow := ih fun k hk => h k (hk.trans n.lt_succ_self)
    have hAt := h n n.lt_succ_self
    rw [count_succ, count_succ, count_succ]
    split_ifs <;> first | omega | simp_all

theorem count_le_one {n : ℕ} (h : ∀ a < n, ∀ b < n, p a → p b → a = b) : count p n ≤ 1 := by
  induction n with
  | zero => simp
  | succ n ih =>
    rw [count_succ]
    split_ifs with hn
    · have hNone : count p n = 0 := by
        rw [count_iff_forall_not]
        intro m hm hpm
        exact hm.ne (h m (hm.trans n.lt_succ_self) n n.lt_succ_self hpm hn)
      omega
    · exact ih fun a ha b hb => h a (ha.trans n.lt_succ_self) b (hb.trans n.lt_succ_self)

/-- Places at least so far apart: a stretch of that length holds at most one. -/
theorem count_add_le_of_spaced {gap : ℕ} (h : ∀ a b, p a → p b → a < b → a + gap ≤ b) (n : ℕ) :
    count p (n + gap) ≤ count p n + 1 := by
  rw [count_add]
  refine Nat.add_le_add_left (count_le_one ?_) _
  intro a ha b hb hpa hpb
  rcases Nat.lt_trichotomy a b with hab | rfl | hab
  · have := h _ _ hpa hpb (Nat.add_lt_add_left hab n)
    omega
  · rfl
  · have := h _ _ hpb hpa (Nat.add_lt_add_left hab n)
    omega

/-- Denseness of one stretch repeats over several. -/
theorem count_add_mul_of_dense {lo hi gap least : ℕ}
    (h : ∀ n, lo ≤ n → n + gap ≤ hi → count p n + least ≤ count p (n + gap)) {n k : ℕ}
    (hLo : lo ≤ n) (hHi : n + gap * k ≤ hi) : count p n + least * k ≤ count p (n + gap * k) := by
  induction k with
  | zero => simp
  | succ k ih =>
    rw [Nat.mul_succ] at hHi ⊢
    rw [Nat.mul_succ, ← Nat.add_assoc n]
    have hBefore := ih (by omega)
    have hLast := h (n + gap * k) (by omega) (by omega)
    omega

end Counting

variable (p : ℕ → Prop) [DecidablePred p]

/-- The place that counting so many places down from a start leads to. -/
structure Before (n start stop : ℕ) : Prop where
  lands : p stop
  le : stop ≤ start
  count_eq : count p stop + n = count p start

/-- The place that counting so many places up from a start leads to. -/
structure After (n start stop : ℕ) : Prop where
  lands : p stop
  count_eq : count p stop + 1 = count p (start + 1) + n

variable {p} {m n a b c a' b' : ℕ}

theorem count_succ_of_pos (h : p a) : count p (a + 1) = count p a + 1 :=
  count_succ_eq_succ_count_iff.mpr h

theorem count_succ_of_neg (h : ¬p a) : count p (a + 1) = count p a :=
  count_succ_eq_count_iff.mpr h

theorem Before.refl (h : p a) : Before p 0 a a := ⟨h, le_rfl, rfl⟩

/-- One step down from the start passes over a place of another kind, or lands. -/
theorem Before.pass (h : Before p n a b) (ha : ¬p a) : Before p n (a + 1) b :=
  ⟨h.lands, h.le.trans a.le_succ, h.count_eq.trans (count_succ_of_neg ha).symm⟩

theorem Before.land (h : Before p n a b) (ha : p a) : Before p (n + 1) (a + 1) b :=
  ⟨h.lands, h.le.trans a.le_succ, by rw [count_succ_of_pos ha, ← h.count_eq, Nat.add_assoc]⟩

theorem Before.lt (h : Before p n a b) (hn : 0 < n) : b < a := by
  apply lt_of_count_lt_count (p := p)
  have := h.count_eq
  omega

theorem Before.trans (h : Before p m a b) (h' : Before p n b c) : Before p (m + n) a c :=
  ⟨h'.lands, h'.le.trans h.le, by rw [← h.count_eq, ← h'.count_eq, Nat.add_assoc, Nat.add_comm n]⟩

/-- Counting further leads further down. -/
theorem Before.le_of_le (h : Before p m a b) (h' : Before p n a c) (hmn : m ≤ n) : c ≤ b := by
  by_contra hLt
  have hCount := count_strict_mono h.lands (not_le.mp hLt)
  have := h.count_eq
  have := h'.count_eq
  omega

/-- The shift keeps the order of places of the kind. -/
theorem Before.lt_of_lt (ha : p a) (hLt : a < a') (h : Before p n a b) (h' : Before p n a' b') :
    b < b' := by
  apply lt_of_count_lt_count (p := p)
  have hStarts := count_strict_mono ha hLt
  have := h.count_eq
  have := h'.count_eq
  omega

/-- A stretch below the start that holds enough places holds the one that is reached. -/
theorem Before.bound (h : Before p n a b) (lo : ℕ) (hEnough : count p lo + n ≤ count p a) :
    lo ≤ b := by
  by_contra hLt
  have hCount := count_strict_mono h.lands (not_le.mp hLt)
  have := h.count_eq
  omega

theorem After.here (h : p (a + 1)) : After p 1 a (a + 1) := ⟨h, rfl⟩

/-- One step up from the start passes over a place of another kind, or lands. -/
theorem After.pass (h : After p n (a + 1) b) (ha : ¬p (a + 1)) : After p n a b :=
  ⟨h.lands, h.count_eq.trans (by rw [count_succ_of_neg ha])⟩

theorem After.land (h : After p n (a + 1) b) (ha : p (a + 1)) : After p (n + 1) a b :=
  ⟨h.lands, h.count_eq.trans (by rw [count_succ_of_pos ha]; omega)⟩

/-- A stretch above the start that holds enough places holds the one that is reached. -/
theorem After.bound (h : After p n a b) (hi : ℕ) (hEnough : count p (a + 1) + n ≤ count p hi) :
    b < hi := by
  by_contra hLe
  have hMono := count_monotone p (not_lt.mp hLe)
  have := h.count_eq
  omega

theorem After.lt (h : After p n a b) (hn : 0 < n) : a < b := by
  by_contra hLe
  have hMono := count_monotone p (show b + 1 ≤ a + 1 by omega)
  rw [count_succ_of_pos h.lands] at hMono
  have := h.count_eq
  omega

theorem After.count_eq_of_pos (h : After p n a b) (ha : p a) : count p b = count p a + n := by
  have hUp := h.count_eq
  rw [count_succ_of_pos ha] at hUp
  omega

/-- From a place of the kind, no places up lead nowhere else. -/
theorem After.zero_iff (ha : p a) : After p 0 a b ↔ b = a := by
  constructor
  · intro h
    have hCount := h.count_eq
    rw [count_succ_of_pos ha] at hCount
    exact count_injective h.lands ha (by omega)
  · rintro rfl
    exact ⟨ha, by rw [count_succ_of_pos ha]⟩

theorem After.pass_iff (ha : ¬p (a + 1)) : After p n a b ↔ After p n (a + 1) b := by
  refine ⟨fun h => ⟨h.lands, ?_⟩, fun h => h.pass ha⟩
  rw [h.count_eq, count_succ_of_neg ha]

theorem After.land_iff (ha : p (a + 1)) : After p (n + 1) a b ↔ After p n (a + 1) b := by
  refine ⟨fun h => ⟨h.lands, ?_⟩, fun h => h.land ha⟩
  rw [h.count_eq, count_succ_of_pos ha]
  omega

theorem After.unique (h : After p n a b) (h' : After p n a c) : b = c :=
  count_injective h.lands h'.lands (by have := h.count_eq; have := h'.count_eq; omega)

theorem After.trans (h : After p m a b) (h' : After p n b c) : After p (m + n) a c := by
  refine ⟨h'.lands, ?_⟩
  rw [h'.count_eq, count_succ_of_pos h.lands, h.count_eq, Nat.add_assoc]

end Futur3.Prelude.Landings
