import Futur3.Stats.Performance
import Futur3.Stats.SharpeSpec

/-! # The summary of the closed trades

Every trade is a win, a loss or a scratch, so the expectancy is the difference of the
gross win and the gross loss over their number, and its sign is that of every other
measure of an edge.
-/

namespace Futur3.Stats

open Prelude Deviations

section Trades

variable {K : Type} [Field K] [LinearOrder K] [IsStrictOrderedRing K]

def wins (tradePnls : List K) : List K := tradePnls.filter fun p => 0 < p

def losses (tradePnls : List K) : List K := tradePnls.filter fun p => p < 0

omit [IsStrictOrderedRing K] in
theorem length_wins_add_losses_le (tradePnls : List K) :
    (wins tradePnls).length + (losses tradePnls).length ≤ tradePnls.length := by
  induction tradePnls with
  | nil => rfl
  | cons p rest ih =>
    unfold wins losses at ih ⊢
    rcases lt_trichotomy p 0 with hNeg | rfl | hPos
    · rw [List.filter_cons_of_neg (by simpa using hNeg.le), List.filter_cons_of_pos (by simpa using hNeg)]
      simp only [List.length_cons]
      omega
    · rw [List.filter_cons_of_neg (by simp), List.filter_cons_of_neg (by simp), List.length_cons]
      omega
    · rw [List.filter_cons_of_pos (by simpa using hPos), List.filter_cons_of_neg (by simpa using hPos.le)]
      simp only [List.length_cons]
      omega

omit [IsStrictOrderedRing K] in
theorem sum_wins_add_losses (tradePnls : List K) : (wins tradePnls).sum + (losses tradePnls).sum = tradePnls.sum := by
  induction tradePnls with
  | nil => simp [wins, losses]
  | cons p rest ih =>
    unfold wins losses at ih ⊢
    rw [List.sum_cons, ← ih]
    rcases lt_trichotomy p 0 with hNeg | rfl | hPos
    · rw [List.filter_cons_of_neg (by simpa using hNeg.le), List.filter_cons_of_pos (by simpa using hNeg),
        List.sum_cons]
      ring
    · rw [List.filter_cons_of_neg (by simp), List.filter_cons_of_neg (by simp), zero_add]
    · rw [List.filter_cons_of_pos (by simpa using hPos), List.filter_cons_of_neg (by simpa using hPos.le),
        List.sum_cons]
      ring

theorem sum_wins_pos {tradePnls : List K} (h : 0 < (wins tradePnls).length) : 0 < (wins tradePnls).sum :=
  List.sum_pos _ (fun _ hp => of_decide_eq_true (List.mem_filter.mp hp).2) (List.ne_nil_of_length_pos h)

theorem sum_losses_neg {tradePnls : List K} (h : 0 < (losses tradePnls).length) : (losses tradePnls).sum < 0 := by
  have hSum : 0 < ((losses tradePnls).map fun p => -p).sum := by
    refine List.sum_pos _ ?_ fun hNil => (List.length_pos_iff.mp h) (List.map_eq_nil_iff.mp hNil)
    rw [List.forall_mem_map]
    exact fun p hp => neg_pos.mpr (of_decide_eq_true (List.mem_filter.mp hp).2)
  rwa [← List.sum_neg, neg_pos] at hSum

omit [IsStrictOrderedRing K] in
theorem sum_of_no_losses {tradePnls : List K} (h : (losses tradePnls).length = 0) : (losses tradePnls).sum = 0 := by
  rw [List.length_eq_zero_iff.mp h, List.sum_nil]

omit [IsStrictOrderedRing K] in
theorem sum_of_no_wins {tradePnls : List K} (h : (wins tradePnls).length = 0) : (wins tradePnls).sum = 0 := by
  rw [List.length_eq_zero_iff.mp h, List.sum_nil]

/-- A gross of a group is its mean times its share. -/
theorem share_mul_mean {n k : ℕ} (hn : 0 < n) (hk : 0 < k) (total : K) :
    (k : K) / n * (total / k) = total / n := by
  have hnK : (n : K) ≠ 0 := (Nat.cast_pos.mpr hn).ne'
  have hkK : (k : K) ≠ 0 := (Nat.cast_pos.mpr hk).ne'
  field_simp

/-- With means `g / a` and `l / b` over `a` and `b` of `n` trades, the break-even rate is exceeded when the gross
win is greater, and only then if all trades are wins and losses. -/
theorem breakeven {g l a b n : K} (hg : 0 < g) (hl : 0 < l) (ha : 0 < a) (hb : 0 < b) (hn : a + b ≤ n) :
    (1 / (1 + g / a / (l / b)) < a / n → l < g) ∧ (a + b = n → l < g → 1 / (1 + g / a / (l / b)) < a / n) := by
  have hPos : 0 < n := (add_pos ha hb).trans_le hn
  have hRate : 1 / (1 + g / a / (l / b)) = l * a / (l * a + g * b) := by
    field_simp
  have hDenom : 0 < l * a + g * b := add_pos (mul_pos hl ha) (mul_pos hg hb)
  rw [hRate, div_lt_div_iff₀ hDenom hPos]
  constructor
  · intro hAbove
    have hSpread : l * a * (a + b) ≤ l * a * n := mul_le_mul_of_nonneg_left hn (mul_pos hl ha).le
    have hProduct : a * b * l < a * b * g := by linarith
    exact (mul_lt_mul_iff_right₀ (mul_pos ha hb)).mp hProduct
  · rintro rfl hOrder
    have hProduct : a * b * l < a * b * g := (mul_lt_mul_iff_right₀ (mul_pos ha hb)).mpr hOrder
    linarith

variable (pow : K → K → K) {tradePnls : List K}

omit [IsStrictOrderedRing K] in
theorem mem_expectancy {e : K} : e ∈ (computeTradeMetrics pow tradePnls).expectancy ↔
    0 < tradePnls.length ∧ e = ((wins tradePnls).sum + (losses tradePnls).sum) / tradePnls.length := by
  rw [sum_wins_add_losses]
  change (if 0 < tradePnls.length then some (tradePnls.sum / (tradePnls.length : K)) else none) = some e ↔ _
  split_ifs with hSome
  · rw [Option.some.injEq, eq_comm, and_iff_right hSome]
  · simp [hSome]

theorem neg_losses_pos_iff : 0 < -(losses tradePnls).sum ↔ 0 < (losses tradePnls).length := by
  constructor
  · intro hPos
    by_contra hNone
    rw [sum_of_no_losses (Nat.eq_zero_of_not_pos hNone), neg_zero] at hPos
    exact lt_irrefl 0 hPos
  · exact fun hSome => neg_pos.mpr (sum_losses_neg hSome)

theorem mem_profitFactor {pf : K} : pf ∈ (computeTradeMetrics pow tradePnls).profitFactor ↔
    0 < (losses tradePnls).length ∧ pf = (wins tradePnls).sum / -(losses tradePnls).sum := by
  change (if 0 < -(losses tradePnls).sum then some ((wins tradePnls).sum / -(losses tradePnls).sum) else none) =
    some pf ↔ _
  rw [← neg_losses_pos_iff]
  split_ifs with hSome
  · rw [Option.some.injEq, eq_comm, and_iff_right hSome]
  · simp [hSome]

/-- A positive expectancy is a gross win above the gross loss. -/
theorem expectancy_pos_iff (h : 0 < tradePnls.length) :
    0 < ((wins tradePnls).sum + (losses tradePnls).sum) / tradePnls.length ↔
      -(losses tradePnls).sum < (wins tradePnls).sum := by
  rw [div_pos_iff_of_pos_right (Nat.cast_pos.mpr h), ← neg_lt_iff_pos_add]

omit [IsStrictOrderedRing K] in
theorem mem_payoffRatio {b : K} (h : b ∈ (computeTradeMetrics pow tradePnls).payoffRatio) :
    0 < (wins tradePnls).length ∧ 0 < (losses tradePnls).length ∧
      b = (wins tradePnls).sum / (wins tradePnls).length / (-(losses tradePnls).sum / (losses tradePnls).length) := by
  change ((if 0 < (wins tradePnls).length then some ((wins tradePnls).sum / ((wins tradePnls).length : K))
      else none).bind
    fun w => (if 0 < (losses tradePnls).length then some (-(losses tradePnls).sum / ((losses tradePnls).length : K))
      else none).map fun l => w / l) = some b at h
  split_ifs at h with hWins hLosses
  · exact ⟨hWins, hLosses, (Option.some.inj h).symm⟩
  · cases h
  · cases h
  · cases h

/-- The share of a group times its mean. -/
theorem share_mul_avg (k : ℕ) (total : K) (hZero : k = 0 → total = 0) (hTrades : 0 < tradePnls.length) :
    (k : K) / tradePnls.length * (if 0 < k then some (total / k) else none).getD 0 = total / tradePnls.length := by
  split_ifs with hSome
  · exact share_mul_mean hTrades hSome total
  · rw [Option.getD_none, mul_zero, hZero (Nat.eq_zero_of_not_pos hSome), zero_div]

structure TradeMetrics.Coherent (metrics : TradeMetrics K) : Prop where
  counts : metrics.nTrades = metrics.nWins + metrics.nLosses + metrics.nScratch
  scratch_nonneg : 0 ≤ metrics.nScratch
  expectancy : ∀ e ∈ metrics.expectancy, ∃ w ∈ metrics.winRate,
    e = w * metrics.avgWin.getD 0 - metrics.nLosses / metrics.nTrades * metrics.avgLoss.getD 0
  undefined : metrics.profitFactor = none ↔ metrics.nLosses = 0
  edge : ∀ pf ∈ metrics.profitFactor, ∃ e ∈ metrics.expectancy, 1 < pf ↔ 0 < e
  breakeven : ∀ b ∈ metrics.payoffRatio, ∃ e ∈ metrics.expectancy, ∃ w ∈ metrics.winRate,
    (1 / (1 + b) < w → 0 < e) ∧ (metrics.nScratch = 0 → 0 < e → 1 / (1 + b) < w)

/-- The counts add up, the expectancy is the win rate times the mean win less the loss rate times the mean loss, a
profit factor exists exactly when a trade lost, and it is above one exactly when the expectancy is positive. A win
rate above the break-even rate of the payoff ratio is enough for that, and needed when no trade was scratched. -/
theorem computeTradeMetrics_coherent (tradePnls : List K) : (computeTradeMetrics pow tradePnls).Coherent := by
  have hCounts := length_wins_add_losses_le tradePnls
  have hScratch : (computeTradeMetrics pow tradePnls).nScratch =
      tradePnls.length - (wins tradePnls).length - (losses tradePnls).length := rfl
  have hRate : 0 < tradePnls.length →
      ((wins tradePnls).length : K) / tradePnls.length ∈ (computeTradeMetrics pow tradePnls).winRate :=
    fun hTrades => if_pos hTrades
  constructor
  case counts =>
    change ((tradePnls.length : ℕ) : ℤ) = (wins tradePnls).length + (losses tradePnls).length + _
    omega
  case scratch_nonneg => omega
  case expectancy =>
    intro e he
    obtain ⟨hTrades, rfl⟩ := (mem_expectancy pow).mp he
    refine ⟨_, hRate hTrades, ?_⟩
    have hWins := share_mul_avg (wins tradePnls).length (wins tradePnls).sum sum_of_no_wins hTrades
    have hLosses := share_mul_avg (losses tradePnls).length (-(losses tradePnls).sum)
      (fun hNone => neg_eq_zero.mpr (sum_of_no_losses hNone)) hTrades
    change _ = _ * (if 0 < (wins tradePnls).length then some ((wins tradePnls).sum / ((wins tradePnls).length : K))
      else none).getD 0 - ((losses tradePnls).length : K) / (tradePnls.length : K) *
        (if 0 < (losses tradePnls).length then some (-(losses tradePnls).sum / ((losses tradePnls).length : K))
          else none).getD 0
    rw [hWins, hLosses]
    ring
  case undefined =>
    rw [Option.eq_none_iff_forall_not_mem]
    simp only [mem_profitFactor, not_and]
    change _ ↔ (losses tradePnls).length = 0
    constructor
    · exact fun hNone => Nat.eq_zero_of_not_pos fun hSome => hNone _ hSome rfl
    · exact fun hZero _ hSome => absurd hZero hSome.ne'
  case edge =>
    intro pf hpf
    obtain ⟨hSome, rfl⟩ := (mem_profitFactor pow).mp hpf
    have hTrades : 0 < tradePnls.length := by omega
    refine ⟨_, (mem_expectancy pow).mpr ⟨hTrades, rfl⟩, ?_⟩
    rw [expectancy_pos_iff hTrades, one_lt_div (neg_losses_pos_iff.mpr hSome)]
  case breakeven =>
    intro b hb
    obtain ⟨hWins, hLosses, rfl⟩ := mem_payoffRatio pow hb
    have hTrades : 0 < tradePnls.length := by omega
    have hBoth : ((wins tradePnls).length : K) + (losses tradePnls).length ≤ tradePnls.length := by
      exact_mod_cast hCounts
    obtain ⟨hEnough, hNeeded⟩ := Stats.breakeven (sum_wins_pos hWins) (neg_losses_pos_iff.mpr hLosses)
      (Nat.cast_pos.mpr hWins) (Nat.cast_pos.mpr hLosses) hBoth
    refine ⟨_, (mem_expectancy pow).mpr ⟨hTrades, rfl⟩, _, hRate hTrades, ?_, ?_⟩
    · exact fun hAbove => (expectancy_pos_iff hTrades).mpr (hEnough hAbove)
    · intro hNone hPos
      have hAll : (wins tradePnls).length + (losses tradePnls).length = tradePnls.length := by omega
      exact hNeeded (by exact_mod_cast hAll) ((expectancy_pos_iff hTrades).mp hPos)

/-- Two wins, a loss and a scratch. -/
theorem computeTradeMetrics_coherent_four : ∃ e ∈ (computeTradeMetrics (fun x _ => x) [(2 : ℚ), -3, 0, 4]).expectancy,
    1 < (2 : ℚ) ↔ 0 < e :=
  (computeTradeMetrics_coherent (fun x _ => x) [(2 : ℚ), -3, 0, 4]).edge 2 (by decide +kernel)

end Trades

end Futur3.Stats
