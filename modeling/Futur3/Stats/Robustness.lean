import Futur3.Stats.ScaleFree
import Futur3.Stats.TailMeans

/-! # What a Sharpe ratio owes to a few days and to costs

The ratio with the extreme returns capped does not see how far beyond the caps they were.
The share of the most extreme returns measures the concentration of the gains and losses,
and a cost of trading moves the tails by no more than itself.
-/

namespace Futur3.Stats

open Prelude Prelude.ExtremeItems Deviations

section Model

inductive RobustnessError (K : Type) where
  -- "trim_frac must be in [0, 0.5); got {trim_frac}"
  | trimFrac (trimFrac : K)
  -- "periods_per_year must be > 0; got {periods_per_year}"
  | periodsPerYear (periodsPerYear : K)
  -- "frac must be in (0, 1); got {frac}"
  | frac (frac : K)
  -- "returns/traded length mismatch: {len(returns)} != {len(traded)}"
  | length (returns traded : ℕ)
  -- "cost_per_trade must be >= 0; got {cost_per_trade}"
  | costPerTrade (costPerTrade : K)
  -- IndexError
  | index
deriving DecidableEq

/-- `min(max(x, lo), hi)`. -/
def capped {K : Type} [LinearOrder K] (lo hi x : K) : K := min (max x lo) hi

variable {K : Type} [Field K] [LinearOrder K]

def maxTrimFrac : K := 1 / (2 : ℕ)

/-- `_annualized_sharpe`, `None` where there is no deviation. -/
def annualizedSharpe (sqrt : K → K) (returns : List K) (periodsPerYear : K) : Option K :=
  if returns.length < minReturns then none
  else
    let sd := sampleStdev sqrt returns
    if sd = 0 then none else some (mean returns / sd * sqrt periodsPerYear)

def netReturns (returns : List K) (traded : List Bool) (costPerTrade : K) :
    Except (RobustnessError K) (List K) :=
  if returns.length ≠ traded.length then throw (.length returns.length traded.length)
  else if costPerTrade < 0 then throw (.costPerTrade costPerTrade)
  else pure (List.zipWith (fun r t => if t then r - costPerTrade else r) returns traded)

variable [FloorRing K]

def trimCount (trimFrac : K) (n : ℕ) : ℕ := ⌊trimFrac * n⌋.toNat

def winsorizedSharpe (sqrt : K → K) (returns : List K) (trimFrac periodsPerYear : K) :
    Except (RobustnessError K) (Option K) :=
  if ¬(0 ≤ trimFrac ∧ trimFrac < maxTrimFrac) then throw (.trimFrac trimFrac)
  else if periodsPerYear ≤ 0 then throw (.periodsPerYear periodsPerYear)
  else if returns.length < minReturns then pure none
  else
    let ordered := Selection.sortBy id returns
    let k := trimCount trimFrac ordered.length
    if k = 0 then pure (annualizedSharpe sqrt returns periodsPerYear)
    else
      match ordered[k]?, ordered[ordered.length - 1 - k]? with
      | some lo, some hi => pure (annualizedSharpe sqrt (returns.map (capped lo hi)) periodsPerYear)
      | _, _ => throw .index

def topCount (frac : K) (n : ℕ) : ℕ := max 1 ⌊frac * n⌋.toNat

def tailContribution (returns : List K) (frac : K) : Except (RobustnessError K) K :=
  if ¬(0 < frac ∧ frac < 1) then throw (.frac frac)
  else
    let total := (returns.map fun x => |x|).sum
    if total = 0 then pure 0
    else
      let k := topCount frac returns.length
      let top := ((returns.map fun x => |x|).insertionSort (· ≥ ·)).take k
      pure (top.sum / total)

end Model

/-! ## The capped ratio -/

section Capped

variable {K : Type} [LinearOrder K]

/-- What lies beyond a cap stays beyond it, and the rest stays as it is. -/
def Beyond (lo hi x y : K) : Prop := y = x ∨ x < lo ∧ y ≤ lo ∨ hi < x ∧ hi ≤ y

variable {lo hi x y : K} {returns moved : List K}

theorem capped_low (h : lo ≤ hi) (hx : x ≤ lo) : capped lo hi x = lo := by
  rw [capped, max_eq_right hx, min_eq_left h]

theorem capped_high (hx : hi ≤ x) : capped lo hi x = hi :=
  min_eq_right (hx.trans (le_max_left x lo))

theorem Beyond.capped_eq (hOrder : lo ≤ hi) (h : Beyond lo hi x y) : capped lo hi y = capped lo hi x := by
  obtain rfl | ⟨hx, hy⟩ | ⟨hx, hy⟩ := h
  · rfl
  · rw [capped_low hOrder hx.le, capped_low hOrder hy]
  · rw [capped_high hx.le, capped_high hy]

theorem beyond_capped (hOrder : lo ≤ hi) (x : K) : Beyond lo hi x (capped lo hi x) := by
  rcases lt_or_ge x lo with hLow | hLow
  · exact .inr (.inl ⟨hLow, (capped_low hOrder hLow.le).le⟩)
  · rcases lt_or_ge hi x with hHigh | hHigh
    · exact .inr (.inr ⟨hHigh, (capped_high hHigh.le).ge⟩)
    · exact .inl (by rw [capped, max_eq_left hLow, min_eq_left hHigh])

theorem map_capped_eq (hOrder : lo ≤ hi) (h : List.Forall₂ (Beyond lo hi) returns moved) :
    moved.map (capped lo hi) = returns.map (capped lo hi) := by
  induction h with
  | nil => rfl
  | cons hFirst _ ih => rw [List.map_cons, List.map_cons, hFirst.capped_eq hOrder, ih]

/-- The caps themselves stay where they are. -/
theorem caps_eq (hOrder : lo ≤ hi) (h : List.Forall₂ (Beyond lo hi) returns moved) {i j : ℕ}
    (hLow : (Selection.sortBy id returns)[i]? = some lo) (hHigh : (Selection.sortBy id returns)[j]? = some hi) :
    (Selection.sortBy id moved)[i]? = some lo ∧ (Selection.sortBy id moved)[j]? = some hi := by
  constructor
  · refine sorted_eq_of_kept h ?_ ?_ hLow
    · rintro x y (rfl | ⟨-, hy⟩ | ⟨hx, -⟩) hLe
      · exact hLe
      · exact hy
      · exact absurd (hLe.trans hOrder) hx.not_ge
    · rintro x y (rfl | ⟨hx, -⟩ | ⟨-, hy⟩) hLt
      · exact hLt
      · exact hx
      · exact absurd (hOrder.trans hy) hLt.not_ge
  · refine sorted_eq_of_kept h ?_ ?_ hHigh
    · rintro x y (rfl | ⟨-, hy⟩ | ⟨hx, -⟩) hLe
      · exact hLe
      · exact hy.trans hOrder
      · exact absurd hLe hx.not_ge
    · rintro x y (rfl | ⟨hx, -⟩ | ⟨-, hy⟩) hLt
      · exact hLt
      · exact hx.trans_le hOrder
      · exact absurd hy hLt.not_ge

theorem varies_capped (hOrder : lo ≤ hi) (hLow : lo ∈ returns) (hHigh : hi ∈ returns) :
    Varies (returns.map (capped lo hi)) ↔ lo ≠ hi := by
  have hMem {x : K} (hx : x ∈ returns) : capped lo hi x ∈ returns.map (capped lo hi) := List.mem_map_of_mem hx
  constructor
  · rintro ⟨x, hx, y, hy, hNe⟩ rfl
    obtain ⟨r, -, rfl⟩ := List.mem_map.mp hx
    obtain ⟨s, -, rfl⟩ := List.mem_map.mp hy
    have hOnly (z : K) : capped lo lo z = lo := (le_total z lo).elim (capped_low le_rfl) capped_high
    exact hNe (by rw [hOnly, hOnly])
  · exact fun hNe => ⟨_, hMem hLow, _, hMem hHigh, by rwa [capped_low hOrder le_rfl, capped_high le_rfl]⟩

end Capped

section Ratio

variable {K : Type} [Field K] [LinearOrder K] [IsStrictOrderedRing K] {math : StatsModule K} {returns : List K}

theorem capped_levered {c : K} (hc : 0 ≤ c) (lo hi x : K) :
    capped (c * lo) (c * hi) (c * x) = c * capped lo hi x := by
  rw [capped, capped, ← mul_max_of_nonneg _ _ hc, ← mul_min_of_nonneg _ _ hc]

theorem annualizedSharpe_of_varies (laws : math.Laws) (h : Varies returns) (periodsPerYear : K) :
    annualizedSharpe math.sqrt returns periodsPerYear =
      some (mean returns / sampleStdev math.sqrt returns * math.sqrt periodsPerYear) := by
  unfold annualizedSharpe
  dsimp only
  rw [if_neg (show ¬returns.length < minReturns from not_lt.mpr h.length),
    if_neg ((sampleStdev_pos_iff laws).mpr h).ne']

theorem annualizedSharpe_of_same (laws : math.Laws) (h : ¬Varies returns) (periodsPerYear : K) :
    annualizedSharpe math.sqrt returns periodsPerYear = none := by
  have hRoot : math.sqrt 0 = 0 := mul_self_eq_zero.mp (laws.sqrt.square 0 le_rfl)
  unfold annualizedSharpe
  dsimp only
  rw [sampleStdev, variance_of_same h, hRoot, if_pos rfl, ite_self]

theorem annualizedSharpe_eq_none_iff (laws : math.Laws) (periodsPerYear : K) :
    annualizedSharpe math.sqrt returns periodsPerYear = none ↔ ¬Varies returns := by
  by_cases h : Varies returns
  · simp [annualizedSharpe_of_varies laws h, h]
  · simp [annualizedSharpe_of_same laws h, h]

theorem annualizedSharpe_levered (laws : math.Laws) {c : K} (hc : 0 < c) (returns : List K) (periodsPerYear : K) :
    annualizedSharpe math.sqrt (levered c returns) periodsPerYear =
      annualizedSharpe math.sqrt returns periodsPerYear := by
  by_cases h : Varies returns
  · rw [annualizedSharpe_of_varies laws ((varies_levered hc.ne' returns).mpr h), annualizedSharpe_of_varies laws h,
      sampleStdev_levered laws hc.le h, levered, mean_scaled, mul_div_mul_left _ _ hc.ne']
  · rw [annualizedSharpe_of_same laws (mt (varies_levered hc.ne' returns).mp h), annualizedSharpe_of_same laws h]

theorem sorted_levered {c : K} (hc : 0 < c) (returns : List K) :
    Selection.sortBy id (levered c returns) = levered c (Selection.sortBy id returns) := by
  have hAffine : Selection.sortBy id (returns.map fun x => c * x + 0) = _ := sorted_affine hc returns
  simpa only [levered, add_zero] using hAffine

variable [FloorRing K] {trimFrac periodsPerYear : K}

/-- The caps of a list that is trimmed at all are two of its returns, in order. -/
theorem exists_caps (hTrim : trimFrac < 1 / 2) (hSome : 1 ≤ trimFrac * returns.length) : ∃ lo hi,
    (Selection.sortBy id returns)[trimCount trimFrac returns.length]? = some lo ∧
      (Selection.sortBy id returns)[returns.length - 1 - trimCount trimFrac returns.length]? = some hi ∧
      lo ≤ hi ∧ 1 ≤ trimCount trimFrac returns.length ∧ 2 ≤ returns.length := by
  have hFloor : 1 ≤ ⌊trimFrac * returns.length⌋ := Int.le_floor.mpr (by exact_mod_cast hSome)
  have hBelow : ⌊trimFrac * returns.length⌋ * 2 < returns.length := by
    have hLe := Int.floor_le (trimFrac * returns.length)
    have hCount : (0 : K) < returns.length := by
      rcases (Nat.cast_nonneg returns.length : (0 : K) ≤ returns.length).eq_or_lt with h | h
      · rw [← h, mul_zero] at hSome
        exact absurd hSome (not_le.mpr zero_lt_one)
      · exact h
    have hHalf := mul_lt_mul_of_pos_right hTrim hCount
    have hCast : ((⌊trimFrac * returns.length⌋ * 2 : ℤ) : K) < ((returns.length : ℤ) : K) := by
      push_cast
      linarith
    exact Int.cast_lt.mp hCast
  have hLow : trimCount trimFrac returns.length < (Selection.sortBy id returns).length := by
    rw [length_sorted, trimCount]
    omega
  have hHigh : returns.length - 1 - trimCount trimFrac returns.length < (Selection.sortBy id returns).length := by
    rw [length_sorted, trimCount]
    omega
  refine ⟨_, _, List.getElem?_eq_getElem hLow, List.getElem?_eq_getElem hHigh, ?_, ?_, by omega⟩
  · exact (Selection.pairwise_sortBy id returns).rel_get_of_le (by simp [trimCount]; omega)
  · rw [trimCount]
    omega

omit [IsStrictOrderedRing K] in
theorem winsorizedSharpe_eq {sqrt : K → K} (hTrim : 0 ≤ trimFrac ∧ trimFrac < 1 / 2) (hPositive : 0 < periodsPerYear)
    (hLength : 2 ≤ returns.length) (hCount : 1 ≤ trimCount trimFrac returns.length) {lo hi : K}
    (hLow : (Selection.sortBy id returns)[trimCount trimFrac returns.length]? = some lo)
    (hHigh : (Selection.sortBy id returns)[returns.length - 1 - trimCount trimFrac returns.length]? = some hi) :
    winsorizedSharpe sqrt returns trimFrac periodsPerYear =
      .ok (annualizedSharpe sqrt (returns.map (capped lo hi)) periodsPerYear) := by
  have hFrac : 0 ≤ trimFrac ∧ trimFrac < maxTrimFrac := by rwa [maxTrimFrac, half_eq]
  unfold winsorizedSharpe
  dsimp only
  rw [if_neg (not_not.mpr hFrac), if_neg (not_le.mpr hPositive),
    if_neg (show ¬returns.length < minReturns from not_lt.mpr hLength), length_sorted, if_neg (by omega), hLow, hHigh]
  rfl

end Ratio

/-- Once an observation is trimmed, returns that move beyond the caps without crossing them leave the ratio as
it is; so does capping them first, or another leverage. It is missing only when the caps meet. -/
theorem winsorizedSharpe_resistant {trimFrac periodsPerYear : ℝ} (hTrim : 0 ≤ trimFrac ∧ trimFrac < 1 / 2)
    (hPositive : 0 < periodsPerYear) {returns : List ℝ} (hSome : 1 ≤ trimFrac * returns.length) : ∃ lo hi sharpe,
    (Selection.sortBy id returns)[trimCount trimFrac returns.length]? = some lo ∧
      (Selection.sortBy id returns)[returns.length - 1 - trimCount trimFrac returns.length]? = some hi ∧
      winsorizedSharpe realStats.sqrt returns trimFrac periodsPerYear = .ok sharpe ∧ (sharpe = none ↔ lo = hi) ∧
      (∀ moved, List.Forall₂ (Beyond lo hi) returns moved →
        winsorizedSharpe realStats.sqrt moved trimFrac periodsPerYear = .ok sharpe) ∧
      winsorizedSharpe realStats.sqrt (returns.map (capped lo hi)) trimFrac periodsPerYear = .ok sharpe ∧
      ∀ c : ℝ, 0 < c → winsorizedSharpe realStats.sqrt (levered c returns) trimFrac periodsPerYear = .ok sharpe := by
  obtain ⟨lo, hi, hLow, hHigh, hOrder, hCount, hLength⟩ := exists_caps hTrim.2 hSome
  have hMoved : ∀ moved, List.Forall₂ (Beyond lo hi) returns moved →
      winsorizedSharpe realStats.sqrt moved trimFrac periodsPerYear =
        .ok (annualizedSharpe realStats.sqrt (returns.map (capped lo hi)) periodsPerYear) := by
    intro moved h
    obtain ⟨hLow', hHigh'⟩ := caps_eq hOrder h hLow hHigh
    rw [← map_capped_eq hOrder h]
    rw [h.length_eq] at hLow' hHigh' hCount hLength
    exact winsorizedSharpe_eq hTrim hPositive hLength hCount hLow' hHigh'
  refine ⟨lo, hi, _, hLow, hHigh, winsorizedSharpe_eq hTrim hPositive hLength hCount hLow hHigh, ?_, hMoved, ?_, ?_⟩
  · have hMem {x : ℝ} {i : ℕ} (h : (Selection.sortBy id returns)[i]? = some x) : x ∈ returns :=
      (Selection.sortBy_perm_self id returns).mem_iff.mp (List.mem_of_getElem? h)
    rw [annualizedSharpe_eq_none_iff realStats_laws, varies_capped hOrder (hMem hLow) (hMem hHigh), not_not]
  · apply hMoved
    rw [List.forall₂_map_right_iff, List.forall₂_same]
    exact fun x _ => beyond_capped hOrder x
  · intro c hc
    have hCap {x : ℝ} {i : ℕ} (h : (Selection.sortBy id returns)[i]? = some x) :
        (Selection.sortBy id (levered c returns))[i]? = some (c * x) := by
      rw [sorted_levered hc, levered, List.getElem?_map, h]
      rfl
    have hCapped : (levered c returns).map (capped (c * lo) (c * hi)) = levered c (returns.map (capped lo hi)) := by
      rw [levered, levered, List.map_map, List.map_map]
      exact List.map_congr_left fun x _ => capped_levered hc.le lo hi x
    rw [← length_levered c returns] at hLow hHigh hLength hCount
    rw [winsorizedSharpe_eq hTrim hPositive hLength hCount (hCap hLow) (hCap hHigh), hCapped,
      annualizedSharpe_levered realStats_laws hc]

theorem winsorizedSharpe_resistant_four : ∃ sharpe,
    winsorizedSharpe realStats.sqrt [-5, 1, 2, 4] (1 / 4) 252 = .ok sharpe ∧
      winsorizedSharpe realStats.sqrt (levered 3 [-5, 1, 2, 4]) (1 / 4) 252 = .ok sharpe := by
  obtain ⟨-, -, sharpe, -, -, hSharpe, -, -, -, hLevered⟩ := winsorizedSharpe_resistant
    (show 0 ≤ (1 / 4 : ℝ) ∧ (1 / 4 : ℝ) < 1 / 2 by norm_num) (show (0 : ℝ) < 252 by norm_num)
    (show 1 ≤ (1 / 4 : ℝ) * ([-5, 1, 2, 4] : List ℝ).length by norm_num)
  exact ⟨sharpe, hSharpe, hLevered 3 three_pos⟩

/-! ## The share of the most extreme returns -/

section Share

theorem take_sorted_down {K : Type} [LinearOrder K] (xs : List K) (count : ℕ) :
    (xs.insertionSort (· ≥ ·)).take count = (greatest count xs).reverse := by
  have hDown : xs.insertionSort (· ≥ ·) = (Selection.sortBy id xs).reverse := by
    have hPerm : (xs.insertionSort (· ≥ ·)).Perm (Selection.sortBy id xs).reverse :=
      (List.perm_insertionSort _ xs).trans ((Selection.sortBy_perm_self id xs).symm.trans (List.reverse_perm _).symm)
    refine hPerm.eq_of_pairwise' (List.pairwise_insertionSort _ xs) ?_
    exact List.pairwise_reverse.mpr (Selection.pairwise_sortBy id xs)
  rw [hDown, List.take_reverse, greatest, length_sorted]

variable {K : Type} [Field K] [LinearOrder K] {returns : List K} {count : ℕ}

def magnitudes (returns : List K) : List K := returns.map fun x => |x|

def share (count : ℕ) (returns : List K) : K :=
  (greatest count (magnitudes returns)).sum / (magnitudes returns).sum

theorem share_perm {others : List K} (h : (magnitudes others).Perm (magnitudes returns)) :
    share count others = share count returns := by
  rw [share, share, greatest_perm h, h.sum_eq]

variable [IsStrictOrderedRing K]

theorem magnitudes_nonneg {x : K} (hx : x ∈ magnitudes returns) : 0 ≤ x := by
  obtain ⟨r, -, rfl⟩ := List.mem_map.mp hx
  exact abs_nonneg r

theorem magnitudes_sum_eq_zero_iff : (magnitudes returns).sum = 0 ↔ ∀ r ∈ returns, r = 0 := by
  constructor
  · intro h r hr
    exact abs_eq_zero.mp (List.all_zero_of_le_zero_le_of_sum_eq_zero (fun _ => magnitudes_nonneg) h
      (List.mem_map_of_mem hr))
  · intro h
    refine List.sum_eq_zero fun x hx => ?_
    obtain ⟨r, hr, rfl⟩ := List.mem_map.mp hx
    rw [h r hr, abs_zero]

theorem magnitudes_sum_nonneg (returns : List K) : 0 ≤ (magnitudes returns).sum :=
  List.sum_nonneg fun _ => magnitudes_nonneg

theorem magnitudes_sum_pos (hSome : ∃ r ∈ returns, r ≠ 0) : 0 < (magnitudes returns).sum := by
  refine (magnitudes_sum_nonneg returns).lt_of_ne' fun hZero => ?_
  obtain ⟨r, hr, hNe⟩ := hSome
  exact hNe (magnitudes_sum_eq_zero_iff.mp hZero r hr)

/-- Neither the leverage nor the side of the position shows in a share. -/
theorem share_levered {c : K} (hc : c ≠ 0) (returns : List K) :
    share count (levered c returns) = share count returns := by
  have hMagnitudes : magnitudes (levered c returns) = levered |c| (magnitudes returns) := by
    simp only [magnitudes, levered, List.map_map, Function.comp_def, abs_mul]
  have hGreatest : greatest count (levered |c| (magnitudes returns)) =
      levered |c| (greatest count (magnitudes returns)) := by
    rw [greatest, sorted_levered (abs_pos.mpr hc), length_levered, levered, levered, ← List.map_drop, greatest]
  rw [share, hMagnitudes, hGreatest, levered, levered, List.sum_map_mul_left, List.sum_map_mul_left, List.map_id',
    List.map_id', mul_div_mul_left _ _ (abs_pos.mpr hc).ne', share]

theorem share_mono {more : ℕ} (h : count ≤ more) : share count returns ≤ share more returns := by
  have hSublist : (greatest count (magnitudes returns)).Sublist (greatest more (magnitudes returns)) :=
    List.drop_sublist_drop_left _ (by omega)
  refine div_le_div_of_nonneg_right (hSublist.sum_le_sum fun x hx => ?_) (magnitudes_sum_nonneg returns)
  exact magnitudes_nonneg ((greatest_subperm _ _).subset hx)

theorem share_bounds (hCount : count ≤ returns.length) (hSome : ∃ r ∈ returns, r ≠ 0) :
    (count : K) / returns.length ≤ share count returns ∧ share count returns ≤ 1 := by
  have hTotal := magnitudes_sum_pos hSome
  have hLength : (magnitudes returns).length = returns.length := List.length_map _
  constructor
  · have hCount' : (0 : K) < returns.length := by
      obtain ⟨r, hr, -⟩ := hSome
      exact Nat.cast_pos.mpr (List.length_pos_of_mem hr)
    have hLe := nsmul_sum_le_greatest (hLength ▸ hCount)
    rw [nsmul_eq_mul, nsmul_eq_mul, hLength] at hLe
    rw [share, div_le_div_iff₀ hCount' hTotal]
    linarith
  · have hSplit := sum_least_add_greatest count (magnitudes returns)
    have hRest : 0 ≤ (least ((magnitudes returns).length - count) (magnitudes returns)).sum :=
      List.sum_nonneg fun x hx => magnitudes_nonneg ((least_subperm _ _).subset hx)
    rw [share, div_le_one hTotal]
    linarith

/-- All the gains and losses come from so many returns just when no more of them differ from zero. -/
theorem share_eq_one_iff (hSome : ∃ r ∈ returns, r ≠ 0) :
    share count returns = 1 ↔ (returns.countP fun r => r ≠ 0) ≤ count := by
  have hSplit := sum_least_add_greatest count (magnitudes returns)
  have hNonneg {x : K} (hx : x ∈ least ((magnitudes returns).length - count) (magnitudes returns)) : 0 ≤ x :=
    magnitudes_nonneg ((least_subperm _ _).subset hx)
  have hZero : returns.length = (returns.countP fun r => r ≠ 0) + (magnitudes returns).countP fun x => x ≤ 0 := by
    rw [magnitudes, List.countP_map, List.length_eq_countP_add_countP]
    exact congrArg _ (List.countP_congr fun r _ => by simp)
  calc
    share count returns = 1 ↔ (least ((magnitudes returns).length - count) (magnitudes returns)).sum = 0 := by
      rw [share, div_eq_one_iff_eq (magnitudes_sum_pos hSome).ne', ← hSplit, eq_comm, add_eq_right]
    _ ↔ ∀ x ∈ least ((magnitudes returns).length - count) (magnitudes returns), x ≤ 0 := by
      constructor
      · exact fun h x hx => (List.all_zero_of_le_zero_le_of_sum_eq_zero (fun _ => hNonneg) h hx).le
      · exact fun h => List.sum_eq_zero fun x hx => le_antisymm (h x hx) (hNonneg hx)
    _ ↔ (returns.countP fun r => r ≠ 0) ≤ count := by
      rw [least_le_iff (Nat.sub_le _ _), magnitudes, List.length_map, ← magnitudes]
      omega

variable [FloorRing K] {frac : K}

omit [IsStrictOrderedRing K] in
theorem tailContribution_eq (hFrac : 0 < frac ∧ frac < 1) (returns : List K) :
    tailContribution returns frac = .ok (share (topCount frac returns.length) returns) := by
  unfold tailContribution
  dsimp only
  rw [if_neg (not_not.mpr hFrac), take_sorted_down, List.sum_reverse, ← magnitudes]
  split_ifs with hZero
  · rw [share, hZero, div_zero]
    rfl
  · rfl

theorem topCount_le (hFrac : frac < 1) {n : ℕ} (hPos : 1 ≤ n) : topCount frac n ≤ n := by
  have hLess : frac * n < ((n : ℤ) : K) := by
    rw [Int.cast_natCast]
    exact (mul_lt_mul_of_pos_right hFrac (Nat.cast_pos.mpr hPos)).trans_eq (one_mul _)
  have hFloor := Int.floor_lt.mpr hLess
  exact max_le hPos (by omega)

theorem topCount_mono {more : K} (h : frac ≤ more) (n : ℕ) : topCount frac n ≤ topCount more n :=
  max_le_max_left 1 (Int.toNat_le_toNat (Int.floor_le_floor (mul_le_mul_of_nonneg_right h n.cast_nonneg)))

end Share

/-- The contribution measures concentration: it lies between the share of the days and one, reaches one when
only the counted days moved at all, grows with the fraction, and sees neither the signs nor the order of the
returns, nor the leverage. -/
theorem tailContribution_concentration {frac : ℝ} (hFrac : 0 < frac ∧ frac < 1) (returns : List ℝ) : ∃ contribution,
    tailContribution returns frac = .ok contribution ∧
      ((∃ r ∈ returns, r ≠ 0) → (topCount frac returns.length : ℝ) / returns.length ≤ contribution ∧ contribution ≤ 1 ∧
        (contribution = 1 ↔ (returns.countP fun r => r ≠ 0) ≤ topCount frac returns.length)) ∧
      (∀ more, frac ≤ more → more < 1 → ∃ contribution', tailContribution returns more = .ok contribution' ∧
        contribution ≤ contribution') ∧
      (∀ c : ℝ, c ≠ 0 → tailContribution (levered c returns) frac = .ok contribution) ∧
      ∀ others : List ℝ, (others.map fun x => |x|).Perm (returns.map fun x => |x|) →
        tailContribution others frac = .ok contribution := by
  refine ⟨_, tailContribution_eq hFrac returns, ?_, ?_, ?_, ?_⟩
  · rintro ⟨r, hr, hNe⟩
    have hSome : ∃ r ∈ returns, r ≠ 0 := ⟨r, hr, hNe⟩
    obtain ⟨hLow, hHigh⟩ := share_bounds (topCount_le hFrac.2 (List.length_pos_of_mem hr)) hSome
    exact ⟨hLow, hHigh, share_eq_one_iff hSome⟩
  · intro more hLe hMore
    exact ⟨_, tailContribution_eq ⟨hFrac.1.trans_le hLe, hMore⟩ returns, share_mono (topCount_mono hLe _)⟩
  · intro c hc
    rw [tailContribution_eq hFrac, length_levered, share_levered hc]
  · intro others h
    have hLength : others.length = returns.length := by
      rw [← List.length_map (fun x => |x|), h.length_eq, List.length_map]
    rw [tailContribution_eq hFrac, hLength, share_perm h]

theorem tailContribution_concentration_three : ∃ contribution : ℝ,
    tailContribution [0, -3, 1] (1 / 2 : ℝ) = .ok contribution ∧ contribution ≤ 1 ∧
      tailContribution (levered (-2) [0, -3, 1]) (1 / 2 : ℝ) = .ok contribution := by
  obtain ⟨contribution, hEq, hBounds, -, hLevered, -⟩ :=
    tailContribution_concentration (show 0 < (1 / 2 : ℝ) ∧ (1 / 2 : ℝ) < 1 by norm_num) [0, -3, 1]
  have hSome : ∃ r ∈ ([0, -3, 1] : List ℝ), r ≠ 0 := ⟨1, by simp, one_ne_zero⟩
  exact ⟨contribution, hEq, (hBounds hSome).2.1, hLevered (-2) (by norm_num)⟩

/-! ## Costs -/

section Costs

variable {K : Type} [Field K] [LinearOrder K] {returns net : List K} {traded : List Bool} {cost : K}

theorem netReturns_ok_iff : netReturns returns traded cost = .ok net ↔
    returns.length = traded.length ∧ 0 ≤ cost ∧
      net = List.zipWith (fun r t => if t then r - cost else r) returns traded := by
  unfold netReturns
  rw [except_guard_ok_iff, except_guard_ok_iff, except_pure_ok_iff, not_not, not_lt]
  exact and_congr_right fun _ => and_congr_right fun _ => eq_comm

omit [LinearOrder K] in
theorem sum_net (hLength : returns.length = traded.length) :
    (List.zipWith (fun r t => if t then r - cost else r) returns traded).sum =
      returns.sum - traded.count true * cost := by
  induction returns generalizing traded with
  | nil =>
    cases traded with
    | nil => simp
    | cons t traded => simp at hLength
  | cons r returns ih =>
    cases traded with
    | nil => simp at hLength
    | cons t traded =>
      rw [List.zipWith_cons_cons, List.sum_cons, ih (Nat.succ.inj hLength), List.sum_cons]
      cases t with
      | true =>
        rw [if_pos rfl, List.count_cons_self]
        push_cast
        ring
      | false =>
        rw [if_neg Bool.false_ne_true, List.count_cons_of_ne Bool.false_ne_true]
        ring

variable [IsStrictOrderedRing K]

theorem net_bounds (hCost : 0 ≤ cost) (hLength : returns.length = traded.length) :
    List.Forall₂ (· ≤ ·) (List.zipWith (fun r t => if t then r - cost else r) returns traded) returns ∧
      List.Forall₂ (· ≤ ·) (returns.map fun r => 1 * r + -cost)
        (List.zipWith (fun r t => if t then r - cost else r) returns traded) := by
  induction returns generalizing traded with
  | nil => exact ⟨.nil, .nil⟩
  | cons r returns ih =>
    cases traded with
    | nil => simp at hLength
    | cons t traded =>
      obtain ⟨hAbove, hBelow⟩ := ih (Nat.succ.inj hLength)
      refine ⟨.cons ?_ hAbove, .cons ?_ hBelow⟩ <;> cases t <;> simp <;> linarith

end Costs

/-- A cost lowers the mean by its share of the days traded, and the mean of either tail by at most itself. -/
theorem netReturns_tails {returns net : List ℝ} {traded : List Bool} {cost : ℝ}
    (h : netReturns returns traded cost = .ok net) {tail : ℝ} (hTail : 0 < tail ∧ tail < 1 / 2)
    (hLength : 2 ≤ returns.length) :
    mean net = mean returns - (traded.count true : ℝ) / traded.length * cost ∧
      ∃ gross after, tailMeans returns tail = .ok (some gross) ∧ tailMeans net tail = .ok (some after) ∧
        (gross.leftMean - cost ≤ after.leftMean ∧ after.leftMean ≤ gross.leftMean) ∧
        gross.rightMean - cost ≤ after.rightMean ∧ after.rightMean ≤ gross.rightMean := by
  obtain ⟨hSame, hCost, rfl⟩ := netReturns_ok_iff.mp h
  obtain ⟨hAbove, hBelow⟩ := net_bounds hCost hSame
  have hPos := (tailCount_bounds returns.length hTail.2).1
  have hCount := tailCount_le hTail.2 hLength
  have hNet := hAbove.length_eq
  constructor
  · rw [mean, sum_net hSame, hNet, mean, ← hSame]
    ring
  · have hUp := TailMeans.ofCount_mono hAbove (hCount.trans hNet.ge)
    have hDown := TailMeans.ofCount_mono hBelow (hCount.trans (List.length_map _).ge)
    rw [TailMeans.ofCount_affine one_pos _ hPos hCount] at hDown
    refine ⟨_, _, tailMeans_eq hTail hLength, tailMeans_eq hTail (hNet ▸ hLength), ?_⟩
    rw [hNet]
    refine ⟨⟨?_, hUp.1⟩, ?_, hUp.2⟩
    · simpa [sub_eq_add_neg] using hDown.1
    · simpa [sub_eq_add_neg] using hDown.2

theorem netReturns_tails_two : ∃ net after, netReturns [2, -1] [true, false] (1 : ℝ) = .ok net ∧
    mean net = mean [2, -1] - (1 : ℕ) / (2 : ℕ) * 1 ∧ tailMeans net (1 / 4 : ℝ) = .ok (some after) := by
  have hNet : netReturns [2, -1] [true, false] (1 : ℝ) = .ok _ := netReturns_ok_iff.mpr ⟨rfl, zero_le_one, rfl⟩
  obtain ⟨hMean, -, after, -, hAfter, -⟩ :=
    netReturns_tails hNet (show 0 < (1 / 4 : ℝ) ∧ (1 / 4 : ℝ) < 1 / 2 by norm_num) (by simp)
  exact ⟨_, after, hNet, hMean, hAfter⟩

end Futur3.Stats
