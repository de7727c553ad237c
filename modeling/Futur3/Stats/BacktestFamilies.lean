import Futur3.Prelude.SideBySide
import Futur3.Stats.EquityCurves

/-! # From a family of backtests to a decision

The returns of a curve are those of an account that stays at zero once it is blown, and
the summary sees the same ones. A family of curves of one length is always decided, and
the decision does not see the capital that each strategy started with.
-/

namespace Futur3.Stats

open Prelude Execution Deviations

/-! ## Returns -/

section Returns

variable {K : Type} [Field K] [LinearOrder K] {equityCurve returns : List K}

/-- The curve of the account: from the first point that is not positive on it is zero. -/
def settled : List K → List K
  | [] => []
  | x :: rest => if x ≤ 0 then List.replicate (rest.length + 1) 0 else x :: settled rest

def compounded (first : K) (returns : List K) : List K := returns.scanl (fun equity r => equity * (1 + r)) first

theorem returnsLoop_ruined (prev : K) (rest : List K) : returnsLoop true prev rest = List.replicate rest.length 0 := by
  induction rest generalizing prev with
  | nil => rfl
  | cons cur rest ih => rw [returnsLoop, ih, List.length_cons, List.replicate_succ]

theorem length_returnsLoop (ruined : Bool) (prev : K) (rest : List K) :
    (returnsLoop ruined prev rest).length = rest.length := by
  induction rest generalizing ruined prev with
  | nil => cases ruined <;> rfl
  | cons cur rest ih =>
    cases ruined with
    | true => rw [returnsLoop, List.length_cons, ih, List.length_cons]
    | false =>
      rw [returnsLoop]
      split_ifs <;> rw [List.length_cons, ih, List.length_cons]

omit [LinearOrder K] in
theorem compounded_zero (n : ℕ) : compounded (0 : K) (List.replicate n 0) = List.replicate (n + 1) 0 := by
  induction n with
  | zero => rfl
  | succ n ih =>
    rw [List.replicate_succ, compounded, List.scanl_cons, zero_mul]
    exact congrArg (List.cons 0) ih

theorem compounded_returnsLoop {prev : K} (hPrev : prev ≠ 0) (rest : List K) :
    compounded prev (returnsLoop false prev rest) = prev :: settled rest := by
  induction rest generalizing prev with
  | nil => rfl
  | cons cur rest ih =>
    rw [returnsLoop, settled]
    split_ifs with hCur
    · rw [compounded, List.scanl_cons, add_neg_cancel, mul_zero, returnsLoop_ruined]
      exact congrArg (List.cons prev) (compounded_zero rest.length)
    · have hNext : cur ≠ 0 := (not_le.mp hCur).ne'
      have hStep : prev * (1 + (cur / prev - 1)) = cur := by
        rw [add_sub_cancel, mul_div_cancel₀ _ hPrev]
      rw [compounded, List.scanl_cons, hStep]
      exact congrArg (List.cons prev) (ih hNext)

theorem returnsLoop_of_pos {prev : K} {rest : List K} (h : ∀ x ∈ rest, 0 < x) :
    returnsLoop false prev rest = periodReturns (prev :: rest) := by
  induction rest generalizing prev with
  | nil => rfl
  | cons cur rest ih =>
    obtain ⟨hCur, hRest⟩ := List.forall_mem_cons.mp h
    rw [returnsLoop, if_neg (not_le.mpr hCur), ih hRest]
    rfl

theorem equityCurveToReturns_ok_iff : equityCurveToReturns equityCurve = .ok returns ↔
    minEquityPoints ≤ equityCurve.length ∧ 0 < equityCurve.headD 0 ∧
      returns = returnsLoop false (equityCurve.headD 0) equityCurve.tail := by
  unfold equityCurveToReturns
  dsimp only
  rw [except_guard_ok_iff, except_guard_ok_iff, except_pure_ok_iff, not_lt, not_le]
  exact and_congr_right fun _ => and_congr_right fun _ => eq_comm

variable [IsStrictOrderedRing K]

theorem returnsLoop_bounds {prev : K} (hPrev : 0 < prev) (rest : List K) :
    (∀ r ∈ returnsLoop false prev rest, -1 ≤ r) ∧ (-1 ∈ returnsLoop false prev rest ↔ ∃ x ∈ rest, x ≤ 0) := by
  induction rest generalizing prev with
  | nil => simp [returnsLoop]
  | cons cur rest ih =>
    rw [returnsLoop]
    split_ifs with hCur
    · rw [returnsLoop_ruined]
      refine ⟨List.forall_mem_cons.mpr ⟨le_rfl, fun r hr => ?_⟩,
        iff_of_true List.mem_cons_self ⟨cur, List.mem_cons_self, hCur⟩⟩
      rw [List.eq_of_mem_replicate hr]
      exact neg_one_lt_zero.le
    · have hNext := not_le.mp hCur
      have hAbove : -1 < cur / prev - 1 := by
        have hRatio := div_pos hNext hPrev
        linarith
      obtain ⟨hBound, hRuin⟩ := ih hNext
      refine ⟨List.forall_mem_cons.mpr ⟨hAbove.le, hBound⟩, ?_⟩
      rw [List.mem_cons, or_iff_right hAbove.ne, hRuin, List.exists_mem_cons_iff, or_iff_right hCur]

/-- The returns of a curve compound to it, with zeros from the first point that is not positive; a return of
minus one says that there is one. On any other curve the summary has the same returns and the same ratio. -/
theorem equityCurveToReturns_compounds (h : equityCurveToReturns equityCurve = .ok returns) :
    returns.length + 1 = equityCurve.length ∧ compounded (equityCurve.headD 0) returns = settled equityCurve ∧
      (∀ r ∈ returns, -1 ≤ r) ∧ (-1 ∈ returns ↔ ∃ x ∈ equityCurve, x ≤ 0) ∧
      ∀ (math : StatsModule K) (periodsPerYear : K) metrics,
        computeMetrics math equityCurve periodsPerYear 0 = .ok metrics →
          metrics.nPeriods = returns.length ∧
            trialSharpe math.sqrt returns periodsPerYear = .ok (metrics.sharpe.getD 0) := by
  obtain ⟨hCount, hFirst, rfl⟩ := equityCurveToReturns_ok_iff.mp h
  obtain ⟨first, rest, rfl⟩ := List.exists_cons_of_ne_nil (List.ne_nil_of_length_pos (zero_lt_two.trans_le hCount))
  rw [List.headD_cons] at hFirst
  rw [List.headD_cons, List.tail_cons]
  obtain ⟨hBound, hRuin⟩ := returnsLoop_bounds hFirst rest
  refine ⟨by rw [length_returnsLoop, List.length_cons], ?_, hBound, ?_, fun math periodsPerYear metrics hMetrics => ?_⟩
  · rw [compounded_returnsLoop hFirst.ne', settled, if_neg (not_le.mpr hFirst)]
  · rw [hRuin, List.exists_mem_cons_iff, or_iff_right (not_le.mpr hFirst)]
  · unfold computeMetrics at hMetrics
    dsimp only at hMetrics
    rw [except_guard_ok_iff, except_guard_ok_iff, except_guard_ok_iff, except_pure_ok_iff] at hMetrics
    obtain ⟨hPositive, -, hEquity, rfl⟩ := hMetrics
    have hPos : ∀ x ∈ rest, 0 < x := by
      simp only [List.any_eq_true, not_exists, not_and, decide_eq_true_eq, not_le] at hEquity
      exact fun x hx => hEquity x (List.mem_cons_of_mem _ hx)
    rw [returnsLoop_of_pos hPos]
    refine ⟨rfl, ?_⟩
    unfold trialSharpe
    dsimp only
    by_cases hFew : (periodReturns (first :: rest)).length < 2
    · rw [if_pos hFew, if_pos (show (periodReturns (first :: rest)).length < minReturnsForStdev from hFew)]
      rfl
    · rw [if_neg hFew, if_neg (show ¬(periodReturns (first :: rest)).length < minReturnsForStdev from hFew)]
      by_cases hFlat :
        ((periodReturns (first :: rest)).all fun r => isClose r (mean (periodReturns (first :: rest)))) = true
      · rw [if_pos hFlat, if_pos hFlat]
        rfl
      · rw [if_neg hFlat, if_neg hFlat, if_neg (not_lt.mpr (not_le.mp hPositive).le), zero_div, sub_zero]
        rfl

/-- A blown account. -/
theorem equityCurveToReturns_compounds_blown :
    equityCurveToReturns [(2 : ℚ), 3, -1, 4] = .ok [1 / 2, -1, 0] ∧
      compounded 2 [(1 : ℚ) / 2, -1, 0] = settled [2, 3, -1, 4] := by
  have hOk : equityCurveToReturns [(2 : ℚ), 3, -1, 4] = .ok [1 / 2, -1, 0] := by decide +kernel
  exact ⟨hOk, (equityCurveToReturns_compounds hOk).2.1⟩

end Returns

/-! ## Capital -/

section Capital

variable {K : Type} [Field K] [LinearOrder K] [IsStrictOrderedRing K] {c : K}

theorem returnsLoop_levered (hc : 0 < c) (ruined : Bool) (prev : K) (rest : List K) :
    returnsLoop ruined (c * prev) (levered c rest) = returnsLoop ruined prev rest := by
  induction rest generalizing ruined prev with
  | nil => cases ruined <;> rfl
  | cons cur rest ih =>
    have hSign : c * cur ≤ 0 ↔ cur ≤ 0 := by
      rw [← not_lt, ← not_lt, mul_pos_iff_of_pos_left hc]
    change returnsLoop ruined (c * prev) (c * cur :: levered c rest) = _
    cases ruined with
    | true => rw [returnsLoop, returnsLoop, ih]
    | false =>
      rw [returnsLoop, returnsLoop, ih, ih, mul_div_mul_left _ _ hc.ne']
      exact if_congr hSign rfl rfl

theorem equityCurveToReturns_levered (hc : 0 < c) (equityCurve : List K) :
    equityCurveToReturns (levered c equityCurve) = equityCurveToReturns equityCurve := by
  have hHead : (levered c equityCurve).headD 0 = c * equityCurve.headD 0 := by
    cases equityCurve <;> simp [levered]
  have hTail : (levered c equityCurve).tail = levered c equityCurve.tail := (List.map_tail).symm
  have hSign : c * equityCurve.headD 0 ≤ 0 ↔ equityCurve.headD 0 ≤ 0 := by
    rw [← not_lt, ← not_lt, mul_pos_iff_of_pos_left hc]
  unfold equityCurveToReturns
  simp only [length_levered, hHead, hTail, hSign, returnsLoop_levered hc]

def Recapitalized (curve curve' : List K) : Prop := ∃ c : K, 0 < c ∧ curve' = curve.map fun x => c * x

theorem Recapitalized.returns {curve curve' : List K} (h : Recapitalized curve curve') :
    equityCurveToReturns curve' = equityCurveToReturns curve := by
  obtain ⟨c, hc, rfl⟩ := h
  exact equityCurveToReturns_levered hc curve

variable [FloorRing K] {γ : Type}

/-- The decision does not see the capital of any strategy of the family, nor that of the benchmark. -/
theorem evaluateBacktests_recapitalized (math : StatsModule K) (gen : Generator γ)
    {equityCurves equityCurves' : List (List K)} (hCurves : List.Forall₂ Recapitalized equityCurves equityCurves')
    {benchCurve benchCurve' : Option (List K)} (hBench : Option.Rel Recapitalized benchCurve benchCurve')
    (selectedIndex : ℤ) (periodsPerYear : K) (superiorityMethod : SuperiorityMethod) (nResamples : ℕ)
    (seed : Option ℤ) :
    evaluateBacktests math gen equityCurves' selectedIndex periodsPerYear benchCurve' superiorityMethod nResamples
        seed =
      evaluateBacktests math gen equityCurves selectedIndex periodsPerYear benchCurve superiorityMethod nResamples
        seed := by
  have hCount := hCurves.length_eq
  have hLengths : equityCurves.map List.length = equityCurves'.map List.length := by
    refine map_eq_of_forall₂ hCurves ?_
    rintro curve _ ⟨c, -, rfl⟩
    rw [List.length_map]
  have hReturns : equityCurves.mapM equityCurveToReturns = equityCurves'.mapM equityCurveToReturns := by
    clear hCount hLengths
    induction hCurves with
    | nil => rfl
    | cons hFirst _ ih => rw [List.mapM_cons, List.mapM_cons, hFirst.returns, ih]
  have hBenchReturns : benchCurve.mapM equityCurveToReturns = benchCurve'.mapM equityCurveToReturns := by
    cases hBench with
    | none => rfl
    | some hSame =>
      rw [Option.mapM_some, Option.mapM_some, hSame.returns]
  have hNil : equityCurves = [] ↔ equityCurves' = [] := by
    rw [← List.length_eq_zero_iff, ← List.length_eq_zero_iff, hCount]
  unfold evaluateBacktests
  simp only [hNil, hCount, hLengths, hReturns, hBenchReturns]

/-- A curve in another currency. -/
theorem evaluateBacktests_recapitalized_pair :
    evaluateBacktests realStats counting [[1, 2, 3], [20, 10, 30]] 0 252 none .spa 1000 (some 7) =
      evaluateBacktests realStats counting [[1, 2, 3], [2, 1, 3]] 0 252 none .spa 1000 (some 7) :=
  evaluateBacktests_recapitalized realStats counting
    (.cons ⟨1, one_pos, by simp⟩ (.cons ⟨10, by norm_num, by norm_num⟩ .nil)) .none 0 252 .spa 1000 (some 7)

end Capital

/-! ## Success -/

section Success

variable {K : Type} [Field K] [LinearOrder K] [IsStrictOrderedRing K]

structure Comparable (equityCurves : List (List K)) (benchCurve : Option (List K)) (points : ℕ) : Prop where
  curves : ∀ curve ∈ equityCurves, curve.length = points ∧ 0 < curve.headD 0
  bench : ∀ curve ∈ benchCurve, curve.length = points ∧ 0 < curve.headD 0

omit [IsStrictOrderedRing K] in
theorem exists_returns {curve : List K} {points : ℕ} (hPoints : minEquityPoints ≤ points)
    (h : curve.length = points ∧ 0 < curve.headD 0) :
    ∃ returns, equityCurveToReturns curve = .ok returns ∧ returns.length + 1 = points := by
  refine ⟨_, equityCurveToReturns_ok_iff.mpr ⟨h.1 ▸ hPoints, h.2, rfl⟩, ?_⟩
  rw [length_returnsLoop, List.length_tail, h.1]
  exact Nat.sub_add_cancel (one_le_two.trans hPoints)

omit [IsStrictOrderedRing K] in
theorem length_of_returns {curve returns : List K} (h : equityCurveToReturns curve = .ok returns) :
    curve.length = returns.length + 1 ∧ 0 < curve.headD 0 := by
  obtain ⟨hCount, hFirst, rfl⟩ := equityCurveToReturns_ok_iff.mp h
  rw [length_returnsLoop, List.length_tail, Nat.sub_add_cancel (one_le_two.trans hCount)]
  exact ⟨rfl, hFirst⟩

omit [IsStrictOrderedRing K] in
theorem trialSharpe_ok (sqrt : K → K) (returns : List K) {periodsPerYear : K} (h : 0 ≤ periodsPerYear) :
    ∃ sharpe, trialSharpe sqrt returns periodsPerYear = .ok sharpe := by
  unfold trialSharpe
  dsimp only
  split_ifs with hFew hFlat hNeg
  · exact ⟨_, rfl⟩
  · exact ⟨_, rfl⟩
  · exact absurd h (not_le.mpr hNeg)
  · exact ⟨_, rfl⟩

variable [FloorRing K] {γ : Type} {math : StatsModule K} {gen : Generator γ} {equityCurves : List (List K)}
  {selectedIndex : ℤ} {periodsPerYear : K} {benchCurve : Option (List K)} {superiorityMethod : SuperiorityMethod}
  {nResamples : ℕ} {seed : Option ℤ}

theorem comparable_of_decided (laws : math.Laws) {decision : PromotionDecision K}
    (h : evaluateBacktests math gen equityCurves selectedIndex periodsPerYear benchCurve superiorityMethod nResamples
      seed = .ok decision) :
    0 < periodsPerYear ∧ 1000 ≤ nResamples ∧ (0 ≤ selectedIndex ∧ selectedIndex < equityCurves.length) ∧
      ∃ points, 3 ≤ points ∧ Comparable equityCurves benchCurve points := by
  unfold evaluateBacktests at h
  rw [except_guard_ok_iff, except_guard_ok_iff, except_guard_ok_iff, not_not] at h
  obtain ⟨-, hSelected, -, h⟩ := h
  obtain ⟨familyReturns, hFamily, h⟩ := except_bind_ok_iff.mp h
  obtain ⟨srTrials, -, h⟩ := except_bind_ok_iff.mp h
  obtain ⟨benchReturns, hBench, h⟩ := except_bind_ok_iff.mp h
  obtain ⟨hPositive, hResamples, -, n, hRows⟩ :=
    (evaluatePromotion_ok math gen superiorityMethod seed laws _ _ _).mp ⟨decision, mapError_ok_iff.mp h⟩
  refine ⟨hPositive, hResamples, hSelected, n + 1, Nat.succ_le_succ hRows.observed, ?_, ?_⟩
  · intro curve hCurve
    have hMap := except_mapM_ok_iff.mp hFamily
    obtain ⟨returns, hReturns, hOk⟩ := List.mem_map.mp (hMap ▸ List.mem_map_of_mem hCurve)
    have hLength := length_of_returns hOk.symm
    rwa [hRows.rows returns hReturns] at hLength
  · rintro curve ⟨rfl⟩
    rw [Option.mapM_some] at hBench
    obtain ⟨returns, hOk, rfl⟩ := except_map_ok hBench
    have hLength := length_of_returns hOk
    rwa [hRows.benchRow returns rfl] at hLength

theorem decided_of_comparable (laws : math.Laws) (hPositive : 0 < periodsPerYear) (hResamples : 1000 ≤ nResamples)
    (hSelected : 0 ≤ selectedIndex ∧ selectedIndex < equityCurves.length) {points : ℕ} (hPoints : 3 ≤ points)
    (h : Comparable equityCurves benchCurve points) :
    ∃ decision, evaluateBacktests math gen equityCurves selectedIndex periodsPerYear benchCurve superiorityMethod
      nResamples seed = .ok decision := by
  have hEnough : minEquityPoints ≤ points := (Nat.le_succ 2).trans hPoints
  have hNil : equityCurves ≠ [] := by
    rintro rfl
    exact absurd (hSelected.1.trans_lt hSelected.2) (lt_irrefl _)
  have hLengths : (equityCurves.map List.length).dedup.length = 1 := by
    have hSame : equityCurves.map List.length = List.replicate equityCurves.length points :=
      List.eq_replicate_iff.mpr
        ⟨List.length_map _, List.forall_mem_map.mpr fun curve hCurve => (h.curves curve hCurve).1⟩
    rw [hSame, List.replicate_dedup (List.length_pos_of_ne_nil hNil).ne']
    rfl
  obtain ⟨familyReturns, hFamily, hPairs⟩ := except_mapM_forall₂ fun curve hCurve =>
    exists_returns hEnough (h.curves curve hCurve)
  obtain ⟨srTrials, hTrials⟩ := except_mapM_returns fun (r : List K) (_ : r ∈ familyReturns) =>
    trialSharpe_ok math.sqrt r hPositive.le
  have hBench : ∃ benchReturns, benchCurve.mapM equityCurveToReturns = .ok benchReturns ∧
      ∀ b ∈ benchReturns, b.length + 1 = points := by
    cases benchCurve with
    | none => exact ⟨none, rfl, by simp⟩
    | some curve =>
      obtain ⟨returns, hOk, hLength⟩ := exists_returns hEnough (h.bench curve rfl)
      refine ⟨some returns, ?_, by simpa using hLength⟩
      rw [Option.mapM_some, hOk]
      rfl
  obtain ⟨benchReturns, hBenchReturns, hBenchRow⟩ := hBench
  have hRows : ∀ returns ∈ familyReturns, returns.length = points - 1 := by
    intro returns hReturns
    obtain ⟨curve, -, hLength⟩ := exists_left_of_forall₂ hPairs hReturns
    omega
  have hCount : familyReturns.length = equityCurves.length := hPairs.length_eq.symm
  have hIndex : selectedIndex.toNat < familyReturns.length := by omega
  have hStrategy : familyReturns.getD selectedIndex.toNat [] ∈ familyReturns := by
    rw [List.getD_eq_getElem _ _ hIndex]
    exact List.getElem_mem hIndex
  have hAccepted : Family familyReturns benchReturns (points - 1) :=
    { enough := hCount ▸ List.length_pos_of_ne_nil hNil
      observed := Nat.le_sub_one_of_lt hPoints
      rows := hRows
      benchRow := fun b hb => by
        have hLength := hBenchRow b hb
        omega }
  obtain ⟨decision, hOk⟩ := (evaluatePromotion_ok math gen superiorityMethod seed laws
    (familyReturns.getD selectedIndex.toNat []) (srTrials.map some) periodsPerYear).mpr
      ⟨hPositive, hResamples, by rw [hRows _ hStrategy]; omega, _, hAccepted⟩
  refine ⟨decision, ?_⟩
  unfold evaluateBacktests
  rw [if_neg hNil, if_neg (not_not.mpr hSelected), if_neg (not_not.mpr hLengths), hFamily, except_ok_bind]
  dsimp only
  rw [hTrials, except_ok_bind, hBenchReturns, except_ok_bind, hOk]
  rfl

end Success

/-- A family is decided exactly when its curves and the benchmark have the same number of points, three or more,
and start above zero; where an account is blown later does not matter. -/
theorem evaluateBacktests_total {γ : Type} (gen : Generator γ) (equityCurves : List (List ℝ)) (selectedIndex : ℤ)
    (periodsPerYear : ℝ) (benchCurve : Option (List ℝ)) (superiorityMethod : SuperiorityMethod) (nResamples : ℕ)
    (seed : Option ℤ) :
    (∃ decision, evaluateBacktests realStats gen equityCurves selectedIndex periodsPerYear benchCurve
      superiorityMethod nResamples seed = .ok decision) ↔
        0 < periodsPerYear ∧ 1000 ≤ nResamples ∧ (0 ≤ selectedIndex ∧ selectedIndex < equityCurves.length) ∧
          ∃ points, 3 ≤ points ∧ (∀ curve ∈ equityCurves, curve.length = points ∧ 0 < curve.headD 0) ∧
            ∀ curve ∈ benchCurve, curve.length = points ∧ 0 < curve.headD 0 := by
  constructor
  · rintro ⟨decision, h⟩
    obtain ⟨hPositive, hResamples, hSelected, points, hPoints, hSame⟩ := comparable_of_decided realStats_laws h
    exact ⟨hPositive, hResamples, hSelected, points, hPoints, hSame.curves, hSame.bench⟩
  · rintro ⟨hPositive, hResamples, hSelected, points, hPoints, hCurves, hBench⟩
    exact decided_of_comparable realStats_laws hPositive hResamples hSelected hPoints ⟨hCurves, hBench⟩

end Futur3.Stats
