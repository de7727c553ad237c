import Futur3.Prelude.Deviations
import Futur3.Stats.SpaTest

/-! # What the gates read of a strategy

Both gates read a strategy through its mean, its means over the drawn paths and its
deviation. A positive factor leaves the studentized values as they are, and a strategy
that never moves has none.
-/

namespace Futur3.Stats

open Execution Prelude Deviations

/-! ## The best of some values -/

section Best

variable {K : Type} [LinearOrder K]

theorem le_foldl_max_iff (values : List K) (first c : K) :
    c ≤ values.foldl max first ↔ c ≤ first ∨ ∃ v ∈ values, c ≤ v := by
  induction values generalizing first with
  | nil => simp
  | cons v rest ih =>
    rw [List.foldl_cons, ih, le_max_iff]
    simp [or_assoc]

theorem le_maxIdx {n : ℕ} [NeZero n] (values : Fin n → K) (k : Fin n) : values k ≤ values (maxIdx values) := by
  unfold maxIdx
  cases hBest : (List.finRange n).argmax values with
  | none => exact absurd (List.argmax_eq_none.mp hBest ▸ List.mem_finRange k) List.not_mem_nil
  | some best => exact List.le_of_mem_argmax (List.mem_finRange k) hBest

variable [Field K]

def bestOf (values : List K) : K := values.foldl max 0

theorem le_bestOf_iff {values : List K} {c : K} : c ≤ bestOf values ↔ c ≤ 0 ∨ ∃ v ∈ values, c ≤ v :=
  le_foldl_max_iff values 0 c

theorem bestOf_le {values values' : List K} (h : ∀ v ∈ values, v ≤ 0 ∨ ∃ v' ∈ values', v ≤ v') :
    bestOf values ≤ bestOf values' := by
  apply le_of_forall_le
  intro c hc
  rw [le_bestOf_iff] at hc ⊢
  rcases hc with hZero | ⟨v, hv, hReach⟩
  · exact .inl hZero
  · rcases h v hv with hZero | ⟨v', hv', hReach'⟩
    · exact .inl (hReach.trans hZero)
    · exact .inr ⟨v', hv', hReach.trans hReach'⟩

/-- The observed statistic is the best of the studentized means. -/
theorem max_maxIdx_eq {α : Type} {d : List α} [NeZero d.length] (f : α → K) :
    max 0 (f (d.get (maxIdx fun k => f (d.get k)))) = bestOf (d.map f) := by
  apply eq_of_forall_le_iff
  intro c
  rw [le_max_iff, le_bestOf_iff]
  apply or_congr_right
  constructor
  · exact fun hReach => ⟨_, List.mem_map_of_mem (List.get_mem d _), hReach⟩
  · rintro ⟨v, hv, hReach⟩
    obtain ⟨a, ha, rfl⟩ := List.mem_map.mp hv
    obtain ⟨k, rfl⟩ := List.get_of_mem ha
    exact hReach.trans (le_maxIdx (fun k => f (d.get k)) k)

theorem bootStat_eq {α : Type} (d : List α) (omega vals : α → K) :
    bootStat (fun k => omega (d.get k)) (fun k => vals (d.get k)) =
      bestOf ((d.filter fun a => 0 < omega a).map vals) := by
  have hFold : ∀ (ks : List (Fin d.length)) (first : K),
      ks.foldl (fun stat k => if 0 < omega (d.get k) then max stat (vals (d.get k)) else stat) first =
        (((ks.map d.get).filter fun a => 0 < omega a).map vals).foldl max first := by
    intro ks
    induction ks with
    | nil => exact fun _ => rfl
    | cons k rest ih =>
      intro first
      rw [List.foldl_cons, ih, List.map_cons, List.filter_cons]
      by_cases hPos : 0 < omega (d.get k)
      · rw [if_pos hPos, if_pos (decide_eq_true hPos)]
        rfl
      · rw [if_neg hPos, if_neg (by simpa using hPos)]
  rw [bootStat, hFold, List.map_get_finRange, bestOf]

end Best

/-! ## What the gates read of a strategy -/

section Read

variable {K : Type} [Field K] [LinearOrder K] {nObs : ℕ} (sqrt : K → K)

def pathMean (row : List K) (idx : List (Fin nObs)) : K := (idx.map fun i : Fin nObs => row.getD i 0).sum / nObs

def rowMean (nObs : ℕ) (row : List K) : K := row.sum / nObs

variable (paths : List (List (Fin nObs))) (nBootstrap : ℕ) (tau : K)

def rowOmega (row : List K) : K :=
  sqrt ((paths.map fun idx => (sqrt nObs * (pathMean row idx - rowMean nObs row)) ^ 2).sum / nBootstrap)

def rowT (row : List K) : K :=
  studentized (rowOmega sqrt paths nBootstrap row) (sqrt nObs) (rowMean nObs row)

/-- The statistic of a draw, recentered unless the strategy is clearly inferior. -/
def rowVal (row : List K) (idx : List (Fin nObs)) : K :=
  sqrt nObs * (pathMean row idx -
    if 0 < rowOmega sqrt paths nBootstrap row ∧ -tau ≤ rowT sqrt paths nBootstrap row then rowMean nObs row
    else 0) / rowOmega sqrt paths nBootstrap row

def rowStar (row : List K) (idx : List (Fin nObs)) : K :=
  studentized (rowOmega sqrt paths nBootstrap row) (sqrt nObs) (pathMean row idx - rowMean nObs row)

def spaShare (rows : List (List K)) : K :=
  ((paths.countP fun idx => bestOf (rows.map (rowT sqrt paths nBootstrap)) ≤
      bestOf ((rows.filter fun row => 0 < rowOmega sqrt paths nBootstrap row).map
        fun row => rowVal sqrt paths nBootstrap tau row idx)) + 1) / (nBootstrap + 1)

end Read

section Link

variable {K : Type} [Field K] {γ : Type} {gen : Generator γ} {nObs : ℕ} [NeZero nObs]

theorem bootstrapRows_eq (d : List (List K)) (blockLength : ℤ) (draws : ℕ) (rng : γ) :
    bootstrapRows gen nObs d blockLength draws rng =
      (drawnPaths gen (1 / blockLength) nObs draws rng).map fun idx : List (Fin nObs) =>
        d.map fun row => pathMean row idx := by
  induction draws generalizing rng with
  | zero => rfl
  | succ draws ih =>
    rw [drawnPaths_succ, List.map_cons, ← ih]
    rfl

theorem getD_map_get {α : Type} (f : α → K) (d : List α) (k : Fin d.length) :
    (d.map f).getD k 0 = f (d.get k) := by
  simp [List.getD_eq_getElem?_getD]

theorem omega_eq {nObs : ℕ} (sqrt : K → K) (d : List (List K)) (paths : List (List (Fin nObs))) (nBootstrap : ℕ)
    (k : Fin d.length) :
    omega sqrt (sqrt nObs) (d.map (rowMean nObs)) (paths.map fun idx => d.map fun row => pathMean row idx)
        nBootstrap k =
      rowOmega sqrt paths nBootstrap (d.get k) := by
  unfold omega rowOmega
  simp only [List.map_map, Function.comp_def, getD_map_get]

def gatePaths (gen : Generator γ) (nObs : ℕ) [NeZero nObs] (nBootstrap : ℕ) (blockLength : ℤ) (seed : Option ℤ) :
    List (List (Fin nObs)) :=
  drawnPaths gen (1 / blockLength) nObs nBootstrap (gen.seeded seed)

theorem dstar_eq (d : List (List K)) (nBootstrap : ℕ) (blockLength : ℤ) (seed : Option ℤ) :
    bootstrapDifferentialMeans gen d nObs nBootstrap blockLength seed =
      (gatePaths gen nObs nBootstrap blockLength seed).map fun idx => d.map fun row => pathMean row idx :=
  bootstrapRows_eq d blockLength nBootstrap (gen.seeded seed)

end Link

section Moves

variable {K : Type} [Field K] [LinearOrder K] [IsStrictOrderedRing K] {nObs : ℕ} {sqrt : K → K}
  {paths : List (List (Fin nObs))} {nBootstrap : ℕ} {row : List K}

/-- A strategy moves when its mean over some path is not its own. -/
theorem rowOmega_pos (hSqrt : IsSqrt sqrt) (hObs : 0 < nObs) (hBootstrap : 0 < nBootstrap) {idx : List (Fin nObs)}
    (hIdx : idx ∈ paths) (hMoves : pathMean row idx ≠ rowMean nObs row) : 0 < rowOmega sqrt paths nBootstrap row := by
  have hRoot : 0 < sqrt (nObs : K) := hSqrt.pos (Nat.cast_pos.mpr hObs)
  have hSquare : 0 < (sqrt (nObs : K) * (pathMean row idx - rowMean nObs row)) ^ 2 :=
    sq_pos_of_ne_zero (mul_ne_zero hRoot.ne' (sub_ne_zero.mpr hMoves))
  have hSum : (sqrt (nObs : K) * (pathMean row idx - rowMean nObs row)) ^ 2 ≤
      (paths.map fun idx => (sqrt nObs * (pathMean row idx - rowMean nObs row)) ^ 2).sum :=
    List.single_le_sum (List.forall_mem_map.mpr fun _ _ => sq_nonneg _) _ (List.mem_map_of_mem hIdx)
  exact hSqrt.pos (div_pos (hSquare.trans_le hSum) (Nat.cast_pos.mpr hBootstrap))

theorem rowT_pos (hSqrt : IsSqrt sqrt) (hObs : 0 < nObs) (hValid : 0 < rowOmega sqrt paths nBootstrap row)
    (hMean : 0 < rowMean nObs row) : 0 < rowT sqrt paths nBootstrap row := by
  rw [rowT, studentized, if_pos hValid]
  exact div_pos (mul_pos (hSqrt.pos (Nat.cast_pos.mpr hObs)) hMean) hValid

end Moves

/-! ## Families with the same statistics -/

section Covers

variable {K : Type} [Field K] [LinearOrder K] {nObs : ℕ} {sqrt : K → K} {paths : List (List (Fin nObs))}
  {nBootstrap : ℕ} {tau : K} {rows rows' : List (List K)} {row : List K}

structure Alike (sqrt : K → K) (paths : List (List (Fin nObs))) (nBootstrap : ℕ) (tau : K)
    (row row' : List K) : Prop where
  valid : 0 < rowOmega sqrt paths nBootstrap row ↔ 0 < rowOmega sqrt paths nBootstrap row'
  t : rowT sqrt paths nBootstrap row = rowT sqrt paths nBootstrap row'
  val : ∀ idx, rowVal sqrt paths nBootstrap tau row idx = rowVal sqrt paths nBootstrap tau row' idx

theorem Alike.refl (row : List K) : Alike sqrt paths nBootstrap tau row row := ⟨Iff.rfl, rfl, fun _ => rfl⟩

theorem Alike.symm {row' : List K} (h : Alike sqrt paths nBootstrap tau row row') :
    Alike sqrt paths nBootstrap tau row' row := ⟨h.valid.symm, h.t.symm, fun idx => (h.val idx).symm⟩

/-- Each strategy that moves has one like it in the other family. -/
def Covers (sqrt : K → K) (paths : List (List (Fin nObs))) (nBootstrap : ℕ) (tau : K)
    (rows rows' : List (List K)) : Prop :=
  ∀ row ∈ rows, 0 < rowOmega sqrt paths nBootstrap row → ∃ row' ∈ rows', Alike sqrt paths nBootstrap tau row row'

theorem covers_of_subset (h : rows ⊆ rows') : Covers sqrt paths nBootstrap tau rows rows' :=
  fun row hRow _ => ⟨row, h hRow, .refl row⟩

theorem covers_cons (hIdle : ¬0 < rowOmega sqrt paths nBootstrap row) :
    Covers sqrt paths nBootstrap tau (row :: rows) rows := by
  intro other hOther hValid
  rcases List.mem_cons.mp hOther with rfl | hRest
  · exact absurd hValid hIdle
  · exact ⟨other, hRest, .refl other⟩

theorem exists_of_forall₂ {α β : Type} {R : α → β → Prop} {xs : List α} {ys : List β} (h : List.Forall₂ R xs ys)
    {x : α} (hx : x ∈ xs) : ∃ y ∈ ys, R x y := by
  induction h with
  | nil => cases hx
  | @cons _ y _ _ hFirst _ ih =>
    rcases List.mem_cons.mp hx with rfl | hRest
    · exact ⟨y, List.mem_cons_self, hFirst⟩
    · obtain ⟨y', hy', hLater⟩ := ih hRest
      exact ⟨y', List.mem_cons_of_mem _ hy', hLater⟩

theorem Covers.best (h : Covers sqrt paths nBootstrap tau rows rows') :
    bestOf (rows.map (rowT sqrt paths nBootstrap)) ≤ bestOf (rows'.map (rowT sqrt paths nBootstrap)) := by
  apply bestOf_le
  rw [List.forall_mem_map]
  intro row hRow
  by_cases hValid : 0 < rowOmega sqrt paths nBootstrap row
  · obtain ⟨row', hRow', hAlike⟩ := h row hRow hValid
    exact .inr ⟨_, List.mem_map_of_mem hRow', hAlike.t.le⟩
  · exact .inl (if_neg hValid).le

theorem Covers.drawn (h : Covers sqrt paths nBootstrap tau rows rows') (idx : List (Fin nObs)) :
    bestOf ((rows.filter fun row => 0 < rowOmega sqrt paths nBootstrap row).map
        fun row => rowVal sqrt paths nBootstrap tau row idx) ≤
      bestOf ((rows'.filter fun row => 0 < rowOmega sqrt paths nBootstrap row).map
        fun row => rowVal sqrt paths nBootstrap tau row idx) := by
  apply bestOf_le
  rw [List.forall_mem_map]
  intro row hRow
  obtain ⟨hMem, hValid⟩ := List.mem_filter.mp hRow
  obtain ⟨row', hRow', hAlike⟩ := h row hMem (of_decide_eq_true hValid)
  have hKept : row' ∈ rows'.filter fun row => 0 < rowOmega sqrt paths nBootstrap row :=
    List.mem_filter.mpr ⟨hRow', decide_eq_true (hAlike.valid.mp (of_decide_eq_true hValid))⟩
  exact .inr ⟨_, List.mem_map_of_mem hKept, (hAlike.val idx).le⟩

theorem spaShare_eq_of_covers (h : Covers sqrt paths nBootstrap tau rows rows')
    (h' : Covers sqrt paths nBootstrap tau rows' rows) :
    spaShare sqrt paths nBootstrap tau rows = spaShare sqrt paths nBootstrap tau rows' := by
  unfold spaShare
  simp only [le_antisymm h.best h'.best, fun idx => le_antisymm (h.drawn idx) (h'.drawn idx)]

end Covers

section Scale

variable {K : Type} [Field K] {nObs : ℕ}

theorem pathMean_scaled (c : K) (row : List K) (idx : List (Fin nObs)) :
    pathMean (row.map fun r => c * r) idx = c * pathMean row idx := by
  have hEntry : ∀ i : Fin nObs, (row.map fun r => c * r).getD i 0 = c * row.getD i 0 := by
    intro i
    rw [List.getD_eq_getElem?_getD, List.getD_eq_getElem?_getD, List.getElem?_map]
    cases row[(i : ℕ)]? <;> simp
  simp only [pathMean, hEntry, List.sum_map_mul_left, mul_div_assoc]

theorem rowMean_scaled (c : K) (row : List K) : rowMean nObs (row.map fun r => c * r) = c * rowMean nObs row := by
  have hSum : (row.map fun r => c * r).sum = c * row.sum := by
    simpa using List.sum_map_mul_left row (fun r => r) c
  rw [rowMean, rowMean, hSum, mul_div_assoc]

variable [LinearOrder K] [IsStrictOrderedRing K] {sqrt : K → K} {paths : List (List (Fin nObs))} {nBootstrap : ℕ}
  {tau : K}

theorem sum_squares_nonneg (f : List (Fin nObs) → K) :
    0 ≤ (paths.map fun idx => f idx ^ 2).sum / (nBootstrap : K) := by
  refine div_nonneg (List.sum_nonneg ?_) (Nat.cast_nonneg _)
  rw [List.forall_mem_map]
  exact fun idx _ => sq_nonneg _

variable (paths nBootstrap) in
theorem rowOmega_scaled (hSqrt : IsSqrt sqrt) {c : K} (hc : 0 ≤ c) (row : List K) :
    rowOmega sqrt paths nBootstrap (row.map fun r => c * r) = c * rowOmega sqrt paths nBootstrap row := by
  have hSquare : ∀ idx : List (Fin nObs), (sqrt nObs * (c * pathMean row idx - c * rowMean nObs row)) ^ 2 =
      c ^ 2 * (sqrt nObs * (pathMean row idx - rowMean nObs row)) ^ 2 := by
    intro idx
    ring
  unfold rowOmega
  simp only [pathMean_scaled, rowMean_scaled, hSquare, List.sum_map_mul_left, mul_div_assoc]
  exact hSqrt.scaled hc (sum_squares_nonneg _)

theorem alike_scaled (hSqrt : IsSqrt sqrt) {c : K} (hc : 0 < c) (row : List K) :
    Alike sqrt paths nBootstrap tau row (row.map fun r => c * r) := by
  have hOmega := rowOmega_scaled paths nBootstrap hSqrt hc.le row
  have hValid : 0 < c * rowOmega sqrt paths nBootstrap row ↔ 0 < rowOmega sqrt paths nBootstrap row :=
    mul_pos_iff_of_pos_left hc
  have hT : rowT sqrt paths nBootstrap row = rowT sqrt paths nBootstrap (row.map fun r => c * r) := by
    rw [rowT, rowT, hOmega, rowMean_scaled, studentized, studentized, mul_left_comm, mul_div_mul_left _ _ hc.ne']
    exact (if_congr hValid rfl rfl).symm
  refine ⟨by rw [hOmega, hValid], hT, fun idx => ?_⟩
  have hNull : (if 0 < rowOmega sqrt paths nBootstrap row ∧ -tau ≤ rowT sqrt paths nBootstrap row then
      c * rowMean nObs row else 0) = c * (if 0 < rowOmega sqrt paths nBootstrap row ∧
        -tau ≤ rowT sqrt paths nBootstrap row then rowMean nObs row else 0) := by
    rw [mul_ite, mul_zero]
  rw [rowVal, rowVal, ← hT, hOmega, pathMean_scaled, rowMean_scaled]
  simp only [hValid]
  rw [hNull, ← mul_sub, mul_left_comm, mul_div_mul_left _ _ hc.ne']

/-- A strategy that never moves has no variance. -/
theorem rowOmega_idle (hSqrt : IsSqrt sqrt) :
    ¬0 < rowOmega sqrt paths nBootstrap (List.replicate nObs (0 : K)) := by
  have hRoot : sqrt 0 = 0 := mul_self_eq_zero.mp (hSqrt.square 0 le_rfl)
  have hPath : ∀ idx : List (Fin nObs), pathMean (List.replicate nObs (0 : K)) idx = 0 := by
    intro idx
    simp [pathMean, List.getD_eq_getElem?_getD]
  have hMean : rowMean nObs (List.replicate nObs (0 : K)) = 0 := by
    simp [rowMean]
  simp [rowOmega, hPath, hMean, hRoot]

end Scale

end Futur3.Stats
