import Futur3.Execution.VolParity
import Futur3.Prelude.Deviations

/-! # The weights spread the risk evenly

A leg weighs its inverse deviation over the mean of the inverse deviations that can be
measured, and one where there is none: filling the gaps with that mean does not move it.
-/

namespace Futur3.Execution

open Prelude Deviations

section Deviation

variable {K : Type} [Field K] [LinearOrder K] [IsStrictOrderedRing K] {sqrt : K → K}

variable (sqrt) in
theorem stdev_of_varies {returns : List K} (h : Varies returns) :
    0 < squares returns / (returns.length - 1) ∧
      stdev sqrt returns = some (sqrt (squares returns / (returns.length - 1))) := by
  have hVar := h.variance_pos
  exact ⟨hVar, (if_neg (not_lt.mpr h.length)).trans (if_pos hVar)⟩

theorem stdev_eq_none_iff {returns : List K} : stdev sqrt returns = none ↔ ¬Varies returns := by
  constructor
  · intro hNone hVaries
    rw [(stdev_of_varies sqrt hVaries).2] at hNone
    cases hNone
  · intro hSame
    unfold stdev
    split
    · rfl
    · exact if_neg (variance_of_same hSame).not_gt

theorem stdev_pos (hSqrt : IsSqrt sqrt) {returns : List K} {sd : K} (h : stdev sqrt returns = some sd) :
    0 < sd := by
  have hVaries : Varies returns := by
    by_contra hSame
    rw [stdev_eq_none_iff.mpr hSame] at h
    cases h
  obtain ⟨hVar, hSome⟩ := stdev_of_varies sqrt hVaries
  rw [hSome] at h
  cases h
  exact hSqrt.pos hVar

theorem stdev_scaled (hSqrt : IsSqrt sqrt) {c : K} (hc : 0 < c) (returns : List K) :
    stdev sqrt (returns.map fun r => c * r) = (stdev sqrt returns).map fun sd => c * sd := by
  have hVaries : Varies (returns.map fun r => c * r) ↔ Varies returns :=
    varies_map fun _ _ => mul_left_cancel₀ hc.ne'
  by_cases h : Varies returns
  · obtain ⟨hVar, hSome⟩ := stdev_of_varies sqrt h
    rw [(stdev_of_varies sqrt (hVaries.mpr h)).2, hSome, squares_scaled, List.length_map, mul_div_assoc,
      hSqrt.scaled hc.le hVar.le]
    rfl
  · rw [stdev_eq_none_iff.mpr h, stdev_eq_none_iff.mpr (mt hVaries.mp h)]
    rfl

end Deviation

/-! ## The weight of a leg -/

theorem map_filter_isSome {α β γ : Type} {f : α → Option β} {g : α → γ} {h : β → γ}
    (hAgree : ∀ a b, f a = some b → g a = h b) (xs : List α) :
    (xs.filter fun a => (f a).isSome).map g = (xs.filterMap f).map h := by
  induction xs with
  | nil => rfl
  | cons a rest ih =>
    cases ha : f a with
    | none => simpa [ha] using ih
    | some b => simpa [ha, hAgree a b ha] using ih

section Weights

variable {κ : Type} {K : Type} [Field K] [LinearOrder K] {sqrt : K → K}

/-- The inverse deviations of the legs, where they can be measured. -/
def inverseVols (sqrt : K → K) (d : Dict κ (List K)) : List (Option K) :=
  d.items.map fun p => (stdev sqrt p.2).map fun sd => 1 / sd

def neutral (sqrt : K → K) (d : Dict κ (List K)) : K := mean ((inverseVols sqrt d).filterMap id)

def legWeight (sqrt : K → K) (d : Dict κ (List K)) (returns : List K) : K :=
  (stdev sqrt returns).elim 1 fun sd => 1 / sd / neutral sqrt d

def measuredLegs (sqrt : K → K) (d : Dict κ (List K)) : List κ :=
  (d.items.filter fun p => (stdev sqrt p.2).isSome).map Prod.fst

theorem mem_inverseVols {d : Dict κ (List K)} {x : K} :
    x ∈ (inverseVols sqrt d).filterMap id ↔ ∃ p ∈ d.items, ∃ sd, stdev sqrt p.2 = some sd ∧ 1 / sd = x := by
  simp [inverseVols]

variable [IsStrictOrderedRing K]

theorem neutral_pos (hSqrt : IsSqrt sqrt) {d : Dict κ (List K)}
    (h : (inverseVols sqrt d).filterMap id ≠ []) : 0 < neutral sqrt d := by
  apply div_pos
  · apply List.sum_pos _ _ h
    intro x hx
    obtain ⟨p, -, sd, hsd, rfl⟩ := mem_inverseVols.mp hx
    exact one_div_pos.mpr (stdev_pos hSqrt hsd)
  · exact Nat.cast_pos.mpr (List.length_pos_of_ne_nil h)

theorem inverseVols_scaled (hSqrt : IsSqrt sqrt) {c : K} (hc : 0 < c) {d d' : Dict κ (List K)}
    (h : d'.items = d.items.map fun p => (p.1, p.2.map fun r => c * r)) :
    inverseVols sqrt d' = (inverseVols sqrt d).map fun x => x.map fun inverse => 1 / c * inverse := by
  rw [inverseVols, h, inverseVols, List.map_map, List.map_map]
  refine List.map_congr_left fun p _ => ?_
  simp only [Function.comp_apply, stdev_scaled hSqrt hc, Option.map_map]
  refine congrArg (fun f => Option.map f (stdev sqrt p.2)) (funext fun sd => ?_)
  simp only [Function.comp_apply]
  rw [← one_div_mul_one_div]

theorem legWeight_scaled (hSqrt : IsSqrt sqrt) {c : K} (hc : 0 < c) {d d' : Dict κ (List K)}
    (h : d'.items = d.items.map fun p => (p.1, p.2.map fun r => c * r)) (returns : List K) :
    legWeight sqrt d' (returns.map fun r => c * r) = legWeight sqrt d returns := by
  have hNeutral : neutral sqrt d' = 1 / c * neutral sqrt d := by
    rw [neutral, neutral, inverseVols_scaled hSqrt hc h, ← mean_scaled, List.filterMap_map]
    refine congrArg mean ?_
    rw [List.map_filterMap]
    rfl
  rw [legWeight, legWeight, stdev_scaled hSqrt hc, hNeutral]
  cases stdev sqrt returns with
  | none => rfl
  | some sd =>
    change 1 / (c * sd) / (1 / c * neutral sqrt d) = 1 / sd / neutral sqrt d
    rw [← one_div_mul_one_div, mul_div_mul_left _ _ (one_div_pos.mpr hc).ne']

theorem sum_measured (hSqrt : IsSqrt sqrt) {d : Dict κ (List K)} (h : measuredLegs sqrt d ≠ []) :
    ((d.items.filter fun p => (stdev sqrt p.2).isSome).map fun p => legWeight sqrt d p.2).sum =
      (measuredLegs sqrt d).length := by
  have hFinite : (inverseVols sqrt d).filterMap id =
      (d.items.filterMap fun p => stdev sqrt p.2).map fun sd => 1 / sd := by
    rw [inverseVols, List.filterMap_map, List.map_filterMap]
    rfl
  have hWeights : (d.items.filter fun p => (stdev sqrt p.2).isSome).map (fun p => legWeight sqrt d p.2) =
      ((inverseVols sqrt d).filterMap id).map fun inverse => (neutral sqrt d)⁻¹ * inverse := by
    rw [map_filter_isSome (h := fun sd => 1 / sd / neutral sqrt d), hFinite, List.map_map]
    · exact List.map_congr_left fun sd _ => div_eq_inv_mul _ _
    · intro p sd hsd
      rw [legWeight, hsd, Option.elim_some]
  have hLength := congrArg List.length hWeights
  rw [List.length_map, List.length_map] at hLength
  have hSome : (inverseVols sqrt d).filterMap id ≠ [] := by
    rw [← List.length_pos_iff, ← hLength]
    rw [← List.length_pos_iff, measuredLegs, List.length_map] at h
    exact h
  have hSum := List.sum_map_mul_left ((inverseVols sqrt d).filterMap id) id (neutral sqrt d)⁻¹
  rw [List.map_id] at hSum
  rw [hWeights, measuredLegs, List.length_map, hLength]
  refine hSum.trans ?_
  rw [← mean_mul_length, ← mul_assoc]
  change (neutral sqrt d)⁻¹ * neutral sqrt d * _ = _
  rw [inv_mul_cancel₀ (neutral_pos hSqrt hSome).ne', one_mul]

variable [DecidableEq κ]

theorem inverseVolWeights_eq (hSqrt : IsSqrt sqrt) (d : Dict κ (List K)) :
    inverseVolWeights sqrt d = .ofList (d.items.map fun p => (p.1, legWeight sqrt d p.2)) := by
  have hFinite : (d.items.map fun p => (p.1, (stdev sqrt p.2).map fun sd : K => 1 / sd)).filterMap
      Prod.snd = (inverseVols sqrt d).filterMap id := by
    rw [inverseVols, List.filterMap_map, List.filterMap_map]
    rfl
  unfold inverseVolWeights
  simp only [hFinite]
  split
  · rename_i hNone
    rw [Dict.keys, List.map_map]
    refine congrArg Dict.ofList (List.map_congr_left fun p hp => Prod.ext rfl ?_)
    cases hStdev : stdev sqrt p.2 with
    | none => simp [legWeight, hStdev]
    | some sd =>
      have hMem : 1 / sd ∈ (inverseVols sqrt d).filterMap id := mem_inverseVols.mpr ⟨p, hp, sd, hStdev, rfl⟩
      rw [hNone] at hMem
      cases hMem
  · rename_i hSome
    have hMean : mean ((inverseVols sqrt d).map fun x => x.getD (neutral sqrt d)) = neutral sqrt d :=
      mean_getD hSome
    have hPos := neutral_pos hSqrt hSome
    rw [mean, inverseVols, List.map_map, List.length_map] at hMean
    simp only [List.map_map, List.length_map]
    refine congrArg Dict.ofList (List.map_congr_left fun p hp => Prod.ext rfl ?_)
    change ((stdev sqrt p.2).map fun sd => 1 / sd).getD (neutral sqrt d) / _ = _
    refine (congrArg _ hMean).trans ?_
    cases hStdev : stdev sqrt p.2 with
    | none => simp [legWeight, hStdev, hPos.ne']
    | some sd => simp [legWeight, hStdev]

theorem get?_inverseVolWeights (hSqrt : IsSqrt sqrt) (d : Dict κ (List K)) (key : κ) :
    (inverseVolWeights sqrt d).get? key = (d.get? key).map (legWeight sqrt d) := by
  ext weight
  have hKeys : ((d.items.map fun p => (p.1, legWeight sqrt d p.2)).map Prod.fst).Nodup := by
    rw [List.map_map]
    exact d.keys_nodup
  rw [inverseVolWeights_eq hSqrt, ← Dict.mem_iff_get?_ofList hKeys, List.mem_map, Option.map_eq_some_iff]
  constructor
  · rintro ⟨p, hp, hPair⟩
    obtain ⟨rfl, rfl⟩ := Prod.mk.inj hPair
    exact ⟨p.2, (d.mem_items_iff p.1 p.2).mp hp, rfl⟩
  · rintro ⟨returns, hGet, rfl⟩
    exact ⟨(key, returns), (d.mem_items_iff key returns).mpr hGet, rfl⟩

theorem mem_measuredLegs {d : Dict κ (List K)} {key : κ} :
    key ∈ measuredLegs sqrt d ↔ ∃ returns, d.get? key = some returns ∧ Varies returns := by
  have hVaries : ∀ returns : List K, (stdev sqrt returns).isSome = true ↔ Varies returns := by
    intro returns
    rw [Option.isSome_iff_ne_none, Ne, stdev_eq_none_iff, not_not]
  rw [measuredLegs, List.mem_map]
  constructor
  · rintro ⟨p, hp, rfl⟩
    obtain ⟨hMem, hSome⟩ := List.mem_filter.mp hp
    exact ⟨p.2, (d.mem_items_iff p.1 p.2).mp hMem, (hVaries p.2).mp hSome⟩
  · rintro ⟨returns, hGet, h⟩
    exact ⟨(key, returns), List.mem_filter.mpr ⟨(d.mem_items_iff key returns).mpr hGet,
      (hVaries returns).mpr h⟩, rfl⟩

/-- The legs measurable, and the weights of all legs: in the mean one, each one times its deviation the
same, and one where nothing is measured. -/
structure EqualisesRisk (sqrt : K → K) (d : Dict κ (List K)) (weight : κ → K) : Prop where
  weights : ∀ key, (inverseVolWeights sqrt d).get? key = if key ∈ d.keys then some (weight key) else none
  measured : ∀ key, key ∈ measuredLegs sqrt d ↔ ∃ returns, d.get? key = some returns ∧ Varies returns
  average : measuredLegs sqrt d ≠ [] →
    ((measuredLegs sqrt d).map weight).sum / (measuredLegs sqrt d).length = 1
  equal : ∀ key key' returns returns' sd sd', d.get? key = some returns → d.get? key' = some returns' →
    stdev sqrt returns = some sd → stdev sqrt returns' = some sd' → weight key * sd = weight key' * sd'
  neutral : ∀ key returns, d.get? key = some returns → ¬Varies returns → weight key = 1

theorem exists_equalisesRisk (hSqrt : IsSqrt sqrt) (d : Dict κ (List K)) :
    ∃ weight, EqualisesRisk sqrt d weight := by
  have hWeight : ∀ {key returns}, d.get? key = some returns →
      ((d.get? key).map (legWeight sqrt d)).getD 0 = legWeight sqrt d returns := by
    intro key returns hGet
    rw [hGet]
    rfl
  refine ⟨fun key => ((d.get? key).map (legWeight sqrt d)).getD 0, ?_, fun _ => mem_measuredLegs, ?_, ?_, ?_⟩
  · intro key
    rw [get?_inverseVolWeights hSqrt]
    split
    · rename_i hKey
      obtain ⟨returns, hGet⟩ := (d.mem_keys_iff key).mp hKey
      rw [hGet]
      rfl
    · rename_i hKey
      rw [(d.get?_eq_none_iff key).mpr hKey]
      rfl
  · intro h
    have hMap : (measuredLegs sqrt d).map (fun key => ((d.get? key).map (legWeight sqrt d)).getD 0) =
        (d.items.filter fun p => (stdev sqrt p.2).isSome).map fun p => legWeight sqrt d p.2 := by
      rw [measuredLegs, List.map_map]
      refine List.map_congr_left fun p hp => ?_
      exact hWeight ((d.mem_items_iff p.1 p.2).mp (List.mem_filter.mp hp).1)
    rw [hMap, sum_measured hSqrt h, div_self]
    exact Nat.cast_ne_zero.mpr (List.length_pos_of_ne_nil h).ne'
  · intro key key' returns returns' sd sd' hGet hGet' hsd hsd'
    have hRisk : ∀ {returns sd}, stdev sqrt returns = some sd →
        legWeight sqrt d returns * sd = 1 / neutral sqrt d := by
      intro returns sd hsd
      have hPos := stdev_pos hSqrt hsd
      rw [legWeight, hsd, Option.elim_some, div_mul_eq_mul_div, one_div_mul_cancel hPos.ne']
    rw [hWeight hGet, hWeight hGet', hRisk hsd, hRisk hsd']
  · intro key returns hGet hSame
    rw [hWeight hGet, legWeight, stdev_eq_none_iff.mpr hSame, Option.elim_none]

end Weights

def scaledReturns {κ K : Type} [Mul K] (c : K) (d : Dict κ (List K)) : Dict κ (List K) where
  items := d.items.map fun p => (p.1, p.2.map fun r => c * r)
  nodup_keys := by
    rw [List.map_map]
    exact d.nodup_keys

/-- The measurable legs share the risk evenly at mean weight one, the others weigh one, and neither a
common factor nor the order of the legs changes a weight. -/
theorem inverseVolWeights_equaliseRisk {κ : Type} [DecidableEq κ] (d : Dict κ (List ℝ)) :
    (∃ weight, EqualisesRisk Real.sqrt d weight) ∧
      (∀ c, 0 < c → ∀ key, (inverseVolWeights Real.sqrt (scaledReturns c d)).get? key =
        (inverseVolWeights Real.sqrt d).get? key) ∧
      ∀ d', d.Reordered d' → ∀ key, (inverseVolWeights Real.sqrt d').get? key =
        (inverseVolWeights Real.sqrt d).get? key := by
  refine ⟨exists_equalisesRisk isSqrt_real d, fun c hc key => ?_, fun d' h key => ?_⟩
  · have hLookup : (scaledReturns c d).get? key = (d.get? key).map fun returns => returns.map fun r => c * r :=
      Dict.lookup_map_snd _ key d.items
    rw [get?_inverseVolWeights isSqrt_real, get?_inverseVolWeights isSqrt_real, hLookup, Option.map_map]
    refine congrArg (fun f => Option.map f (d.get? key)) (funext fun returns => ?_)
    exact legWeight_scaled isSqrt_real hc rfl returns
  · exact ((inverseVolWeights_reordered h).get?_eq key).symm

end Futur3.Execution
