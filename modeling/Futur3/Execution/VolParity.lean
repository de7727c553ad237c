import Futur3.Prelude.Dict
import Mathlib.Algebra.BigOperators.Group.List.Basic
import Mathlib.Algebra.Field.Defs
import Mathlib.Order.Lattice

/-! # Inverse-volatility weights

A leg is weighted by the inverse of the deviation of its returns, scaled so that the
mean weight is one. Decimals are the numbers of an ordered field, and their square root
is an argument.
-/

namespace Futur3.Execution

open Prelude

variable {κ : Type} [DecidableEq κ] {K : Type} [Field K] [LinearOrder K]

def minVolObs : ℕ := 2

/-- `_stdev`: the sample deviation, when it is defined and not zero. -/
def stdev (sqrt : K → K) (returns : List K) : Option K :=
  if returns.length < minVolObs then none
  else
    let mean : K := returns.sum / returns.length
    let var : K := (returns.map fun r => (r - mean) ^ 2).sum / (returns.length - 1)
    if var > 0 then some (sqrt var) else none

def inverseVolWeights (sqrt : K → K) (returnsByKey : Dict κ (List K)) : Dict κ K :=
  let inv := returnsByKey.items.map fun p => (p.1, (stdev sqrt p.2).map fun sd : K => 1 / sd)
  let finite := inv.filterMap Prod.snd
  -- also the empty input, which has nothing measurable
  if finite = [] then .ofList (returnsByKey.keys.map fun key => (key, 1))
  else
    let neutral := finite.sum / finite.length
    let raw := inv.map fun p => (p.1, p.2.getD neutral)
    let meanRaw := (raw.map Prod.snd).sum / raw.length
    .ofList (raw.map fun p => (p.1, p.2 / meanRaw))

/-- The weight of a leg does not depend on the order of the legs. -/
theorem inverseVolWeights_reordered {sqrt : K → K} {returnsByKey returnsByKey' : Dict κ (List K)}
    (h : returnsByKey.Reordered returnsByKey') :
    (inverseVolWeights sqrt returnsByKey).Reordered (inverseVolWeights sqrt returnsByKey') := by
  have hInv := h.map fun p : κ × List K => (p.1, (stdev sqrt p.2).map fun sd : K => 1 / sd)
  have hKeys : ((returnsByKey.items.map
      fun p => (p.1, (stdev sqrt p.2).map fun sd : K => 1 / sd)).map Prod.fst).Nodup := by
    rw [List.map_map]
    exact returnsByKey.keys_nodup
  unfold inverseVolWeights
  generalize returnsByKey.items.map _ = inv at hInv hKeys ⊢
  generalize returnsByKey'.items.map _ = inv' at hInv ⊢
  have hFinite := hInv.filterMap Prod.snd
  by_cases hNone : inv.filterMap Prod.snd = []
  · rw [hNone] at hFinite
    simp only [hNone, hFinite.nil_eq.symm, if_true]
    apply Dict.reordered_ofList (h.keys.map _)
    rw [List.map_map]
    simpa [Function.comp_def] using returnsByKey.keys_nodup
  · have hNone' : inv'.filterMap Prod.snd ≠ [] := by
      intro hNil
      rw [hNil] at hFinite
      exact hNone hFinite.eq_nil
    simp only [hNone, hNone', if_false, hFinite.sum_eq, hFinite.length_eq]
    have hRaw := hInv.map fun p =>
      (p.1, p.2.getD ((inv'.filterMap Prod.snd).sum / (inv'.filterMap Prod.snd).length))
    rw [(hRaw.map Prod.snd).sum_eq, hRaw.length_eq]
    apply Dict.reordered_ofList (hRaw.map _)
    simpa [Function.comp_def] using hKeys

end Futur3.Execution
