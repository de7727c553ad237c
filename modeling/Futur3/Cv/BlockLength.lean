import Futur3.Stats.SharpeCore
import Mathlib.Analysis.SpecialFunctions.Log.Base
import Mathlib.Data.Nat.NthRoot.Defs

/-! # The automatic block length

The length of the blocks of a bootstrap is chosen from the autocorrelations of the data,
out to the lag where they die down. It is the length of the interval's blocks and of the
survival paths' alike when none is given.
-/

namespace Futur3.Cv

open Stats

def minPwData : ℕ := 8

structure SelectionModule (K : Type) where
  log10 : K → K
  sqrt : K → K
  pow : K → K → K

variable {K : Type} [Field K] [LinearOrder K]

/-- `_autocovariances`, of the data less their mean. -/
def autocovariances (data : List K) (maxLag : ℕ) : List K := (List.range (maxLag + 1)).map (lagCovariance data)

def flatTopHalf : K := 1 / (2 : ℕ)

def flatTop (s : K) : K :=
  let a := |s|
  if a ≤ flatTopHalf then 1 else if a ≤ 1 then (2 : ℕ) * (1 - a) else 0

/-- `m_hat` before it is raised to one. -/
def bandwidth (rho : List K) (threshold : K) (kN mMax : ℕ) : ℕ :=
  match (List.range' 1 (mMax - kN + 1)).find? fun kk =>
      (List.range kN).all fun j => |rho.getD (kk + j) 0| < threshold with
  | some kk => kk - 1
  | none =>
    let sig := (List.range' 1 mMax).filter fun k => threshold ≤ |rho.getD k 0|
    sig.max?.getD 1

def lagRange (bigM : ℕ) : List ℤ := (List.range (2 * bigM + 1)).map fun i => (i : ℤ) - bigM

def gHat (gamma : List K) (bigM : ℕ) : K :=
  ((lagRange bigM).map fun k : ℤ => flatTop ((k : K) / bigM) * ((|k| : ℤ) : K) * gamma.getD k.natAbs 0).sum

def dInner (gamma : List K) (bigM : ℕ) : K :=
  ((lagRange bigM).map fun k : ℤ => flatTop ((k : K) / bigM) * gamma.getD k.natAbs 0).sum

/-- `int(x)`. -/
def truncated [FloorRing K] (x : K) : ℤ := if 0 ≤ x then ⌊x⌋ else ⌈x⌉

variable [FloorRing K] (math : SelectionModule K)

def optimalBlockLength (data : List K) : ℤ :=
  let n := data.length
  if n < minPwData then 1
  else
    let kN := max 5 ⌈math.sqrt (math.log10 n)⌉
    let mMax := ⌈math.sqrt n⌉ + kN
    let gamma := autocovariances data mMax.toNat
    let g0 := gamma.getD 0 0
    if g0 ≤ 0 then 1
    else
      let rho := gamma.map fun g => g / g0
      let threshold := (2 : ℕ) * math.sqrt (math.log10 n / n)
      let mHat := max (bandwidth rho threshold kN.toNat mMax.toNat) 1
      let bigM := min (2 * mHat) mMax.toNat
      let dSb := (2 : ℕ) * dInner gamma bigM ^ 2
      if dSb ≤ 0 ∨ gHat gamma bigM ≤ 0 then 1
      else
        let b := math.pow ((2 : ℕ) * gHat gamma bigM ^ 2 / dSb) (1 / (3 : ℕ)) * math.pow n (1 / (3 : ℕ))
        let bMax := ⌈min ((3 : ℕ) * math.sqrt n) (n / (3 : ℕ))⌉
        max 1 (min (truncated (b + 1 / (2 : ℕ))) bMax)

noncomputable def realSelection : SelectionModule ℝ where
  log10 := Real.logb (10 : ℕ)
  sqrt := Real.sqrt
  pow x y := x ^ y

def wholeSelection : SelectionModule ℚ where
  log10 x := Nat.log 10 ⌊x⌋₊
  sqrt x := Nat.sqrt ⌊x⌋₊
  pow x y := Nat.nthRoot y.den (⌊x⌋₊ ^ y.num.toNat)

end Futur3.Cv
