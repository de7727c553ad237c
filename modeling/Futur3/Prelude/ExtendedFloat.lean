import Mathlib.Algebra.Field.Basic
import Mathlib.Data.List.Sort

/-! # Floats with their special values

A float is a number, an infinity or not a number. Comparisons with the last fail, and the
arithmetic has its usual undefined cases.
-/

namespace Futur3.Prelude

inductive Extended (K : Type) where
  | nan
  | negInf
  | num (x : K)
  | posInf
deriving DecidableEq

namespace Extended

variable {K : Type}

def isFinite : Extended K → Bool
  | num _ => true
  | _ => false

def isNan : Extended K → Bool
  | nan => true
  | _ => false

def toNum : Extended K → Option K
  | num x => some x
  | _ => none

theorem isFinite_iff {x : Extended K} : x.isFinite = true ↔ ∃ a, x = num a := by
  cases x <;> simp [isFinite]

variable [LinearOrder K]

def le : Extended K → Extended K → Bool
  | nan, _ => false
  | _, nan => false
  | negInf, _ => true
  | _, posInf => true
  | num x, num y => x ≤ y
  | _, _ => false

def lt (x y : Extended K) : Bool := x.le y && !y.le x

/-- `sorted`, of floats that are all comparable. -/
def sorted (xs : List (Extended K)) : List (Extended K) := xs.insertionSort fun x y => x.le y = true

theorem sorted_num (xs : List K) : sorted (xs.map num) = (xs.insertionSort (· ≤ ·)).map num := by
  refine (List.map_insertionSort (fun x y : K => x ≤ y) (fun x y : Extended K => x.le y = true) num xs ?_).symm
  intro a _ b _
  simp [le]

theorem sorted_perm (xs : List (Extended K)) : (sorted xs).Perm xs := List.perm_insertionSort _ xs

section Arithmetic

variable [Field K]

def add : Extended K → Extended K → Extended K
  | nan, _ => nan
  | _, nan => nan
  | posInf, negInf => nan
  | negInf, posInf => nan
  | posInf, _ => posInf
  | _, posInf => posInf
  | negInf, _ => negInf
  | _, negInf => negInf
  | num x, num y => num (x + y)

def neg : Extended K → Extended K
  | nan => nan
  | negInf => posInf
  | num x => num (-x)
  | posInf => negInf

def sub (x y : Extended K) : Extended K := x.add y.neg

def scale (c : K) : Extended K → Extended K
  | nan => nan
  | num x => num (c * x)
  | posInf => if c = 0 then nan else if 0 < c then posInf else negInf
  | negInf => if c = 0 then nan else if 0 < c then negInf else posInf

end Arithmetic

end Extended

end Futur3.Prelude
