import Mathlib.Algebra.Order.Ring.Rat
import Mathlib.Algebra.Field.Rat
import Mathlib.Tactic.NormNum

/-! # Finite decimal numbers and their texts

A sign, a coefficient and an exponent. Equal numbers may have several
representations; the text in scientific or plain notation keeps the one it was
made from.
-/

namespace Futur3.Prelude

structure Decimal where
  negative : Bool
  coefficient : ℕ
  exponent : ℤ
deriving DecidableEq, Repr

namespace Decimal

def value (d : Decimal) : ℚ :=
  (if d.negative then -1 else 1) * d.coefficient * (10 : ℚ) ^ d.exponent

/-- `"%+d" % n`. -/
def signedChars (n : ℤ) : List Char :=
  (if n < 0 then '-' else '+') :: Nat.toDigits 10 n.natAbs

/-- What stands before and after the point, the point included, for a point after
`dotplace` digits. -/
def pointed (digits : List Char) (dotplace : ℤ) : List Char × List Char :=
  if dotplace ≤ 0 then
    (['0'], '.' :: (List.replicate (-dotplace).toNat '0' ++ digits))
  else if digits.length ≤ dotplace then
    (digits ++ List.replicate (dotplace - digits.length).toNat '0', [])
  else (digits.take dotplace.toNat, '.' :: digits.drop dotplace.toNat)

/-- `Decimal.__str__`. -/
def strChars (d : Decimal) : List Char :=
  let digits := Nat.toDigits 10 d.coefficient
  let leftdigits := d.exponent + digits.length
  let dotplace := if d.exponent ≤ 0 ∧ -6 < leftdigits then leftdigits else 1
  let exp := if leftdigits = dotplace then [] else 'E' :: signedChars (leftdigits - dotplace)
  (if d.negative then ['-'] else []) ++
    ((pointed digits dotplace).1 ++ ((pointed digits dotplace).2 ++ exp))

def str (d : Decimal) : String := String.ofList d.strChars

/-! ## Reading -/

def takeSign : List Char → Bool × List Char
  | '-' :: rest => (true, rest)
  | '+' :: rest => (false, rest)
  | rest => (false, rest)

def exponent? : List Char → Option ℤ
  | [] => some 0
  | c :: rest =>
    let signed := takeSign rest
    if (c = 'E' ∨ c = 'e') ∧ signed.2 ≠ [] ∧ signed.2.all Char.isDigit then
      some ((if signed.1 then -1 else 1) * (Nat.ofDigitChars 10 signed.2 0 : ℤ))
    else none

def takeDigits (text : List Char) : List Char × List Char :=
  (text.takeWhile Char.isDigit, text.dropWhile Char.isDigit)

/-- The digits after the point, if there is one, and the rest of the text. -/
def takeFraction : List Char → List Char × List Char
  | '.' :: rest => takeDigits rest
  | rest => ([], rest)

/-- `Decimal(text)` for a finite number: digits with at most one point, then an exponent. -/
def ofChars? (text : List Char) : Option Decimal :=
  let signed := takeSign text
  let int := takeDigits signed.2
  let fraction := takeFraction int.2
  if int.1 = [] ∧ fraction.1 = [] then none
  else (exponent? fraction.2).map fun exp =>
    ⟨signed.1, Nat.ofDigitChars 10 (int.1 ++ fraction.1) 0, exp - fraction.1.length⟩

def ofStr? (text : String) : Option Decimal := ofChars? text.toList

theorem takeDigits_append {digits rest : List Char} (hDigits : ∀ c ∈ digits, c.isDigit)
    (hRest : ∀ c ∈ rest.head?, c.isDigit = false) : takeDigits (digits ++ rest) = (digits, rest) := by
  unfold takeDigits
  rw [List.takeWhile_append_of_pos hDigits, List.dropWhile_append_of_pos hDigits]
  cases rest with
  | nil => simp
  | cons c rest => simp [hRest c rfl]

theorem takeSign_of_digit {c : Char} (hc : c.isDigit) (rest : List Char) :
    takeSign (c :: rest) = (false, c :: rest) := by
  unfold takeSign
  split
  · rename_i h
    rw [(List.cons.inj h).1] at hc
    cases hc
  · rename_i h
    rw [(List.cons.inj h).1] at hc
    cases hc
  · rfl

theorem exponent?_signedChars (n : ℤ) : exponent? ('E' :: signedChars n) = some n := by
  have hDigits : (Nat.toDigits 10 n.natAbs).all Char.isDigit := by
    rw [List.all_eq_true]
    intro c hc
    exact Nat.isDigit_of_mem_toDigits (by decide) (by decide) hc
  have hNil : Nat.toDigits 10 n.natAbs ≠ [] := Nat.toDigits_ne_nil
  unfold signedChars
  by_cases hn : n < 0
  · simp [exponent?, hn, takeSign, hNil, hDigits, abs_of_neg hn]
  · simp [exponent?, hn, takeSign, hNil, hDigits, abs_of_nonneg (not_lt.mp hn)]

/-- The parts around the point hold the same digits, after zeros that do not count. -/
theorem pointed_spec {digits : List Char} (hNil : digits ≠ []) (hDigits : ∀ c ∈ digits, c.isDigit)
    {dotplace : ℤ} (hPlace : dotplace ≤ digits.length) :
    ∃ fraction, (pointed digits dotplace).1 ≠ [] ∧ (∀ c ∈ (pointed digits dotplace).1, c.isDigit) ∧
      (∀ c ∈ fraction, c.isDigit) ∧
      (pointed digits dotplace).2 = (if fraction = [] then [] else '.' :: fraction) ∧
      (fraction.length : ℤ) = digits.length - dotplace ∧
      Nat.ofDigitChars 10 ((pointed digits dotplace).1 ++ fraction) 0 =
        Nat.ofDigitChars 10 digits 0 := by
  unfold pointed
  split_ifs with hZero hAll
  · refine ⟨List.replicate (-dotplace).toNat '0' ++ digits, by simp, by simp, ?_, by simp [hNil], ?_, ?_⟩
    · intro c hc
      rcases List.mem_append.mp hc with hc | hc
      · rw [List.eq_of_mem_replicate hc]
        rfl
      · exact hDigits c hc
    · rw [List.length_append, List.length_replicate]
      push_cast
      omega
    · rw [Nat.ofDigitChars_append, Nat.ofDigitChars_append, Nat.ofDigitChars_replicate_zero]
      rfl
  · have hNone : (dotplace - digits.length).toNat = 0 := by omega
    refine ⟨[], ?_, ?_, by simp, by simp, ?_, ?_⟩
    · simp [hNil]
    · simpa [hNone] using hDigits
    · simp
      omega
    · simp [hNone]
  · have hDrop : digits.drop dotplace.toNat ≠ [] := by
      rw [Ne, List.drop_eq_nil_iff]
      omega
    refine ⟨digits.drop dotplace.toNat, ?_, ?_, ?_, by simp [hDrop], ?_, ?_⟩
    · simp [hNil]
      omega
    · exact fun c hc => hDigits c (List.mem_of_mem_take hc)
    · exact fun c hc => hDigits c (List.mem_of_mem_drop hc)
    · rw [List.length_drop]
      omega
    · rw [List.take_append_drop]

theorem takeSign_signed (negative : Bool) {digits : List Char} (hNil : digits ≠ [])
    (hDigits : ∀ c ∈ digits, c.isDigit) (rest : List Char) :
    takeSign ((if negative then ['-'] else []) ++ (digits ++ rest)) = (negative, digits ++ rest) := by
  cases negative with
  | true => rfl
  | false =>
    obtain ⟨c, tail, rfl⟩ := List.exists_cons_of_ne_nil hNil
    exact takeSign_of_digit (hDigits c List.mem_cons_self) _

/-- Reading a sign, digits, a fraction and an exponent one after the other. -/
theorem ofChars?_parts (negative : Bool) {int fraction exp : List Char} {e : ℤ} (hNil : int ≠ [])
    (hInt : ∀ c ∈ int, c.isDigit) (hFraction : ∀ c ∈ fraction, c.isDigit)
    (hExp : exponent? exp = some e) (hHead : ∀ c ∈ exp.head?, c = 'E') :
    ofChars? ((if negative then ['-'] else []) ++
        (int ++ ((if fraction = [] then [] else '.' :: fraction) ++ exp))) =
      some ⟨negative, Nat.ofDigitChars 10 (int ++ fraction) 0, e - fraction.length⟩ := by
  have hExpHead : ∀ c ∈ exp.head?, c.isDigit = false := by
    intro c hc
    rw [hHead c hc]
    rfl
  have hTail : ∀ c ∈ ((if fraction = [] then [] else '.' :: fraction) ++ exp).head?,
      c.isDigit = false := by
    split_ifs with h
    · exact hExpHead
    · rintro c hc
      cases hc
      rfl
  have hRead : takeFraction ((if fraction = [] then [] else '.' :: fraction) ++ exp) =
      (fraction, exp) := by
    split_ifs with h
    · subst h
      cases exp with
      | nil => rfl
      | cons c rest =>
        obtain rfl := hHead c rfl
        rfl
    · exact takeDigits_append hFraction hExpHead
  unfold ofChars?
  simp only [takeSign_signed negative hNil hInt, takeDigits_append hInt hTail, hRead, hExp, hNil,
    false_and, if_false, Option.map_some]

theorem ofChars?_strChars (d : Decimal) : ofChars? d.strChars = some d := by
  obtain ⟨negative, coefficient, exponent⟩ := d
  unfold strChars
  simp only
  generalize hLeft : exponent + ((Nat.toDigits 10 coefficient).length : ℤ) = leftdigits
  generalize hDot : (if exponent ≤ 0 ∧ -6 < leftdigits then leftdigits else 1) = dotplace
  have hNil : Nat.toDigits 10 coefficient ≠ [] := Nat.toDigits_ne_nil
  have hPos := List.length_pos_iff.mpr hNil
  have hPlace : dotplace ≤ (Nat.toDigits 10 coefficient).length := by
    rw [← hDot]
    split_ifs <;> omega
  obtain ⟨fraction, hIntNil, hInt, hFraction, hPoint, hLength, hValue⟩ :=
    pointed_spec hNil (fun c => Nat.isDigit_of_mem_toDigits (by decide) (by decide)) hPlace
  have hExp : exponent? (if leftdigits = dotplace then [] else
      'E' :: signedChars (leftdigits - dotplace)) = some (leftdigits - dotplace) := by
    split_ifs with h
    · rw [h, sub_self]
      rfl
    · exact exponent?_signedChars _
  have hHead : ∀ c ∈ (if leftdigits = dotplace then [] else
      'E' :: signedChars (leftdigits - dotplace) : List Char).head?, c = 'E' := by
    split_ifs
    · simp
    · simp
  have hExponent : leftdigits - dotplace - (fraction.length : ℤ) = exponent := by omega
  rw [hPoint, ofChars?_parts negative hIntNil hInt hFraction hExp hHead, hValue, hExponent,
    Nat.ofDigitChars_ten_toDigits]

/-- The text of a number reads back as that number, representation included. -/
theorem ofStr?_str (d : Decimal) : ofStr? d.str = some d := by
  unfold ofStr? str
  rw [String.toList_ofList]
  exact ofChars?_strChars d

/-! ## Exact sums -/

def aligned (d : Decimal) (exponent : ℤ) : ℤ :=
  (if d.negative then -1 else 1) * d.coefficient * 10 ^ (d.exponent - exponent).toNat

/-- `Decimal.__add__` when nothing is rounded. A sum of zero is negative only when both
numbers are. -/
protected def add (a b : Decimal) : Decimal :=
  let exponent := min a.exponent b.exponent
  let sum := a.aligned exponent + b.aligned exponent
  ⟨sum < 0 || (sum = 0 && a.negative && b.negative), sum.natAbs, exponent⟩

instance : Add Decimal := ⟨Decimal.add⟩

theorem aligned_value (d : Decimal) {exponent : ℤ} (h : exponent ≤ d.exponent) :
    (d.aligned exponent : ℚ) * 10 ^ exponent = d.value := by
  have hPower : (10 : ℚ) ^ (d.exponent - exponent).toNat * 10 ^ exponent = 10 ^ d.exponent := by
    rw [← zpow_natCast, ← zpow_add₀ (by norm_num : (10 : ℚ) ≠ 0),
      Int.toNat_of_nonneg (sub_nonneg.mpr h), sub_add_cancel]
  unfold aligned value
  push_cast
  rw [mul_assoc, hPower]

theorem add_value (a b : Decimal) : (a + b).value = a.value + b.value := by
  have hSign : ∀ (n : ℤ) (zeros : Bool), (if n < 0 || (n = 0 && zeros) then (-1 : ℚ) else 1) *
      (n.natAbs : ℚ) = n := by
    intro n zeros
    rw [← Int.cast_natCast, Int.natCast_natAbs]
    rcases lt_trichotomy n 0 with hn | rfl | hn
    · simp [hn, abs_of_neg hn]
    · simp
    · simp [not_lt.mpr hn.le, hn.ne', abs_of_pos hn]
  rw [← a.aligned_value (min_le_left a.exponent b.exponent),
    ← b.aligned_value (min_le_right a.exponent b.exponent), ← add_mul, ← Int.cast_add,
    ← hSign _ (a.negative && b.negative), ← Bool.and_assoc]
  rfl

example : (⟨true, 1250, -2⟩ : Decimal).str = "-12.50" := by decide +kernel

example : (⟨false, 5, -9⟩ : Decimal).str = "5E-9" := by decide +kernel

end Decimal

end Futur3.Prelude
