import Futur3.Prelude.Decimal
import Mathlib.Data.List.Basic
import Mathlib.Data.List.TakeWhile

/-! # Numbers read from arbitrary texts

What `str.strip`, `str.split`, `int` and `Decimal` make of a text over a Unicode
database: digits of every script, white space around, underscores between, and
the decimals that are not finite. A text of digits is a whole number exactly
when its digits are decimal.
-/

namespace Futur3.Prelude

/-! ## Characters -/

/-- `str.isspace` of a character. -/
def isSpace (c : Char) : Bool :=
  let n := c.toNat
  (9 ≤ n && n ≤ 13) || (28 ≤ n && n ≤ 32) || n = 133 || n = 160 || n = 5760 ||
    (8192 ≤ n && n ≤ 8202) || n = 8232 || n = 8233 || n = 8239 || n = 8287 || n = 12288

structure UnicodeData where
  /-- The value of a decimal digit. -/
  decimal? : Char → Option ℕ
  /-- `str.isdigit`: decimal digits and others, as superscripts. -/
  isDigit : Char → Bool
  /-- `str.upper`, of one character. -/
  upper : Char → List Char
  decimal_lt : ∀ c, ∀ d ∈ decimal? c, d < 10
  isDigit_of_decimal : ∀ c, (decimal? c).isSome → isDigit c
  decimal_ascii : ∀ c, c.toNat < 128 → (decimal? c).isSome = c.isDigit
  isDigit_ascii : ∀ c, c.toNat < 128 → isDigit c = c.isDigit
  not_isSpace : ∀ c, isDigit c → ¬isSpace c

/-! ## Texts -/

def dropBoth (p : Char → Bool) (text : List Char) : List Char :=
  (((text.dropWhile p).reverse).dropWhile p).reverse

def strip (text : List Char) : List Char := dropBoth isSpace text

def pieces (p : Char → Bool) : List Char → List (List Char)
  | [] => [[]]
  | c :: rest =>
    if p c then [] :: pieces p rest
    else
      match pieces p rest with
      | [] => [[c]]
      | piece :: others => (c :: piece) :: others

/-- `str.split()`. -/
def words (text : List Char) : List (List Char) := (pieces isSpace text).filter (· ≠ [])

/-! ## Whole numbers -/

namespace UnicodeData

variable (U : UnicodeData)

/-- Decimal digits and white space outside of ASCII in their ASCII form, others as `?`. -/
def toAscii (c : Char) : Char :=
  if c.toNat < 127 then c
  else if isSpace c then ' '
  else ((U.decimal? c).map Nat.digitChar).getD '?'

/-- `isspace` of the C locale. -/
def isBlank (c : Char) : Bool := c = ' ' || (9 ≤ c.toNat && c.toNat ≤ 13)

def ungrouped? (text : List Char) : Option (List Char) :=
  let groups := pieces (· = '_') text
  if groups.all fun group => group ≠ [] && group.all Char.isDigit then some groups.flatten else none

/-- `sys.int_info.default_max_str_digits`. -/
def maxStrDigits : ℕ := 4300

/-- `int(text)`; none stands for `ValueError`. -/
def int? (text : List Char) : Option ℤ :=
  let signed := Decimal.takeSign (dropBoth isBlank (text.map U.toAscii))
  (ungrouped? signed.2).bind fun digits =>
    if digits.length ≤ maxStrDigits then
      some ((if signed.1 then -1 else 1) * (Nat.ofDigitChars 10 digits 0 : ℤ))
    else none

variable {U}

theorem isDigit_digitChar : ∀ d < 10, (Nat.digitChar d).isDigit := by decide

theorem toAscii_of_decimal {c : Char} {d : ℕ} (h : U.decimal? c = some d) :
    (U.toAscii c).isDigit := by
  have hSome : (U.decimal? c).isSome := by simp [h]
  have hSpace : isSpace c = false := by simpa using U.not_isSpace c (U.isDigit_of_decimal c hSome)
  unfold toAscii
  rw [hSpace, h]
  split_ifs with hAscii hFalse
  · rw [← U.decimal_ascii c (by omega), hSome]
  · cases hFalse
  · exact isDigit_digitChar d (U.decimal_lt c d h)

theorem toAscii_of_not_decimal {c : Char} (hDigit : U.isDigit c) (h : U.decimal? c = none) :
    U.toAscii c = '?' := by
  have hSpace : isSpace c = false := by simpa using U.not_isSpace c hDigit
  unfold toAscii
  rw [hSpace, h]
  split_ifs with hAscii hFalse
  · have hNone := U.decimal_ascii c (by omega)
    rw [h, ← U.isDigit_ascii c (by omega), hDigit] at hNone
    cases hNone
  · cases hFalse
  · rfl

theorem dropBoth_ne_nil {p : Char → Bool} {c : Char} (hc : p c = false) (rest : List Char) :
    dropBoth p (c :: rest) ≠ [] := by
  have hDrop : (c :: rest).dropWhile p = c :: rest := List.dropWhile_cons_of_neg (by simp [hc])
  intro hNil
  rw [dropBoth, hDrop, List.reverse_eq_nil_iff, List.dropWhile_eq_nil_iff] at hNil
  have hSpace := hNil c (by simp)
  rw [hc] at hSpace
  cases hSpace

theorem dropBoth_of_forall_not {p : Char → Bool} {text : List Char} (h : ∀ c ∈ text, p c = false) :
    dropBoth p text = text := by
  have hDrop : ∀ {xs : List Char}, (∀ c ∈ xs, p c = false) → xs.dropWhile p = xs := by
    intro xs hxs
    cases xs with
    | nil => rfl
    | cons c rest => simp [hxs c List.mem_cons_self]
  unfold dropBoth
  rw [hDrop h, hDrop (fun c hc => h c (List.mem_reverse.mp hc)), List.reverse_reverse]

theorem pieces_of_forall_not {p : Char → Bool} {text : List Char} (h : ∀ c ∈ text, p c = false) :
    pieces p text = [text] := by
  induction text with
  | nil => rfl
  | cons c rest ih =>
    obtain ⟨hc, hRest⟩ := List.forall_mem_cons.mp h
    simp [pieces, hc, ih hRest]

theorem takeSign_of_ne {c : Char} (hMinus : c ≠ '-') (hPlus : c ≠ '+') (rest : List Char) :
    Decimal.takeSign (c :: rest) = (false, c :: rest) := by
  unfold Decimal.takeSign
  split
  · rename_i heq
    exact absurd (List.cons.inj heq).1 hMinus
  · rename_i heq
    exact absurd (List.cons.inj heq).1 hPlus
  · rfl

theorem plain_of_isDigit {c : Char} (h : c.isDigit) :
    isBlank c = false ∧ c ≠ '-' ∧ c ≠ '+' ∧ decide (c = '_') = false := by
  obtain ⟨hLow, hHigh⟩ := Char.isDigit_iff_toNat.mp h
  have hOther : ∀ other : Char, other.toNat < 48 ∨ 57 < other.toNat → c ≠ other := by
    rintro other hRange rfl
    change 48 ≤ c.toNat at hLow
    change c.toNat ≤ 57 at hHigh
    omega
  refine ⟨?_, hOther '-' (by decide), hOther '+' (by decide),
    decide_eq_false (hOther '_' (by decide))⟩
  unfold isBlank
  rw [decide_eq_false (hOther ' ' (by decide)), Bool.false_or, Bool.and_eq_false_iff]
  right
  change 48 ≤ c.toNat at hLow
  exact decide_eq_false (by omega)

/-- A text of digits and question marks has nothing to be cut off. -/
theorem ungrouped?_of_plain {text : List Char} (hNil : text ≠ [])
    (hPlain : ∀ c ∈ text, c.isDigit ∨ c = '?') :
    ungrouped? (Decimal.takeSign (dropBoth isBlank text)).2 =
      if text.all Char.isDigit then some text else none := by
  have hOther : ∀ c ∈ text, isBlank c = false ∧ c ≠ '-' ∧ c ≠ '+' ∧ decide (c = '_') = false := by
    intro c hc
    rcases hPlain c hc with hDigit | rfl
    · exact plain_of_isDigit hDigit
    · decide
  rw [dropBoth_of_forall_not fun c hc => (hOther c hc).1]
  obtain ⟨c, rest, rfl⟩ := List.exists_cons_of_ne_nil hNil
  obtain ⟨-, hMinus, hPlus, -⟩ := hOther c List.mem_cons_self
  rw [takeSign_of_ne hMinus hPlus]
  unfold ungrouped?
  rw [pieces_of_forall_not fun c hc => (hOther c hc).2.2.2]
  simp

/-- A text of digits is a whole number exactly when they are decimal. -/
theorem int?_isSome_iff {text : List Char} (hNil : text ≠ []) (hLength : text.length ≤ maxStrDigits)
    (hDigits : text.all U.isDigit) :
    (U.int? text).isSome ↔ ∀ c ∈ text, (U.decimal? c).isSome := by
  have hPlain : ∀ c ∈ text.map U.toAscii, c.isDigit ∨ c = '?' := by
    rw [List.forall_mem_map]
    intro c hc
    cases h : U.decimal? c with
    | some d => exact Or.inl (toAscii_of_decimal h)
    | none => exact Or.inr (toAscii_of_not_decimal (List.all_eq_true.mp hDigits c hc) h)
  have hAll : (text.map U.toAscii).all Char.isDigit ↔ ∀ c ∈ text, (U.decimal? c).isSome := by
    rw [List.all_map, List.all_eq_true]
    refine forall₂_congr fun c hc => ?_
    cases h : U.decimal? c with
    | some d => simpa using toAscii_of_decimal h
    | none =>
      have hMark := toAscii_of_not_decimal (List.all_eq_true.mp hDigits c hc) h
      simp [hMark]
  have hLength' : (text.map U.toAscii).length ≤ maxStrDigits := by rwa [List.length_map]
  unfold int?
  simp only [ungrouped?_of_plain (by simpa using hNil) hPlain]
  rw [← hAll]
  by_cases hDecimal : (text.map U.toAscii).all Char.isDigit = true
  · rw [if_pos hDecimal, Option.bind_some, if_pos hLength']
    exact iff_of_true rfl hDecimal
  · rw [if_neg hDecimal, Option.bind_none]
    exact iff_of_false Bool.false_ne_true hDecimal

end UnicodeData

/-! ## Decimals -/

inductive Number where
  | finite (d : Decimal)
  | infinite (negative : Bool)
  | nan
deriving DecidableEq

namespace Number

def isFinite : Number → Bool
  | .finite _ => true
  | .infinite _ => false
  | .nan => false

/-- `a < b`; none stands for `InvalidOperation`, which a comparison with NaN raises. -/
def lt? : Number → Number → Option Bool
  | .nan, _ => none
  | _, .nan => none
  | .finite a, .finite b => some (a.value < b.value)
  | .infinite negative, .infinite negative' => some (negative && !negative')
  | .infinite negative, .finite _ => some negative
  | .finite _, .infinite negative => some !negative

end Number

namespace UnicodeData

variable (U : UnicodeData)

/-- The character in ASCII; none is one that no number has. -/
def numericAscii? (c : Char) : Option Char :=
  if 0 < c.toNat ∧ c.toNat < 128 then some c
  else if isSpace c then some ' '
  else (U.decimal? c).map Nat.digitChar

/-- The largest adjusted exponent and the smallest exponent of a decimal read exactly. -/
def maxEmax : ℤ := 999999999999999999

def minEtiny : ℤ := -1999999999999999997

def inRange (d : Decimal) : Bool :=
  minEtiny ≤ d.exponent &&
    d.exponent + (Nat.toDigits 10 d.coefficient).length - 1 ≤ maxEmax

/-- `Decimal(text)`; none stands for `InvalidOperation`. -/
def number? (text : List Char) : Option Number :=
  (((strip text).filter (· ≠ '_')).mapM U.numericAscii?).bind fun ascii =>
    let signed := Decimal.takeSign ascii
    let lower := signed.2.map Char.toLower
    if lower = "inf".toList ∨ lower = "infinity".toList then some (.infinite signed.1)
    else if lower.take 3 = "nan".toList ∧ (lower.drop 3).all Char.isDigit then some .nan
    else if lower.take 4 = "snan".toList ∧ (lower.drop 4).all Char.isDigit then some .nan
    else
      match Decimal.ofChars? ascii with
      | some d => if inRange d then some (.finite d) else none
      | none => none

end UnicodeData

end Futur3.Prelude
