import Mathlib.Data.Int.Notation
import Mathlib.Data.Nat.Notation
import Mathlib.Logic.Function.Basic
import Mathlib.Tactic.TypeStar
import Mathlib.Tactic.SplitIfs

/-! # JSON string literals

The ASCII form of a string: everything outside the printable ASCII range is
written as `\uXXXX`, beyond the basic plane as a pair of surrogates. A reader
of one escaped character shows that the text determines the string.
-/

namespace Futur3.Prelude.JsonText

def shortEscape? (c : Char) : Option Char :=
  if c = '"' then some '"'
  else if c = '\\' then some '\\'
  else if c = '\n' then some 'n'
  else if c = '\r' then some 'r'
  else if c = '\t' then some 't'
  else if c = Char.ofNat 12 then some 'f'
  else if c = Char.ofNat 8 then some 'b'
  else none

def hex4 (n : ℕ) : List Char :=
  [Nat.digitChar (n / 4096 % 16), Nat.digitChar (n / 256 % 16), Nat.digitChar (n / 16 % 16),
    Nat.digitChar (n % 16)]

def unicodeEscape (n : ℕ) : List Char := '\\' :: 'u' :: hex4 n

def escapeChar (c : Char) : List Char :=
  match shortEscape? c with
  | some k => ['\\', k]
  | none =>
    if 32 ≤ c.toNat ∧ c.toNat ≤ 126 then [c]
    else if c.toNat < 65536 then unicodeEscape c.toNat
    else
      unicodeEscape (55296 + (c.toNat - 65536) / 1024) ++
        unicodeEscape (56320 + (c.toNat - 65536) % 1024)

def escape (text : List Char) : List Char := text.flatMap escapeChar

def quote (text : List Char) : List Char := '"' :: (escape text ++ ['"'])

def intText (n : ℤ) : List Char :=
  (if n < 0 then ['-'] else []) ++ Nat.toDigits 10 n.natAbs

def boolText (b : Bool) : List Char := if b then "true".toList else "false".toList

def members : List (String × List Char) → List Char
  | [] => []
  | [(key, value)] => quote key.toList ++ ':' :: ' ' :: value
  | (key, value) :: rest => quote key.toList ++ ':' :: ' ' :: value ++ ',' :: ' ' :: members rest

def object (fields : List (String × List Char)) : List Char :=
  Char.ofNat 123 :: (members fields ++ [Char.ofNat 125])

def array (items : List (List Char)) : List Char :=
  '[' :: (List.intercalate [',', ' '] items ++ [']'])

/-! ## Reading one escaped character -/

def ofShortEscape? (k : Char) : Option Char :=
  if k = 'n' then some '\n'
  else if k = 'r' then some '\r'
  else if k = 't' then some '\t'
  else if k = 'f' then some (Char.ofNat 12)
  else if k = 'b' then some (Char.ofNat 8)
  else if k = 'u' then none
  else some k

def hexValue (c : Char) : ℕ :=
  if c.toNat < 58 then c.toNat - 48 else c.toNat - 87

def hexValue4 (a b c d : Char) : ℕ :=
  hexValue a * 4096 + hexValue b * 256 + hexValue c * 16 + hexValue d

theorem hexValue_digitChar : ∀ n < 16, hexValue (Nat.digitChar n) = n := by
  decide

theorem hexValue4_hex4 {n : ℕ} (h : n < 65536) :
    hexValue4 (Nat.digitChar (n / 4096 % 16)) (Nat.digitChar (n / 256 % 16))
      (Nat.digitChar (n / 16 % 16)) (Nat.digitChar (n % 16)) = n := by
  unfold hexValue4
  rw [hexValue_digitChar _ (by omega), hexValue_digitChar _ (by omega),
    hexValue_digitChar _ (by omega), hexValue_digitChar _ (by omega)]
  omega

/-- The character after `\u`, with the rest of the text. -/
def readUnicode : List Char → Option (Char × List Char)
  | a :: b :: c :: d :: rest =>
    let n := hexValue4 a b c d
    if 55296 ≤ n ∧ n < 56320 then
      match rest with
      | _ :: _ :: a' :: b' :: c' :: d' :: rest' =>
        some (Char.ofNat (65536 + (n - 55296) * 1024 + (hexValue4 a' b' c' d' - 56320)), rest')
      | _ => none
    else some (Char.ofNat n, rest)
  | _ => none

def readEscaped : List Char → Option (Char × List Char)
  | [] => none
  | c :: rest =>
    if c = '"' then none
    else if c = '\\' then
      match rest with
      | [] => none
      | k :: rest' => if k = 'u' then readUnicode rest' else (ofShortEscape? k).map (·, rest')
    else some (c, rest)

theorem readUnicode_hex4 {n : ℕ} (h : n < 65536) (hPlain : ¬(55296 ≤ n ∧ n < 56320))
    (rest : List Char) : readUnicode (hex4 n ++ rest) = some (Char.ofNat n, rest) := by
  simp only [hex4, List.cons_append, List.nil_append, readUnicode, hexValue4_hex4 h, if_neg hPlain]

theorem readUnicode_pair {n : ℕ} (hLow : 65536 ≤ n) (hHigh : n < 1114112) (rest : List Char) :
    readUnicode (hex4 (55296 + (n - 65536) / 1024) ++
      (unicodeEscape (56320 + (n - 65536) % 1024) ++ rest)) = some (Char.ofNat n, rest) := by
  have hFirst : 55296 + (n - 65536) / 1024 < 65536 := by omega
  have hSecond : 56320 + (n - 65536) % 1024 < 65536 := by omega
  have hPair : 55296 ≤ 55296 + (n - 65536) / 1024 ∧ 55296 + (n - 65536) / 1024 < 56320 := by omega
  have hSum : 65536 + (55296 + (n - 65536) / 1024 - 55296) * 1024 +
      (56320 + (n - 65536) % 1024 - 56320) = n := by omega
  simp only [hex4, unicodeEscape, List.cons_append, List.nil_append, readUnicode,
    hexValue4_hex4 hFirst, hexValue4_hex4 hSecond, if_pos hPair, hSum]

theorem readEscaped_short {c k : Char} (h : shortEscape? c = some k) (rest : List Char) :
    readEscaped ('\\' :: k :: rest) = some (c, rest) := by
  unfold shortEscape? at h
  split_ifs at h <;> (cases h; subst c; rfl)

theorem readEscaped_unicode (n : ℕ) (rest : List Char) :
    readEscaped (unicodeEscape n ++ rest) = readUnicode (hex4 n ++ rest) := by
  rw [unicodeEscape, List.cons_append, List.cons_append, readEscaped]
  rfl

theorem toNat_bounds (c : Char) : c.toNat < 55296 ∨ (57343 < c.toNat ∧ c.toNat < 1114112) :=
  c.valid

theorem readEscaped_escapeChar (c : Char) (rest : List Char) :
    readEscaped (escapeChar c ++ rest) = some (c, rest) := by
  have hBounds := toNat_bounds c
  cases hShort : shortEscape? c with
  | some k =>
    rw [escapeChar, hShort]
    exact readEscaped_short hShort rest
  | none =>
    have hQuote : ¬c = '"' := by
      rintro rfl
      cases hShort
    have hSlash : ¬c = '\\' := by
      rintro rfl
      cases hShort
    simp only [escapeChar, hShort]
    split
    · simp only [List.singleton_append, readEscaped, if_neg hQuote, if_neg hSlash]
    · split
      · rw [readEscaped_unicode, readUnicode_hex4 (by omega) (by omega), Char.ofNat_toNat]
      · rw [List.append_assoc, readEscaped_unicode, readUnicode_pair (by omega) (by omega),
          Char.ofNat_toNat]

theorem readEscaped_quote (rest : List Char) : readEscaped ('"' :: rest) = none := rfl

/-- An escaped text ends at the first closing quotation mark, and determines the string. -/
theorem escape_append_inj {xs ys rest rest' : List Char}
    (h : escape xs ++ '"' :: rest = escape ys ++ '"' :: rest') : xs = ys ∧ rest = rest' := by
  induction xs generalizing ys with
  | nil =>
    cases ys with
    | nil =>
      cases h
      exact ⟨rfl, rfl⟩
    | cons d ys =>
      have hRead := congrArg readEscaped h
      simp [escape, readEscaped_escapeChar, readEscaped_quote] at hRead
  | cons c xs ih =>
    cases ys with
    | nil =>
      have hRead := congrArg readEscaped h
      simp [escape, readEscaped_escapeChar, readEscaped_quote] at hRead
    | cons d ys =>
      have hRead := congrArg readEscaped h
      simp only [escape, List.flatMap_cons, List.append_assoc, readEscaped_escapeChar,
        Option.some.injEq, Prod.mk.injEq] at hRead
      obtain ⟨rfl, hRest⟩ := hRead
      obtain ⟨rfl, rfl⟩ := ih hRest
      exact ⟨rfl, rfl⟩

theorem quote_append_inj {xs ys rest rest' : List Char}
    (h : quote xs ++ rest = quote ys ++ rest') : xs = ys ∧ rest = rest' := by
  simp only [quote, List.cons_append, List.append_assoc, List.nil_append, List.cons.injEq,
    true_and] at h
  exact escape_append_inj h

/-! ## Numbers and literals -/

theorem toDigits_injective : Function.Injective (Nat.toDigits 10) := by
  intro m n h
  calc
    m = Nat.ofDigitChars 10 (Nat.toDigits 10 m) 0 := Nat.ofDigitChars_ten_toDigits.symm
    _ = Nat.ofDigitChars 10 (Nat.toDigits 10 n) 0 := by rw [h]
    _ = n := Nat.ofDigitChars_ten_toDigits

theorem isDigit_of_mem_intText {n : ℤ} {c : Char} (h : c ∈ intText n) : c = '-' ∨ c.isDigit := by
  unfold intText at h
  rcases List.mem_append.mp h with h | h
  · split_ifs at h with hNeg
    · exact Or.inl (List.mem_singleton.mp h)
    · cases h
  · exact Or.inr (Nat.isDigit_of_mem_toDigits (by decide) (by decide) h)

theorem intText_injective : Function.Injective intText := by
  intro m n h
  have hHead : ∀ k : ℕ, ∀ rest, Nat.toDigits 10 k ≠ '-' :: rest := by
    intro k rest hk
    have hDigit : '-' ∈ Nat.toDigits 10 k := by
      rw [hk]
      exact List.mem_cons_self
    exact absurd (Nat.isDigit_of_mem_toDigits (by decide) (by decide) hDigit) (by decide)
  unfold intText at h
  split_ifs at h with hm hn hn
  · have hAbs := toDigits_injective (List.cons.inj h).2
    omega
  · exact absurd h.symm (hHead _ _)
  · exact absurd h (hHead _ _)
  · have hAbs := toDigits_injective h
    omega

theorem boolText_injective : Function.Injective boolText := by
  intro a b h
  revert h
  cases a <;> cases b <;> decide

/-! ## Every text is printable ASCII -/

def Printable (c : Char) : Prop := 32 ≤ c.toNat ∧ c.toNat ≤ 126

instance : DecidablePred Printable := fun _ => inferInstanceAs (Decidable (_ ∧ _))

theorem printable_digitChar : ∀ n < 16, Printable (Nat.digitChar n) := by
  decide

theorem printable_unicodeEscape (n : ℕ) : ∀ c ∈ unicodeEscape n, Printable c := by
  have hDigit : ∀ k, Printable (Nat.digitChar (k % 16)) :=
    fun k => printable_digitChar _ (Nat.mod_lt k (by decide))
  simp only [unicodeEscape, hex4, List.forall_mem_cons]
  exact ⟨by decide, by decide, hDigit _, hDigit _, hDigit _, hDigit _, fun _ h => absurd h List.not_mem_nil⟩

theorem printable_shortEscape {c k : Char} (h : shortEscape? c = some k) : Printable k := by
  unfold shortEscape? at h
  split_ifs at h <;> (cases h; decide)

theorem printable_escapeChar (c : Char) : ∀ d ∈ escapeChar c, Printable d := by
  intro d hd
  unfold escapeChar at hd
  cases hShort : shortEscape? c with
  | some k =>
    simp only [hShort, List.mem_cons, List.not_mem_nil, or_false] at hd
    obtain rfl | rfl := hd
    · decide
    · exact printable_shortEscape hShort
  | none =>
    simp only [hShort] at hd
    split_ifs at hd with hPrint hPlane
    · rw [List.mem_singleton.mp hd]
      exact hPrint
    · exact printable_unicodeEscape _ d hd
    · obtain hd | hd := List.mem_append.mp hd
      · exact printable_unicodeEscape _ d hd
      · exact printable_unicodeEscape _ d hd

theorem printable_quote (text : List Char) : ∀ c ∈ quote text, Printable c := by
  have hMark : Printable '"' := by decide
  have hText : ∀ c ∈ escape text, Printable c := by
    intro c hc
    obtain ⟨d, -, hd⟩ := List.mem_flatMap.mp hc
    exact printable_escapeChar d c hd
  simp only [quote, List.forall_mem_cons, List.forall_mem_append]
  exact ⟨hMark, hText, hMark, fun _ h => absurd h List.not_mem_nil⟩

theorem printable_of_isDigit {c : Char} (h : c.isDigit) : Printable c := by
  simp only [Char.isDigit, Bool.and_eq_true, decide_eq_true_eq, ge_iff_le, UInt32.le_iff_toNat_le] at h
  exact ⟨Nat.le_trans (by decide) h.1, Nat.le_trans h.2 (by decide)⟩

theorem printable_intText (n : ℤ) : ∀ c ∈ intText n, Printable c := by
  intro c hc
  obtain rfl | hDigit := isDigit_of_mem_intText hc
  · decide
  · exact printable_of_isDigit hDigit

theorem printable_boolText (b : Bool) : ∀ c ∈ boolText b, Printable c := by
  cases b <;> simp [boolText, Printable]

theorem printable_members {fields : List (String × List Char)}
    (h : ∀ f ∈ fields, ∀ c ∈ f.2, Printable c) : ∀ c ∈ members fields, Printable c := by
  have hColon : Printable ':' := by decide
  have hComma : Printable ',' := by decide
  have hSpace : Printable ' ' := by decide
  induction fields with
  | nil => exact fun c hc => absurd hc List.not_mem_nil
  | cons field rest ih =>
    obtain ⟨hValue, hOthers⟩ := List.forall_mem_cons.mp h
    cases rest with
    | nil =>
      simp only [members, List.forall_mem_append, List.forall_mem_cons]
      exact ⟨printable_quote _, hColon, hSpace, hValue⟩
    | cons next rest =>
      simp only [members, List.forall_mem_append, List.forall_mem_cons]
      exact ⟨⟨printable_quote _, hColon, hSpace, hValue⟩, hComma, hSpace, ih hOthers⟩

theorem printable_object {fields : List (String × List Char)}
    (h : ∀ f ∈ fields, ∀ c ∈ f.2, Printable c) : ∀ c ∈ object fields, Printable c := by
  simp only [object, List.forall_mem_cons, List.forall_mem_append]
  exact ⟨by decide, printable_members h, by decide, fun _ h => absurd h List.not_mem_nil⟩

end Futur3.Prelude.JsonText
