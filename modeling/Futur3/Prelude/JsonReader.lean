import Futur3.Prelude.JsonText
import Futur3.Prelude.Numerals

/-! # A JSON reader

What `json.loads` makes of a text. Each reader returns what it read and the rest
of the text; nested values are read with fuel, one more than the text is long. A
flat object reads back as the members it was written from.
-/

namespace Futur3.Prelude

inductive Json where
  | null
  | bool (b : Bool)
  | int (n : ℤ)
  /-- A number with a fraction or an exponent, or one of the three that are no numbers. -/
  | float (text : List Char)
  | str (text : List Char)
  | array (items : List Json)
  | object (members : List (List Char × Json))

namespace JsonReader

def skip (text : List Char) : List Char :=
  text.dropWhile fun c => c = ' ' || c = '\t' || c = '\n' || c = '\r'

/-! ## Strings -/

def hexDigit? (c : Char) : Option ℕ :=
  if 48 ≤ c.toNat ∧ c.toNat ≤ 57 then some (c.toNat - 48)
  else if 97 ≤ c.toNat ∧ c.toNat ≤ 102 then some (c.toNat - 87)
  else if 65 ≤ c.toNat ∧ c.toNat ≤ 70 then some (c.toNat - 55)
  else none

def codeUnit? : List Char → Option (ℕ × List Char)
  | a :: b :: c :: d :: rest => do
    let a ← hexDigit? a
    let b ← hexDigit? b
    let c ← hexDigit? c
    let d ← hexDigit? d
    some (a * 4096 + b * 256 + c * 16 + d, rest)
  | _ => none

/-- The character after `\u`. A surrogate without its partner is no character. -/
def unicode? (text : List Char) : Option (Char × List Char) := do
  let (high, rest) ← codeUnit? text
  if 55296 ≤ high ∧ high < 56320 then
    match rest with
    | '\\' :: 'u' :: rest => do
      let (low, rest) ← codeUnit? rest
      if 56320 ≤ low ∧ low < 57344 then
        some (Char.ofNat (65536 + (high - 55296) * 1024 + (low - 56320)), rest)
      else none
    | _ => none
  else if 56320 ≤ high ∧ high < 57344 then none
  else some (Char.ofNat high, rest)

def ofEscape? (k : Char) : Option Char :=
  if k = '"' ∨ k = '\\' ∨ k = '/' then some k
  else if k = 'b' then some (Char.ofNat 8)
  else if k = 'f' then some (Char.ofNat 12)
  else if k = 'n' then some '\n'
  else if k = 'r' then some '\r'
  else if k = 't' then some '\t'
  else none

/-- One character of a string, escaped or not; control characters have to be escaped. -/
def character? : List Char → Option (Char × List Char)
  | [] => none
  | '\\' :: [] => none
  | '\\' :: k :: rest => if k = 'u' then unicode? rest else (ofEscape? k).map (·, rest)
  | c :: rest => if c.toNat < 32 then none else some (c, rest)

def stringBody : ℕ → List Char → Option (List Char × List Char)
  | 0, _ => none
  | fuel + 1, text =>
    if text.head? = some '"' then some ([], text.tail)
    else do
      let (c, rest) ← character? text
      let (tail, rest) ← stringBody fuel rest
      some (c :: tail, rest)

def string? : List Char → Option (List Char × List Char)
  | '"' :: rest => stringBody rest.length rest
  | _ => none

/-! ## Numbers and literals -/

def takeMinus : List Char → List Char × List Char
  | '-' :: rest => (['-'], rest)
  | text => ([], text)

/-- A zero, or digits that begin with another one. -/
def wholeDigits : List Char → List Char × List Char
  | '0' :: rest => (['0'], rest)
  | text => Decimal.takeDigits text

def pointPart : List Char → List Char × List Char
  | '.' :: rest =>
    let digits := Decimal.takeDigits rest
    if digits.1 = [] then ([], '.' :: rest) else ('.' :: digits.1, digits.2)
  | text => ([], text)

def exponentPart : List Char → List Char × List Char
  | [] => ([], [])
  | e :: rest =>
    let sign := if rest.head? = some '-' ∨ rest.head? = some '+' then rest.take 1 else []
    let digits := Decimal.takeDigits (rest.drop sign.length)
    if (e = 'e' ∨ e = 'E') ∧ digits.1 ≠ [] then (e :: sign ++ digits.1, digits.2) else ([], e :: rest)

def number? (text : List Char) : Option (Json × List Char) :=
  let minus := takeMinus text
  let whole := wholeDigits minus.2
  let point := pointPart whole.2
  let exponent := exponentPart point.2
  if whole.1 = [] then none
  else if point.1 = [] ∧ exponent.1 = [] then
    if whole.1.length ≤ UnicodeData.maxStrDigits then
      some (.int ((if minus.1 = [] then 1 else -1) * (Nat.ofDigitChars 10 whole.1 0 : ℤ)), exponent.2)
    else none
  else some (.float (minus.1 ++ whole.1 ++ point.1 ++ exponent.1), exponent.2)

def literals : List (List Char × Json) :=
  [("null".toList, .null), ("true".toList, .bool true), ("false".toList, .bool false),
    ("NaN".toList, .float "NaN".toList), ("Infinity".toList, .float "Infinity".toList),
    ("-Infinity".toList, .float "-Infinity".toList)]

def literal? (text : List Char) : Option (Json × List Char) :=
  literals.findSome? fun word =>
    if word.1.isPrefixOf text then some (word.2, text.drop word.1.length) else none

/-! ## Values -/

def scalar? (text : List Char) : Option (Json × List Char) :=
  if text.head? = some '"' then (string? text).map fun read => (.str read.1, read.2)
  else (literal? text).or (number? text)

mutual

def value? : ℕ → List Char → Option (Json × List Char)
  | 0, _ => none
  | fuel + 1, text =>
    if text.head? = some (Char.ofNat 123) then
      let inside := skip text.tail
      if inside.head? = some (Char.ofNat 125) then some (.object [], inside.tail)
      else (members? fuel inside).map fun read => (.object read.1, read.2)
    else if text.head? = some '[' then
      let inside := skip text.tail
      if inside.head? = some ']' then some (.array [], inside.tail)
      else (items? fuel inside).map fun read => (.array read.1, read.2)
    else scalar? text

def members? : ℕ → List Char → Option (List (List Char × Json) × List Char)
  | 0, _ => none
  | fuel + 1, text => do
    let (key, rest) ← string? text
    let rest := skip rest
    if rest.head? = some ':' then
      let (value, rest) ← value? fuel (skip rest.tail)
      let rest := skip rest
      if rest.head? = some (Char.ofNat 125) then some ([(key, value)], rest.tail)
      else if rest.head? = some ',' then
        (members? fuel (skip rest.tail)).map fun read => ((key, value) :: read.1, read.2)
      else none
    else none

def items? : ℕ → List Char → Option (List Json × List Char)
  | 0, _ => none
  | fuel + 1, text => do
    let (value, rest) ← value? fuel text
    let rest := skip rest
    if rest.head? = some ']' then some ([value], rest.tail)
    else if rest.head? = some ',' then
      (items? fuel (skip rest.tail)).map fun read => (value :: read.1, read.2)
    else none

end

/-- `json.loads(text)`; none stands for `ValueError`. -/
def loads (text : List Char) : Option Json := do
  let (value, rest) ← value? (text.length + 1) (skip text)
  if skip rest = [] then some value else none

/-! ## Strings read back -/

open JsonText

theorem hexDigit?_digitChar : ∀ n < 16, hexDigit? (Nat.digitChar n) = some n := by
  decide

theorem codeUnit?_hex4 {n : ℕ} (h : n < 65536) (rest : List Char) :
    codeUnit? (hex4 n ++ rest) = some (n, rest) := by
  have hSum : n / 4096 % 16 * 4096 + n / 256 % 16 * 256 + n / 16 % 16 * 16 + n % 16 = n := by omega
  simp only [hex4, List.cons_append, List.nil_append, codeUnit?,
    hexDigit?_digitChar _ (Nat.mod_lt _ (by decide : 0 < 16)), Option.bind_eq_bind,
    Option.bind_some, hSum]

theorem unicode?_plain {n : ℕ} (h : n < 65536) (hPlain : n < 55296 ∨ 57344 ≤ n) (rest : List Char) :
    unicode? (hex4 n ++ rest) = some (Char.ofNat n, rest) := by
  simp only [unicode?, codeUnit?_hex4 h, Option.bind_eq_bind, Option.bind_some]
  rw [if_neg (by omega), if_neg (by omega)]

theorem unicode?_surrogates {high low : ℕ} (hHigh : 55296 ≤ high ∧ high < 56320)
    (hLow : 56320 ≤ low ∧ low < 57344) (rest : List Char) :
    unicode? (hex4 high ++ (unicodeEscape low ++ rest)) =
      some (Char.ofNat (65536 + (high - 55296) * 1024 + (low - 56320)), rest) := by
  have hFirst : high < 65536 := by omega
  have hSecond : low < 65536 := by omega
  simp only [unicode?, unicodeEscape, List.cons_append, codeUnit?_hex4 hFirst, codeUnit?_hex4 hSecond,
    Option.bind_eq_bind, Option.bind_some, if_pos hHigh, if_pos hLow]

theorem unicode?_pair {n : ℕ} (hLow : 65536 ≤ n) (hHigh : n < 1114112) (rest : List Char) :
    unicode? (hex4 (55296 + (n - 65536) / 1024) ++
      (unicodeEscape (56320 + (n - 65536) % 1024) ++ rest)) = some (Char.ofNat n, rest) := by
  have hSum : 65536 + (55296 + (n - 65536) / 1024 - 55296) * 1024 +
      (56320 + (n - 65536) % 1024 - 56320) = n := by omega
  rw [unicode?_surrogates (by omega) (by omega), hSum]

theorem ofEscape?_of_shortEscape? {c k : Char} (h : shortEscape? c = some k) :
    k ≠ 'u' ∧ ofEscape? k = some c := by
  unfold shortEscape? at h
  split_ifs at h <;> (cases h; subst c; decide)

theorem character?_escapeChar (c : Char) (rest : List Char) :
    character? (escapeChar c ++ rest) = some (c, rest) := by
  have hBounds := toNat_bounds c
  cases hShort : shortEscape? c with
  | some k =>
    obtain ⟨hk, hEscape⟩ := ofEscape?_of_shortEscape? hShort
    simp [escapeChar, hShort, character?, hk, hEscape]
  | none =>
    have hSlash : c ≠ '\\' := by
      rintro rfl
      cases hShort
    simp only [escapeChar, hShort]
    split_ifs with hPrint hPlane
    · simp [character?, hSlash, hPrint.1]
    · rw [unicodeEscape, List.cons_append, List.cons_append, character?, if_pos rfl,
        unicode?_plain hPlane (by omega), Char.ofNat_toNat]
    · rw [List.append_assoc, unicodeEscape, List.cons_append, List.cons_append, character?,
        if_pos rfl, unicode?_pair (by omega) (by omega), Char.ofNat_toNat]

theorem escapeChar_head (c : Char) : ∃ first rest, escapeChar c = first :: rest ∧ first ≠ '"' := by
  cases hShort : shortEscape? c with
  | some k => exact ⟨'\\', [k], by simp [escapeChar, hShort], by decide⟩
  | none =>
    have hQuote : c ≠ '"' := by
      rintro rfl
      cases hShort
    simp only [escapeChar, hShort]
    split_ifs
    · exact ⟨c, [], rfl, hQuote⟩
    · exact ⟨'\\', _, rfl, by decide⟩
    · exact ⟨'\\', _, rfl, by decide⟩

theorem stringBody_escape (text rest : List Char) {fuel : ℕ} (hFuel : text.length < fuel) :
    stringBody fuel (escape text ++ '"' :: rest) = some (text, rest) := by
  induction text generalizing fuel with
  | nil =>
    obtain ⟨fuel, rfl⟩ := Nat.exists_eq_add_one_of_ne_zero (Nat.ne_of_gt hFuel)
    rfl
  | cons c text ih =>
    obtain ⟨fuel, rfl⟩ := Nat.exists_eq_add_one_of_ne_zero (Nat.ne_zero_of_lt hFuel)
    have hRest := ih (by simpa using hFuel : text.length < fuel)
    obtain ⟨first, others, hHead, hQuote⟩ := escapeChar_head c
    have hChar := character?_escapeChar c (escape text ++ '"' :: rest)
    simp only [escape, List.flatMap_cons, List.append_assoc] at hChar hRest ⊢
    rw [stringBody, if_neg (by simp [hHead, hQuote]), hChar]
    simp [hRest]

theorem length_le_length_escape (text : List Char) : text.length ≤ (escape text).length := by
  induction text with
  | nil => exact le_rfl
  | cons c text ih =>
    obtain ⟨first, others, hHead, -⟩ := escapeChar_head c
    simp only [escape, List.flatMap_cons, hHead, List.length_append, List.length_cons] at ih ⊢
    omega

theorem string?_quote (text rest : List Char) : string? (quote text ++ rest) = some (text, rest) := by
  have hLength := length_le_length_escape text
  rw [quote, List.cons_append, List.append_assoc, List.singleton_append, string?]
  apply stringBody_escape
  simp only [List.length_append, List.length_cons]
  omega

/-! ## Numbers and literals read back -/

/-- The text cannot go on a number. -/
def Apart (rest : List Char) : Prop :=
  ∀ c ∈ rest.head?, c.isDigit = false ∧ c ≠ '.' ∧ c ≠ 'e' ∧ c ≠ 'E'

theorem digitChar_ne_zero : ∀ n < 10, 0 < n → Nat.digitChar n ≠ '0' := by
  decide

theorem toDigits_head {n : ℕ} (hn : 0 < n) : ∃ c rest, Nat.toDigits 10 n = c :: rest ∧ c ≠ '0' := by
  induction n using Nat.strongRecOn with
  | ind n ih =>
    rcases Nat.lt_or_ge n 10 with hLt | hGe
    · exact ⟨_, [], Nat.toDigits_of_lt_base hLt, digitChar_ne_zero n hLt hn⟩
    · obtain ⟨c, rest, hDigits, hc⟩ := ih (n / 10) (by omega) (by omega)
      exact ⟨c, rest ++ [Nat.digitChar (n % 10)],
        by rw [Nat.toDigits_of_base_le (by decide) hGe, hDigits, List.cons_append], hc⟩

theorem wholeDigits_toDigits (n : ℕ) {rest : List Char} (hRest : Apart rest) :
    wholeDigits (Nat.toDigits 10 n ++ rest) = (Nat.toDigits 10 n, rest) := by
  rcases Nat.eq_zero_or_pos n with rfl | hn
  · rfl
  · obtain ⟨c, others, hDigits, hc⟩ := toDigits_head hn
    have hTake := Decimal.takeDigits_append
      (fun c => Nat.isDigit_of_mem_toDigits (c := c) (n := n) (by decide) (by decide : 10 ≤ 10))
      fun c h => (hRest c h).1
    rw [hDigits] at hTake ⊢
    rw [← hTake, List.cons_append]
    exact wholeDigits.eq_2 _ (fun _ h => hc (List.cons.inj h).1)

theorem pointPart_of_apart {rest : List Char} (hRest : Apart rest) : pointPart rest = ([], rest) := by
  cases rest with
  | nil => rfl
  | cons c rest =>
    exact pointPart.eq_2 _ (fun _ h => (hRest c rfl).2.1 (List.cons.inj h).1)

theorem exponentPart_of_apart {rest : List Char} (hRest : Apart rest) :
    exponentPart rest = ([], rest) := by
  cases rest with
  | nil => rfl
  | cons c rest =>
    obtain ⟨-, -, hLower, hUpper⟩ := hRest c rfl
    simp [exponentPart, hLower, hUpper]

theorem toDigits_cons (n : ℕ) : ∃ c rest, Nat.toDigits 10 n = c :: rest ∧ c.isDigit := by
  obtain ⟨c, rest, hDigits⟩ := List.exists_cons_of_ne_nil (Nat.toDigits_ne_nil (n := n) (b := 10))
  refine ⟨c, rest, hDigits, ?_⟩
  apply Nat.isDigit_of_mem_toDigits (b := 10) (n := n) (by decide) (by decide)
  rw [hDigits]
  exact List.mem_cons_self

theorem takeMinus_intText (n : ℤ) (rest : List Char) :
    takeMinus (intText n ++ rest) =
      (if n < 0 then ['-'] else [], Nat.toDigits 10 n.natAbs ++ rest) := by
  unfold intText
  split_ifs with hn
  · rfl
  · obtain ⟨c, others, hDigits, hc⟩ := toDigits_cons n.natAbs
    rw [hDigits]
    exact takeMinus.eq_2 _ fun _ h => by
      rw [(List.cons.inj h).1] at hc
      cases hc

theorem number?_intText {n : ℤ} (hSize : (Nat.toDigits 10 n.natAbs).length ≤ UnicodeData.maxStrDigits)
    {rest : List Char} (hRest : Apart rest) : number? (intText n ++ rest) = some (.int n, rest) := by
  have hSign : (if (if n < 0 then ['-'] else []) = ([] : List Char) then (1 : ℤ) else -1) *
      n.natAbs = n := by
    rcases lt_or_ge n 0 with hn | hn
    · simp [hn, abs_of_neg hn]
    · simp [not_lt.mpr hn, abs_of_nonneg hn]
  simp only [number?, takeMinus_intText, wholeDigits_toDigits _ hRest, pointPart_of_apart hRest,
    exponentPart_of_apart hRest, Nat.toDigits_ne_nil, Nat.ofDigitChars_ten_toDigits, hSign, hSize,
    if_false, if_true, and_self]

/-! ## Objects read back -/

/-- The text of a value, wherever it stands in a longer text. -/
structure Reads (json : Json) (text : List Char) : Prop where
  start : ∀ rest, skip (text ++ rest) = text ++ rest
  value : ∀ fuel rest, Apart rest → value? (fuel + 1) (text ++ rest) = some (json, rest)

theorem skip_of_head {c : Char} {rest : List Char} (hc : c ∉ [' ', '\t', '\n', '\r']) :
    skip (c :: rest) = c :: rest := by
  simp only [List.mem_cons, List.not_mem_nil, or_false, not_or] at hc
  simp [skip, hc]

theorem skip_space (rest : List Char) : skip (' ' :: rest) = skip rest := by
  simp [skip]

def openers : List Char := [' ', '\t', '\n', '\r', Char.ofNat 123, '[']

theorem Reads.of_scalar {json : Json} {c : Char} {others : List Char} (hc : c ∉ openers)
    (hRead : ∀ rest, Apart rest → scalar? (c :: others ++ rest) = some (json, rest)) :
    Reads json (c :: others) := by
  simp only [openers, List.mem_cons, List.not_mem_nil, or_false, not_or] at hc
  obtain ⟨hSpace, hTab, hLine, hReturn, hBrace, hBracket⟩ := hc
  refine ⟨fun rest => skip_of_head (by simp [*]), fun fuel rest hRest => ?_⟩
  rw [value?, if_neg (by simpa using hBrace), if_neg (by simpa using hBracket), hRead rest hRest]

theorem reads_quote (text : List Char) : Reads (.str text) (quote text) := by
  apply Reads.of_scalar (by decide)
  intro rest _
  have hRead := string?_quote text rest
  rw [quote] at hRead
  rw [scalar?, hRead]
  rfl

theorem reads_null : Reads .null "null".toList := by
  apply Reads.of_scalar (by decide)
  intro rest _
  rfl

theorem reads_boolText (b : Bool) : Reads (.bool b) (boolText b) := by
  cases b with
  | false =>
    apply Reads.of_scalar (by decide)
    intro rest _
    rfl
  | true =>
    apply Reads.of_scalar (by decide)
    intro rest _
    rfl

def marks : List Char := openers ++ ['"', 'n', 't', 'f', 'N', 'I']

theorem not_mem_marks_of_isDigit {c : Char} (hc : c.isDigit) : c ∉ marks := by
  intro hMem
  have hNot : marks.all fun k => !k.isDigit := by decide
  rw [List.all_eq_true] at hNot
  simpa [hc] using hNot c hMem

theorem scalar?_intText (n : ℤ) (rest : List Char) :
    scalar? (intText n ++ rest) = number? (intText n ++ rest) := by
  obtain ⟨c, others, hDigits, hc⟩ := toDigits_cons n.natAbs
  have hMarks := not_mem_marks_of_isDigit hc
  have hMinus : '-' ≠ c := by
    rintro rfl
    cases hc
  simp only [marks, List.mem_append, List.mem_cons, List.not_mem_nil, or_false, not_or] at hMarks
  obtain ⟨-, hQuote, hNull, hTrue, hFalse, hNan, hInfinity⟩ := hMarks
  have hLiteral : literal? (intText n ++ rest) = none := by
    unfold intText
    split_ifs <;> simp [literal?, literals, hDigits, Ne.symm hNull, Ne.symm hTrue, Ne.symm hFalse,
      Ne.symm hNan, Ne.symm hInfinity, hMinus]
  have hHead : (intText n ++ rest).head? ≠ some '"' := by
    unfold intText
    split_ifs <;> simp [hDigits, hQuote]
  rw [scalar?, if_neg hHead, hLiteral, Option.none_or]

theorem reads_intText {n : ℤ} (hSize : (Nat.toDigits 10 n.natAbs).length ≤ UnicodeData.maxStrDigits) :
    Reads (.int n) (intText n) := by
  cases hText : intText n with
  | nil => simp [intText, Nat.toDigits_ne_nil] at hText
  | cons c others =>
    have hMarks : c ∉ marks := by
      rcases isDigit_of_mem_intText (hText ▸ List.mem_cons_self : c ∈ intText n) with rfl | hc
      · decide
      · exact not_mem_marks_of_isDigit hc
    apply Reads.of_scalar fun hMem => hMarks (List.mem_append_left _ hMem)
    intro rest hRest
    rw [← hText, scalar?_intText, number?_intText hSize hRest]

section Flat

theorem members?_member {json : Json} {text : List Char} (h : Reads json text) (key : List Char)
    {fuel : ℕ} {tail : List Char} (hTail : Apart tail) :
    members? (fuel + 2) (quote key ++ ':' :: ' ' :: (text ++ tail)) =
      if (skip tail).head? = some (Char.ofNat 125) then some ([(key, json)], (skip tail).tail)
      else if (skip tail).head? = some ',' then
        (members? (fuel + 1) (skip (skip tail).tail)).map fun read => ((key, json) :: read.1, read.2)
      else none := by
  have hColon : skip (':' :: ' ' :: (text ++ tail)) = ':' :: ' ' :: (text ++ tail) :=
    skip_of_head (by decide)
  rw [members?, string?_quote]
  simp only [Option.bind_eq_bind, Option.bind_some, hColon, List.head?_cons, if_true, List.tail_cons,
    skip_space, h.start, h.value fuel tail hTail]

variable {fields : List (String × Json × List Char)}

theorem apart_brace (rest : List Char) : Apart (Char.ofNat 125 :: rest) := by
  rintro c ⟨⟩
  decide

theorem apart_comma (rest : List Char) : Apart (',' :: rest) := by
  rintro c ⟨⟩
  decide

theorem members_cons (hNil : fields ≠ []) :
    ∃ tail, members (fields.map fun f => (f.1, f.2.2)) = '"' :: tail := by
  cases fields with
  | nil => exact absurd rfl hNil
  | cons field others =>
    cases others with
    | nil => exact ⟨_, rfl⟩
    | cons next others => exact ⟨_, rfl⟩

theorem skip_members (hNil : fields ≠ []) (rest : List Char) :
    skip (members (fields.map fun f => (f.1, f.2.2)) ++ rest) =
      members (fields.map fun f => (f.1, f.2.2)) ++ rest := by
  obtain ⟨tail, hTail⟩ := members_cons hNil
  rw [hTail]
  exact skip_of_head (by decide)

theorem members?_members (hFields : ∀ f ∈ fields, Reads f.2.1 f.2.2) (hNil : fields ≠ []) {fuel : ℕ}
    (hFuel : fields.length < fuel) (rest : List Char) :
    members? fuel (members (fields.map fun f => (f.1, f.2.2)) ++ Char.ofNat 125 :: rest) =
      some (fields.map fun f => (f.1.toList, f.2.1), rest) := by
  induction fields generalizing fuel with
  | nil => exact absurd rfl hNil
  | cons field others ih =>
    obtain ⟨fuel, rfl⟩ : ∃ k, fuel = k + 2 :=
      ⟨fuel - 2, by rw [List.length_cons] at hFuel; omega⟩
    have hField := hFields field List.mem_cons_self
    cases others with
    | nil =>
      have hBrace : skip (Char.ofNat 125 :: rest) = Char.ofNat 125 :: rest := skip_of_head (by decide)
      simp only [List.map_cons, List.map_nil, members, List.append_assoc, List.cons_append]
      rw [members?_member hField _ (apart_brace rest), hBrace]
      rfl
    | cons next others =>
      have hNext := ih (fun f hf => hFields f (List.mem_cons_of_mem _ hf)) (by simp)
        (by simpa using hFuel : (next :: others).length < fuel + 1)
      have hComma : ∀ r, skip (',' :: r) = ',' :: r := fun r => skip_of_head (by decide)
      have hStart := skip_members (List.cons_ne_nil next others) (Char.ofNat 125 :: rest)
      simp only [List.map_cons, members, List.append_assoc, List.cons_append] at hNext hStart ⊢
      rw [members?_member hField _ (apart_comma _), hComma, List.head?_cons, if_neg (by decide),
        if_pos rfl, List.tail_cons, skip_space, hStart, hNext]
      rfl

theorem length_members (hNil : fields ≠ []) :
    fields.length < (members (fields.map fun f => (f.1, f.2.2))).length := by
  induction fields with
  | nil => exact absurd rfl hNil
  | cons field others ih =>
    cases others with
    | nil => simp [members, quote]
    | cons next others =>
      have hNext := ih (by simp)
      simp only [List.map_cons, members, quote, List.length_append, List.length_cons] at hNext ⊢
      omega

def objectText (fields : List (String × Json × List Char)) : List Char :=
  object (fields.map fun f => (f.1, f.2.2))

def objectJson (fields : List (String × Json × List Char)) : Json :=
  .object (fields.map fun f => (f.1.toList, f.2.1))

theorem objectText_append (fields : List (String × Json × List Char)) (rest : List Char) :
    objectText fields ++ rest =
      Char.ofNat 123 :: (members (fields.map fun f => (f.1, f.2.2)) ++ Char.ofNat 125 :: rest) := by
  simp [objectText, object]

theorem skip_objectText (fields : List (String × Json × List Char)) (rest : List Char) :
    skip (objectText fields ++ rest) = objectText fields ++ rest := by
  rw [objectText_append]
  exact skip_of_head (by decide)

theorem value?_objectText (hFields : ∀ f ∈ fields, Reads f.2.1 f.2.2) (hNil : fields ≠ []) {fuel : ℕ}
    (hFuel : fields.length < fuel) (rest : List Char) :
    value? (fuel + 1) (objectText fields ++ rest) = some (objectJson fields, rest) := by
  have hInside := skip_members hNil (Char.ofNat 125 :: rest)
  obtain ⟨tail, hTail⟩ := members_cons hNil
  have hQuote : (members (fields.map fun f => (f.1, f.2.2)) ++ Char.ofNat 125 :: rest).head? ≠
      some (Char.ofNat 125) := by
    rw [hTail, List.cons_append, List.head?_cons]
    decide
  rw [objectText_append, value?, List.head?_cons, if_pos rfl, List.tail_cons, hInside, if_neg hQuote,
    members?_members hFields hNil hFuel]
  rfl

theorem lt_length_objectText (hNil : fields ≠ []) : fields.length + 2 < (objectText fields).length := by
  have hMembers := length_members hNil
  simp only [objectText, object, List.length_cons, List.length_append, List.length_nil]
  omega

theorem loads_object (hFields : ∀ f ∈ fields, Reads f.2.1 f.2.2) :
    loads (object (fields.map fun f => (f.1, f.2.2))) =
      some (.object (fields.map fun f => (f.1.toList, f.2.1))) := by
  rcases eq_or_ne fields [] with rfl | hNil
  · rfl
  · have hLength := lt_length_objectText hNil
    have hRead := value?_objectText hFields hNil (by omega : fields.length < (objectText fields).length) []
    have hSkip := skip_objectText fields []
    rw [List.append_nil] at hRead hSkip
    change loads (objectText fields) = some (objectJson fields)
    rw [loads, hSkip, hRead]
    rfl

theorem intercalate_objects (fields : List (String × Json × List Char))
    (others : List (List (String × Json × List Char))) :
    ∃ tail, List.intercalate [',', ' '] ((fields :: others).map objectText) = objectText fields ++ tail := by
  cases others with
  | nil => exact ⟨[], by simp [List.intercalate]⟩
  | cons next others =>
    refine ⟨',' :: ' ' :: List.intercalate [',', ' '] ((next :: others).map objectText), ?_⟩
    simp [List.intercalate]

/-- Flat objects with commas between them, up to the bracket that closes the array. -/
theorem items?_objects {rows : List (List (String × Json × List Char))}
    (hRows : ∀ fields ∈ rows, fields ≠ [] ∧ ∀ f ∈ fields, Reads f.2.1 f.2.2) (hNil : rows ≠ []) (fuel : ℕ)
    (hFuel : (List.intercalate [',', ' '] (rows.map objectText)).length ≤ fuel) (rest : List Char) :
    items? fuel (List.intercalate [',', ' '] (rows.map objectText) ++ ']' :: rest) =
      some (rows.map objectJson, rest) := by
  have hClose : skip (']' :: rest) = ']' :: rest := skip_of_head (by decide)
  induction rows generalizing fuel with
  | nil => exact absurd rfl hNil
  | cons fields others ih =>
    obtain ⟨⟨hSome, hFields⟩, hOthers⟩ := List.forall_mem_cons.mp hRows
    have hLength := lt_length_objectText hSome
    cases others with
    | nil =>
      simp only [List.map_cons, List.map_nil, List.intercalate, List.intersperse_singleton, List.flatten_cons,
        List.flatten_nil, List.append_nil] at hFuel ⊢
      obtain ⟨fuel, rfl⟩ : ∃ k, fuel = k + 2 := ⟨fuel - 2, by omega⟩
      rw [items?, value?_objectText hFields hSome (by omega)]
      simp [hClose]
    | cons next others =>
      have hJoin : List.intercalate [',', ' '] ((fields :: next :: others).map objectText) =
          objectText fields ++ ',' :: ' ' :: List.intercalate [',', ' '] ((next :: others).map objectText) := by
        simp [List.intercalate]
      rw [hJoin] at hFuel ⊢
      simp only [List.length_append, List.length_cons] at hFuel
      obtain ⟨fuel, rfl⟩ : ∃ k, fuel = k + 2 := ⟨fuel - 2, by omega⟩
      have hNext := ih hOthers (List.cons_ne_nil next others) (fuel + 1) (by omega)
      have hComma : ∀ r, skip (',' :: r) = ',' :: r := fun r => skip_of_head (by decide)
      have hSkip : skip (List.intercalate [',', ' '] ((next :: others).map objectText) ++ ']' :: rest) =
          List.intercalate [',', ' '] ((next :: others).map objectText) ++ ']' :: rest := by
        obtain ⟨tail, hTail⟩ := intercalate_objects next others
        rw [hTail, List.append_assoc, skip_objectText]
      rw [List.append_assoc, items?, value?_objectText hFields hSome (by omega)]
      simp only [Option.bind_eq_bind, Option.bind_some, List.cons_append, hComma, List.head?_cons, List.tail_cons,
        skip_space, hSkip, hNext, if_true]
      rw [if_neg (by decide)]
      rfl

/-- An array of flat objects. -/
theorem loads_objects {rows : List (List (String × Json × List Char))}
    (hRows : ∀ fields ∈ rows, fields ≠ [] ∧ ∀ f ∈ fields, Reads f.2.1 f.2.2) :
    loads (array (rows.map objectText)) = some (.array (rows.map objectJson)) := by
  cases rows with
  | nil => rfl
  | cons fields others =>
    obtain ⟨tail, hTail⟩ := intercalate_objects fields others
    have hOpen : ∀ r, skip ('[' :: r) = '[' :: r := fun r => skip_of_head (by decide)
    have hItems := items?_objects hRows (List.cons_ne_nil fields others)
      ((objectText fields ++ (tail ++ [']'])).length + 1) (by rw [hTail]; simp only [List.length_append]; omega) []
    rw [hTail, List.append_assoc] at hItems
    rw [loads, array, hTail, hOpen, value?, List.head?_cons, if_neg (by decide), if_pos rfl, List.tail_cons,
      List.append_assoc, skip_objectText]
    dsimp only
    rw [if_neg (by rw [objectText_append, List.head?_cons]; decide), List.length_cons, hItems]
    rfl

end Flat

end JsonReader

end Futur3.Prelude
