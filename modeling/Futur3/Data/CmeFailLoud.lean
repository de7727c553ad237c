import Futur3.Data.BrrSpec
import Futur3.Data.CmeSettlement

/-! # Whether a page fails inside its error family

Rows are read one after the other up to the first that cannot be read. A page
leaves the family of `DataSourceError` through a year whose digits are not
decimal and through the range checks of a settle, and passes a number that is
not finite where no check compares it.
-/

namespace Futur3.Data

open Prelude

/-! ## What is expected -/

structure PageSettle.Sound (s : PageSettle) : Prop where
  settle : s.settle.isFinite
  openPrice : s.openPrice.isFinite
  high : s.high.isFinite
  low : s.low.isFinite
  last : s.last.isFinite
  change : s.change.isFinite
  low_le_high : s.high.lt? s.low = some false
  volume : 0 ≤ s.volumeEst
  oi : 0 ≤ s.oiPrior

theorem PageSettle.sound_iff (s : PageSettle) :
    ((s.settle.isFinite ∧ s.openPrice.isFinite ∧ s.high.isFinite ∧ s.low.isFinite) ∧
      (s.last.isFinite ∧ s.change.isFinite) ∧ s.high.lt? s.low = some false ∧ 0 ≤ s.volumeEst ∧
      0 ≤ s.oiPrior) ↔ s.Sound := by
  constructor
  · rintro ⟨⟨hSettle, hOpen, hHigh, hLow⟩, ⟨hLast, hChange⟩, hRange, hVolume, hOi⟩
    exact ⟨hSettle, hOpen, hHigh, hLow, hLast, hChange, hRange, hVolume, hOi⟩
  · rintro ⟨hSettle, hOpen, hHigh, hLow, hLast, hChange, hRange, hVolume, hOi⟩
    exact ⟨⟨hSettle, hOpen, hHigh, hLow⟩, ⟨hLast, hChange⟩, hRange, hVolume, hOi⟩

instance (s : PageSettle) : Decidable s.Sound :=
  decidable_of_iff ((s.settle.isFinite ∧ s.openPrice.isFinite ∧ s.high.isFinite ∧ s.low.isFinite) ∧
    (s.last.isFinite ∧ s.change.isFinite) ∧ s.high.lt? s.low = some false ∧ 0 ≤ s.volumeEst ∧
    0 ≤ s.oiPrior) s.sound_iff

def FailLoud : Except PageError (List PageSettle) → Prop
  | .ok settles => ∀ s ∈ settles, s.Sound
  | .error e => e.isDataSourceError

instance : DecidablePred FailLoud
  | .ok settles => inferInstanceAs (Decidable (∀ s ∈ settles, s.Sound))
  | .error e => inferInstanceAs (Decidable (e.isDataSourceError = true))

/-! ## The rows -/

def PricedRow.AllFinite (row : PricedRow) : Prop :=
  row.settle.isFinite ∧ row.openPrice.isFinite ∧ row.high.isFinite ∧ row.low.isFinite ∧
    row.last.isFinite ∧ row.change.isFinite

/-- High and low compare and are in order, volume and open interest are not negative. -/
def PricedRow.InRange (row : PricedRow) : Prop :=
  row.high.lt? row.low = some false ∧ 0 ≤ row.volume ∧ 0 ≤ row.oiPrior

instance : DecidablePred PricedRow.AllFinite := fun _ => inferInstanceAs (Decidable (_ ∧ _))

instance : DecidablePred PricedRow.InRange := fun _ => inferInstanceAs (Decidable (_ ∧ _))

namespace CMEEODDataSource

section Rows

variable (U : UnicodeData) (contractRoot : String)

/-- A month of the list with a year of two digits that are not both decimal. -/
def OddYear (display : String) : Prop :=
  ∃ monthName yearStr code, words ((strip display.toList).flatMap U.upper) = [monthName, yearStr] ∧
    monthNameToCode.get? (String.ofList monthName) = some code ∧ yearStr.all U.isDigit ∧
    yearStr.length = yearDigitCount ∧ ∃ c ∈ yearStr, U.decimal? c = none

def MalformedRow (row : List String) : Prop :=
  cellsOf? row = none ∨ ∃ cells e, cellsOf? row = some cells ∧
    readRow U contractRoot cells = .error e ∧ e.isDataSourceError

def EscapingRow (row : List String) : Prop :=
  ∃ cells, cellsOf? row = some cells ∧ (OddYear U cells.month ∨
    ∃ priced, readRow U contractRoot cells = .ok (some priced) ∧ ¬priced.InRange)

def SpecialRow (row : List String) : Prop :=
  ∃ cells priced, cellsOf? row = some cells ∧
    readRow U contractRoot cells = .ok (some priced) ∧ priced.InRange ∧ ¬priced.AllFinite

/-- Before a row that escapes there is a malformed one, and where no row is malformed, none is
special. -/
def ConfinedRows (rows : List (List String)) : Prop :=
  (∀ (i : ℕ) row, rows[i]? = some row → EscapingRow U contractRoot row →
    ∃ j < i, ∃ row', rows[j]? = some row' ∧ MalformedRow U contractRoot row') ∧
  ((∀ row ∈ rows, ¬MalformedRow U contractRoot row) →
    ∀ row ∈ rows, ¬SpecialRow U contractRoot row)

variable {U contractRoot}

/-! ### One row -/

theorem yearValue_isSome_iff {yearStr : List Char} (hDigits : yearStr.all U.isDigit)
    (hLength : yearStr.length = yearDigitCount) :
    (U.int? yearStr).isSome ↔ ∀ c ∈ yearStr, (U.decimal? c).isSome := by
  have hNil : yearStr ≠ [] := List.ne_nil_of_length_pos (by rw [hLength]; decide)
  have hShort : yearStr.length ≤ UnicodeData.maxStrDigits := by
    rw [hLength]
    decide
  exact UnicodeData.int?_isSome_iff hNil hShort hDigits

/-- The only error of a month outside the family is that of an odd year. -/
theorem parseMonthDisplay_error {display : String} {e : PageError}
    (h : parseMonthDisplay U display = .error e) :
    (e.isDataSourceError = true ∧ ¬OddYear U display) ∨
      (e.isDataSourceError = false ∧ OddYear U display) := by
  unfold parseMonthDisplay at h
  unfold OddYear
  split at h
  · rename_i monthName yearStr hWords
    rw [hWords]
    split at h
    · rename_i hName
      cases h
      left
      refine ⟨rfl, ?_⟩
      rintro ⟨name, year, code, hSame, hCode, -⟩
      cases hSame
      rw [hName] at hCode
      cases hCode
    · rename_i code hName
      split_ifs at h with hDigits
      · have hYear := yearValue_isSome_iff hDigits.1 hDigits.2
        split at h
        · cases h
        · rename_i hNone
          cases h
          right
          rw [hNone] at hYear
          have hOdd : ¬∀ c ∈ yearStr, (U.decimal? c).isSome := mt hYear.mpr Bool.false_ne_true
          obtain ⟨c, hc, hDecimal⟩ := not_forall₂.mp hOdd
          exact ⟨rfl, monthName, yearStr, code, rfl, hName, hDigits.1, hDigits.2, c, hc,
            Option.not_isSome_iff_eq_none.mp hDecimal⟩
      · cases h
        left
        refine ⟨rfl, ?_⟩
        rintro ⟨name, year, code', hSame, -, hAll, hLength, -⟩
        cases hSame
        exact hDigits ⟨hAll, hLength⟩
  · rename_i hWords
    cases h
    left
    refine ⟨rfl, ?_⟩
    rintro ⟨name, year, code, hSame, -⟩
    exact hWords name year hSame

theorem parseMonthDisplay_ok {display : String} {month : String × ℤ}
    (h : parseMonthDisplay U display = .ok month) : ¬OddYear U display := by
  rintro ⟨monthName, yearStr, code, hWords, hName, hAll, hLength, c, hc, hDecimal⟩
  unfold parseMonthDisplay at h
  rw [hWords] at h
  simp only [hName] at h
  rw [if_pos ⟨hAll, hLength⟩] at h
  have hYear := yearValue_isSome_iff hAll hLength
  split at h
  · rename_i year hSome
    have hEvery := hYear.mp (by rw [hSome]; rfl) c hc
    rw [hDecimal] at hEvery
    cases hEvery
  · cases h

/-- A reading whose errors are all of the family. -/
def ErrorsInside {α : Type} (reading : Except PageError α) : Prop :=
  ∀ e, reading = .error e → e.isDataSourceError

theorem ErrorsInside.pure {α : Type} (a : α) : ErrorsInside (pure a) := by
  rintro e ⟨⟩

theorem ErrorsInside.bind {α β : Type} {reading : Except PageError α} {f : α → Except PageError β}
    (h : ErrorsInside reading) (hf : ∀ a, ErrorsInside (f a)) : ErrorsInside (reading >>= f) := by
  intro e he
  rcases except_bind_error_iff.mp he with hFirst | ⟨a, -, hRest⟩
  · exact h e hFirst
  · exact hf a e hRest

theorem errorsInside_parseDecimal (raw : String) : ErrorsInside (parseDecimal U raw) := by
  intro e h
  unfold parseDecimal at h
  simp only at h
  split_ifs at h
  · cases h
  · split at h
    · cases h
    · cases h
      rfl

theorem errorsInside_parseInt (raw : String) : ErrorsInside (parseInt U raw) := by
  intro e h
  unfold parseInt at h
  simp only at h
  split_ifs at h
  · cases h
  · split at h
    · cases h
    · cases h
      rfl

theorem readRow_ok {cells : RowCells} {priced : Option PricedRow}
    (h : readRow U contractRoot cells = .ok priced) : ¬OddYear U cells.month := by
  obtain ⟨month, hMonth, -⟩ := except_bind_ok_iff.mp h
  exact parseMonthDisplay_ok hMonth

theorem readRow_error {cells : RowCells} {e : PageError}
    (h : readRow U contractRoot cells = .error e) :
    (e.isDataSourceError = true ∧ ¬OddYear U cells.month) ∨
      (e.isDataSourceError = false ∧ OddYear U cells.month) := by
  rcases except_bind_error_iff.mp h with hMonth | ⟨month, hMonth, h⟩
  · exact parseMonthDisplay_error hMonth
  · left
    refine ⟨ErrorsInside.bind (errorsInside_parseDecimal _) ?_ e h, parseMonthDisplay_ok hMonth⟩
    rintro (- | settle)
    · exact .pure _
    · exact .bind (errorsInside_parseDecimal _) fun _ => .bind (errorsInside_parseDecimal _) fun _ =>
        .bind (errorsInside_parseDecimal _) fun _ => .bind (errorsInside_parseDecimal _) fun _ =>
        .bind (errorsInside_parseDecimal _) fun _ => .bind (errorsInside_parseInt _) fun _ =>
        .bind (errorsInside_parseInt _) fun _ => .pure _

theorem settleOf_ok {sha256 : String → HexDigest} {contentSha : HexDigest} {asOfIso : DateTime}
    {asOfDate : Date} {settleState : SettleState} {priced : PricedRow} {settle : PageSettle}
    (h : settleOf sha256 contentSha asOfIso asOfDate settleState priced = .ok settle) :
    priced.InRange ∧ (settle.Sound ↔ priced.AllFinite) := by
  unfold settleOf at h
  by_cases hAware : asOfIso.isAware
  swap
  · rw [dif_neg hAware] at h
    cases h
  rw [dif_pos hAware] at h
  split at h
  · cases h
  · cases h
  · rename_i hRange
    split_ifs at h with hVolume hOi
    cases h
    refine ⟨⟨hRange, hVolume, hOi⟩, ?_⟩
    constructor
    · rintro ⟨hSettle, hOpen, hHigh, hLow, hLast, hChange, -, -, -⟩
      exact ⟨hSettle, hOpen, hHigh, hLow, hLast, hChange⟩
    · rintro ⟨hSettle, hOpen, hHigh, hLow, hLast, hChange⟩
      exact ⟨hSettle, hOpen, hHigh, hLow, hLast, hChange, hRange, hVolume, hOi⟩

theorem settleOf_error {sha256 : String → HexDigest} {contentSha : HexDigest} {asOfIso : DateTime}
    {asOfDate : Date} {settleState : SettleState} {priced : PricedRow} {e : PageError}
    (hAware : asOfIso.isAware)
    (h : settleOf sha256 contentSha asOfIso asOfDate settleState priced = .error e) :
    ¬priced.InRange ∧ e.isDataSourceError = false := by
  unfold settleOf at h
  rw [dif_pos hAware] at h
  unfold PricedRow.InRange
  split at h
  · rename_i hRange
    cases h
    refine ⟨?_, rfl⟩
    rintro ⟨hIn, -, -⟩
    rw [hRange] at hIn
    cases hIn
  · rename_i hRange
    cases h
    refine ⟨?_, rfl⟩
    rintro ⟨hIn, -, -⟩
    rw [hRange] at hIn
    cases hIn
  · split_ifs at h with hVolume hOi
    · cases h
    · cases h
      exact ⟨fun hIn => hOi hIn.2.2, rfl⟩
    · cases h
      exact ⟨fun hIn => hVolume hIn.2.1, rfl⟩

def ReadableRow (U : UnicodeData) (contractRoot : String) (row : List String) : Prop :=
  ¬MalformedRow U contractRoot row ∧ ¬EscapingRow U contractRoot row

theorem not_malformedRow {row : List String} {cells : RowCells} {priced : Option PricedRow}
    (hCells : cellsOf? row = some cells) (h : readRow U contractRoot cells = .ok priced) :
    ¬MalformedRow U contractRoot row := by
  rintro (hNone | ⟨cells', e, hCells', hError, -⟩)
  · rw [hCells] at hNone
    cases hNone
  · obtain rfl := Option.some.inj (hCells.symm.trans hCells')
    rw [h] at hError
    cases hError

theorem readableRow_of_ok {row : List String} {cells : RowCells} {priced : Option PricedRow}
    (hCells : cellsOf? row = some cells) (h : readRow U contractRoot cells = .ok priced)
    (hRange : ∀ p, priced = some p → p.InRange) : ReadableRow U contractRoot row := by
  refine ⟨not_malformedRow hCells h, ?_⟩
  rintro ⟨cells', hCells', hEscape⟩
  obtain rfl := Option.some.inj (hCells.symm.trans hCells')
  rcases hEscape with hOdd | ⟨p, hRead, hOut⟩
  · exact readRow_ok h hOdd
  · rw [h] at hRead
    exact hOut (hRange p (Except.ok.inj hRead))

theorem specialRow_iff {row : List String} {cells : RowCells} {priced : Option PricedRow}
    (hCells : cellsOf? row = some cells) (h : readRow U contractRoot cells = .ok priced) :
    SpecialRow U contractRoot row ↔ ∃ p, priced = some p ∧ p.InRange ∧ ¬p.AllFinite := by
  constructor
  · rintro ⟨cells', p, hCells', hRead, hIn, hNot⟩
    obtain rfl := Option.some.inj (hCells.symm.trans hCells')
    rw [h] at hRead
    exact ⟨p, Except.ok.inj hRead, hIn, hNot⟩
  · rintro ⟨p, rfl, hIn, hNot⟩
    exact ⟨cells, p, hCells, h, hIn, hNot⟩

/-! ### All rows -/

variable {sha256 : String → HexDigest} {page : PageContext}

theorem parseRows_cons {rowIdx : ℕ} {row : List String} {rows : List (List String)} {cells : RowCells}
    (hCells : cellsOf? row = some cells) :
    parseRows U sha256 page rowIdx (row :: rows) =
      readRow U page.contractRoot cells >>= fun priced =>
        priced.elim (parseRows U sha256 page (rowIdx + 1) rows) fun priced => do
          let settle ←
            settleOf sha256 page.contentSha page.asOfIso page.asOfDate page.settleState priced
          let results ← parseRows U sha256 page (rowIdx + 1) rows
          return settle :: results := by
  rw [parseRows, hCells]
  refine bind_congr ?_
  rintro (- | priced) <;> rfl

theorem parseRows_ok {rowIdx : ℕ} {rows : List (List String)} {settles : List PageSettle}
    (h : parseRows U sha256 page rowIdx rows = .ok settles) :
    (∀ row ∈ rows, ReadableRow U page.contractRoot row) ∧
      ((∀ s ∈ settles, s.Sound) ↔ ∀ row ∈ rows, ¬SpecialRow U page.contractRoot row) := by
  induction rows generalizing rowIdx settles with
  | nil =>
    obtain rfl := except_pure_ok_iff.mp h
    exact ⟨List.forall_mem_nil _, iff_of_true (List.forall_mem_nil _) (List.forall_mem_nil _)⟩
  | cons row rows ih =>
    cases hCells : cellsOf? row with
    | none =>
      rw [parseRows, hCells] at h
      cases h
    | some cells =>
      rw [parseRows_cons hCells] at h
      obtain ⟨priced, hRead, h⟩ := except_bind_ok_iff.mp h
      rw [List.forall_mem_cons, List.forall_mem_cons, specialRow_iff hCells hRead]
      cases priced with
      | none =>
        obtain ⟨hReadable, hSound⟩ := ih h
        refine ⟨⟨readableRow_of_ok hCells hRead (by rintro p ⟨⟩), hReadable⟩, ?_⟩
        simpa using hSound
      | some priced =>
        obtain ⟨settle, hSettle, h⟩ := except_bind_ok_iff.mp h
        obtain ⟨results, hRest, h⟩ := except_bind_ok_iff.mp h
        obtain rfl := except_pure_ok_iff.mp h
        obtain ⟨hReadable, hSound⟩ := ih hRest
        obtain ⟨hIn, hFinite⟩ := settleOf_ok hSettle
        refine ⟨⟨readableRow_of_ok hCells hRead ?_, hReadable⟩, ?_⟩
        · rintro p ⟨⟩
          exact hIn
        · rw [List.forall_mem_cons, hFinite, hSound]
          simp [hIn]

theorem confinedRows_of_forall {rows : List (List String)}
    (h : ∀ row ∈ rows, ∃ cells priced, cellsOf? row = some cells ∧
      readRow U contractRoot cells = .ok priced ∧
      ∀ p, priced = some p → p.InRange ∧ p.AllFinite) : ConfinedRows U contractRoot rows := by
  constructor
  · intro i row hRow hEscape
    obtain ⟨cells, priced, hCells, hRead, hPriced⟩ := h row (List.mem_of_getElem? hRow)
    exact absurd hEscape (readableRow_of_ok hCells hRead fun p hp => (hPriced p hp).1).2
  · intro _ row hRow hSpecial
    obtain ⟨cells, priced, hCells, hRead, hPriced⟩ := h row hRow
    obtain ⟨p, hp, -, hNot⟩ := (specialRow_iff hCells hRead).mp hSpecial
    exact hNot (hPriced p hp).2

/-- The first row that is not read, with the error that it raises. -/
def FirstFault (U : UnicodeData) (contractRoot : String) (rows : List (List String)) (e : PageError) :
    Prop :=
  ∃ (i : ℕ) (row : List String), rows[i]? = some row ∧
    (∀ j < i, ∀ row', rows[j]? = some row' → ReadableRow U contractRoot row') ∧
    ((MalformedRow U contractRoot row ∧ e.isDataSourceError = true) ∨
      (EscapingRow U contractRoot row ∧ e.isDataSourceError = false))

theorem FirstFault.here {row : List String} {rows : List (List String)} {e : PageError}
    (h : (MalformedRow U contractRoot row ∧ e.isDataSourceError = true) ∨
      (EscapingRow U contractRoot row ∧ e.isDataSourceError = false)) :
    FirstFault U contractRoot (row :: rows) e :=
  ⟨0, row, rfl, fun _ hj => absurd hj (Nat.not_lt_zero _), h⟩

theorem FirstFault.later {row : List String} {rows : List (List String)} {e : PageError}
    (hRow : ReadableRow U contractRoot row) (h : FirstFault U contractRoot rows e) :
    FirstFault U contractRoot (row :: rows) e := by
  obtain ⟨i, bad, hBad, hBefore, hKind⟩ := h
  refine ⟨i + 1, bad, hBad, ?_, hKind⟩
  intro j hj row' hRow'
  cases j with
  | zero =>
    cases hRow'
    exact hRow
  | succ j => exact hBefore j (Nat.lt_of_succ_lt_succ hj) row' hRow'

theorem parseRows_error (hAware : page.asOfIso.isAware) {rowIdx : ℕ} {rows : List (List String)}
    {e : PageError} (h : parseRows U sha256 page rowIdx rows = .error e) :
    FirstFault U page.contractRoot rows e := by
  induction rows generalizing rowIdx with
  | nil => cases h
  | cons row rows ih =>
    cases hCells : cellsOf? row with
    | none =>
      rw [parseRows, hCells] at h
      cases h
      exact .here (.inl ⟨.inl hCells, rfl⟩)
    | some cells =>
      rw [parseRows_cons hCells] at h
      rcases except_bind_error_iff.mp h with hError | ⟨priced, hRead, h⟩
      · rcases readRow_error hError with ⟨hFamily, -⟩ | ⟨hEscape, hOdd⟩
        · exact .here (.inl ⟨.inr ⟨cells, e, hCells, hError, hFamily⟩, hFamily⟩)
        · exact .here (.inr ⟨⟨cells, hCells, .inl hOdd⟩, hEscape⟩)
      · cases priced with
        | none => exact .later (readableRow_of_ok hCells hRead (by rintro p ⟨⟩)) (ih h)
        | some priced =>
          rcases except_bind_error_iff.mp h with hError | ⟨settle, hSettle, h⟩
          · obtain ⟨hOut, hEscape⟩ := settleOf_error hAware hError
            exact .here (.inr ⟨⟨cells, hCells, .inr ⟨priced, hRead, hOut⟩⟩, hEscape⟩)
          · refine .later (readableRow_of_ok hCells hRead ?_) ?_
            · rintro p ⟨⟩
              exact (settleOf_ok hSettle).1
            · rcases except_bind_error_iff.mp h with hError | ⟨results, -, h⟩
              · exact ih hError
              · cases h

theorem not_escapingRow {row : List String} (h : MalformedRow U contractRoot row) :
    ¬EscapingRow U contractRoot row := by
  rintro ⟨cells, hCells, hEscape⟩
  rcases h with hNone | ⟨cells', e, hCells', hError, hFamily⟩
  · rw [hCells] at hNone
    cases hNone
  · obtain rfl := Option.some.inj (hCells.symm.trans hCells')
    rcases hEscape with hOdd | ⟨priced, hRead, -⟩
    · rcases readRow_error hError with ⟨-, hEven⟩ | ⟨hOther, -⟩
      · exact hEven hOdd
      · rw [hFamily] at hOther
        cases hOther
    · rw [hError] at hRead
      cases hRead

/-- The loop stays inside the family exactly when the rows do. -/
theorem parseRows_failLoud_iff (hAware : page.asOfIso.isAware) (rowIdx : ℕ)
    (rows : List (List String)) :
    FailLoud (parseRows U sha256 page rowIdx rows) ↔ ConfinedRows U page.contractRoot rows := by
  cases h : parseRows U sha256 page rowIdx rows with
  | ok settles =>
    obtain ⟨hReadable, hSound⟩ := parseRows_ok h
    have hNever : ∀ (i : ℕ) row, rows[i]? = some row → ¬EscapingRow U page.contractRoot row :=
      fun i row hRow => (hReadable row (List.mem_of_getElem? hRow)).2
    change (∀ s ∈ settles, s.Sound) ↔ _
    rw [hSound]
    constructor
    · intro hSpecial
      exact ⟨fun i row hRow hEscape => absurd hEscape (hNever i row hRow), fun _ => hSpecial⟩
    · rintro ⟨-, hSpecial⟩
      exact hSpecial fun row hRow => (hReadable row hRow).1
  | error e =>
    obtain ⟨i, row, hRow, hBefore, hKind⟩ := parseRows_error hAware h
    change e.isDataSourceError = true ↔ _
    rcases hKind with ⟨hMalformed, hFamily⟩ | ⟨hEscape, hOther⟩
    · refine iff_of_true hFamily ⟨?_, fun hNone => absurd hMalformed
        (hNone row (List.mem_of_getElem? hRow))⟩
      intro k other hOther hEscape
      rcases lt_trichotomy k i with hLess | rfl | hMore
      · exact absurd hEscape (hBefore k hLess other hOther).2
      · rw [hRow] at hOther
        cases hOther
        exact absurd hEscape (not_escapingRow hMalformed)
      · exact ⟨i, hMore, row, hRow, hMalformed⟩
    · refine iff_of_false (by rw [hOther]; exact Bool.false_ne_true) ?_
      rintro ⟨hConfined, -⟩
      obtain ⟨j, hj, row', hRow', hMalformed⟩ := hConfined i row hRow hEscape
      exact (hBefore j hj row' hRow').1 hMalformed

end Rows

/-! ## The page -/

theorem parseSettlementPage_cons (U : UnicodeData) (sha256 : String → HexDigest) (page : PageContext)
    (row : List String) (rows : List (List String)) :
    parseSettlementPage U sha256 page
        (some ⟨some (some expectedColumnHeaders), some (row :: rows)⟩) =
      parseRows U sha256 page 0 (row :: rows) := by
  simp [parseSettlementPage]

theorem parseSettlementPage_nil (U : UnicodeData) (sha256 : String → HexDigest) (page : PageContext) :
    parseSettlementPage U sha256 page (some ⟨some (some expectedColumnHeaders), some []⟩) =
      .error (.emptyTbody page.contractRoot) := by
  simp [parseSettlementPage, throw, throwThe, MonadExceptOf.throw]

/-- A page with the expected headers fails inside the family, or has only sound settles, exactly
when its rows are confined. -/
theorem parseSettlementPage_failLoud_iff (U : UnicodeData) (sha256 : String → HexDigest)
    {page : PageContext} (hAware : page.asOfIso.isAware) (rows : List (List String)) :
    FailLoud (parseSettlementPage U sha256 page
        (some ⟨some (some expectedColumnHeaders), some rows⟩)) ↔
      ConfinedRows U page.contractRoot rows := by
  cases rows with
  | nil =>
    rw [parseSettlementPage_nil]
    refine iff_of_true rfl ⟨?_, fun _ => List.forall_mem_nil _⟩
    rintro i row ⟨⟩
  | cons row rows =>
    rw [parseSettlementPage_cons]
    exact parseRows_failLoud_iff hAware 0 (row :: rows)

/-! ## Rows of June -/

def plainDecimal? (c : Char) : Option ℕ := if c.isDigit then some (c.toNat - 48) else none

theorem plainDecimal?_lt (c : Char) : ∀ d ∈ plainDecimal? c, d < 10 := by
  intro d hd
  unfold plainDecimal? at hd
  split_ifs at hd with hDigit
  · cases hd
    have hHigh : c.toNat ≤ 57 := (Char.isDigit_iff_toNat.mp hDigit).2
    omega
  · cases hd

theorem isSome_plainDecimal? (c : Char) : (plainDecimal? c).isSome = c.isDigit := by
  unfold plainDecimal?
  split_ifs with hDigit
  · exact hDigit.symm
  · exact (Bool.eq_false_iff.mpr hDigit).symm

/-- A decimal digit, or a superscript two. -/
def plainIsDigit (c : Char) : Bool := c.isDigit || c = '²'

theorem plainIsDigit_of_decimal (c : Char) (h : (plainDecimal? c).isSome) : plainIsDigit c := by
  rw [isSome_plainDecimal?] at h
  simp [plainIsDigit, h]

theorem plainIsDigit_ascii (c : Char) (h : c.toNat < 128) : plainIsDigit c = c.isDigit := by
  have hOther : c ≠ '²' := by
    rintro rfl
    revert h
    decide
  simp [plainIsDigit, hOther]

theorem plain_not_isSpace (c : Char) (h : plainIsDigit c) : ¬isSpace c := by
  have hCode : (48 ≤ c.toNat ∧ c.toNat ≤ 57) ∨ c.toNat = 178 := by
    rcases Bool.or_eq_true_iff.mp h with hDigit | hTwo
    · exact Or.inl (Char.isDigit_iff_toNat.mp hDigit)
    · rw [of_decide_eq_true hTwo]
      exact Or.inr rfl
  simp only [isSpace, Bool.or_eq_true, Bool.and_eq_true, decide_eq_true_eq, not_or, not_and]
  omega

/-- Unicode as far as ASCII and the superscript two. -/
def plainUnicode : UnicodeData where
  decimal? := plainDecimal?
  isDigit := plainIsDigit
  upper c := [c.toUpper]
  decimal_lt := plainDecimal?_lt
  isDigit_of_decimal := plainIsDigit_of_decimal
  decimal_ascii c _ := isSome_plainDecimal? c
  isDigit_ascii := plainIsDigit_ascii
  not_isSpace := plain_not_isSpace

def emini : PageContext := ⟨"ES", zeroDigest, .utcMidnight .dec12, .dec11, .preliminary⟩

/-- A row of the page with its month, high, low, settle and volume. -/
def pageRow (month high low settle volume : String) : List String :=
  [month, "5300.25", high, low, "5301.00", "+1.25", settle, volume, "56,789"]

def parsedPage (rows : List (List String)) : Except PageError (List PageSettle) :=
  parseSettlementPage plainUnicode (fun _ => zeroDigest) emini
    (some ⟨some (some expectedColumnHeaders), some rows⟩)

theorem read_of_test {row : List String}
    (h : (cellsOf? row).any (fun cells => (readRow plainUnicode "ES" cells).toOption.any fun priced =>
      priced.all fun p => decide (p.InRange ∧ p.AllFinite)) = true) :
    ∃ cells priced, cellsOf? row = some cells ∧ readRow plainUnicode "ES" cells = .ok priced ∧
      ∀ p, priced = some p → p.InRange ∧ p.AllFinite := by
  obtain ⟨cells, hCells, hRead⟩ := (Option.any_eq_true _ _).mp h
  obtain ⟨priced, hPriced, hAll⟩ := except_exists_ok hRead
  refine ⟨cells, priced, hCells, hPriced, ?_⟩
  rintro p rfl
  exact of_decide_eq_true hAll

/-- A traded month, and one without a settle, which is skipped. -/
theorem parseSettlementPage_failLoud_iff_june :
    FailLoud (parsedPage [pageRow "JUN 26" "5310.00" "5290.50" "5302.50" "1,234",
      pageRow "SEP 26" "---" "" "---" "-"]) := by
  apply (parseSettlementPage_failLoud_iff plainUnicode (fun _ => zeroDigest) rfl _).mpr
  apply confinedRows_of_forall
  rw [List.forall_mem_cons, List.forall_mem_singleton]
  exact ⟨read_of_test (by decide +kernel), read_of_test (by decide +kernel)⟩

/-- One row each: a high that is no number, a high below the low, a volume below zero and a year
with a superscript raise what is no `DataSourceError`; a settle that is no number is passed on. -/
theorem parsedPage_not_failLoud :
    ¬FailLoud (parsedPage [pageRow "JUN 26" "NaN" "5290.50" "5302.50" "1,234"]) ∧
    ¬FailLoud (parsedPage [pageRow "JUN 26" "5290.50" "5310.00" "5302.50" "1,234"]) ∧
    ¬FailLoud (parsedPage [pageRow "JUN 26" "5310.00" "5290.50" "5302.50" "-1"]) ∧
    ¬FailLoud (parsedPage [pageRow "JUN ²6" "5310.00" "5290.50" "5302.50" "1,234"]) ∧
    ¬FailLoud (parsedPage [pageRow "JUN 26" "5310.00" "5290.50" "NaN" "1,234"]) := by
  refine ⟨?_, ?_, ?_, ?_, ?_⟩ <;> decide +kernel

end CMEEODDataSource

end Futur3.Data
