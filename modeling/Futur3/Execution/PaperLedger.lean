import Futur3.Data.Calendar
import Futur3.Prelude.JsonReader
import Futur3.Prelude.Method
import Futur3.Prelude.TextLines

/-! # The forward-paper ledger

One JSON row per trading session in a file that is only appended to. Every call
opens the file anew: `record` reads all rows, checks the date against the last one
and appends a row with the running total. Sums are exact.
-/

namespace Futur3.Execution

open Data Prelude Method

structure SessionResult where
  sessionDate : Date
  qualified : Bool
  contracts : ℤ
  entryPrice : Option Decimal
  exitPrice : Option Decimal
  sessionPnl : Decimal
  cost : Decimal
deriving DecidableEq

structure PaperSession extends SessionResult where
  cumulativePnl : Decimal
deriving DecidableEq

inductive PaperLedgerFailure where
  | paperLedgerError (message : String)
  /-- Too many digits to write, a row that is no JSON, or what a conversion raises. -/
  | valueError
  | keyError (key : String)
  | typeError
deriving DecidableEq, Repr

/-- What the built-in conversions make of values that no ledger writes. -/
structure Builtins where
  /-- `str` of a value that is no string. -/
  str : Json → List Char
  /-- `int` of a value that is no whole number. -/
  int : Json → Except PaperLedgerFailure ℤ
  /-- `bool` of a floating-point number. -/
  floatTruth : List Char → Bool
  /-- `date.fromisoformat` of a text that is not `YYYY-MM-DD`. -/
  fromisoformat : List Char → Except PaperLedgerFailure Date
  /-- `Decimal` of a text that is no plain finite number. -/
  decimal : List Char → Except PaperLedgerFailure Decimal

/-! ## Rows -/

namespace PaperSession

def schema : List Char := "futur3.paper_ledger.v1".toList

def priceText (price : Option Decimal) : List Char :=
  match price with
  | none => "null".toList
  | some price => JsonText.quote price.strChars

/-- The members of the row, with the texts they are written as. -/
def toJson (s : PaperSession) : List (String × List Char) :=
  [("schema", JsonText.quote schema),
    ("session_date", JsonText.quote s.sessionDate.isoformatChars),
    ("qualified", JsonText.boolText s.qualified),
    ("contracts", JsonText.intText s.contracts),
    ("entry_price", priceText s.entryPrice),
    ("exit_price", priceText s.exitPrice),
    ("session_pnl", JsonText.quote s.sessionPnl.strChars),
    ("cost", JsonText.quote s.cost.strChars),
    ("cumulative_pnl", JsonText.quote s.cumulativePnl.strChars)]

/-- `json.dumps(self.to_json())`; a whole number with too many digits has no text. -/
def dumps (s : PaperSession) : Except PaperLedgerFailure (List Char) :=
  if (Nat.toDigits 10 s.contracts.natAbs).length ≤ UnicodeData.maxStrDigits then
    .ok (JsonText.object s.toJson)
  else .error .valueError

/-- `d[key]`. The last of several members with one key counts. -/
def item (d : Json) (key : String) : Except PaperLedgerFailure Json :=
  match d with
  | .object members =>
    match members.reverse.find? fun member => member.1 = key.toList with
    | some member => .ok member.2
    | none => .error (.keyError key)
  | _ => .error .typeError

section FromJson

variable (builtins : Builtins)

def str (x : Json) : List Char :=
  match x with
  | .str text => text
  | _ => builtins.str x

def int (x : Json) : Except PaperLedgerFailure ℤ :=
  match x with
  | .int n => .ok n
  | _ => builtins.int x

def bool : Json → Bool
  | .null => false
  | .bool b => b
  | .int n => n ≠ 0
  | .float text => builtins.floatTruth text
  | .str text => text ≠ []
  | .array items => !items.isEmpty
  | .object members => !members.isEmpty

def isoDate? (text : List Char) : Option Date :=
  let year := Nat.ofDigitChars 10 (text.take 4) 0
  let month := Nat.ofDigitChars 10 ((text.drop 5).take 2) 0
  let day := Nat.ofDigitChars 10 (text.drop 8) 0
  if text.length = 10 ∧ text[4]? = some '-' ∧ text[7]? = some '-' ∧ (text.take 4).all Char.isDigit ∧
      ((text.drop 5).take 2).all Char.isDigit ∧ (text.drop 8).all Char.isDigit then
    if h : (1 ≤ year ∧ year ≤ 9999) ∧ (1 ≤ month ∧ month ≤ 12) ∧ 1 ≤ day ∧
        day ≤ daysInMonth year month then
      some (Date.of year month day h)
    else none
  else none

def dateOf (text : List Char) : Except PaperLedgerFailure Date :=
  match isoDate? text with
  | some date => .ok date
  | none => builtins.fromisoformat text

def decimalOf (text : List Char) : Except PaperLedgerFailure Decimal :=
  match Decimal.ofChars? text with
  | some d => .ok d
  | none => builtins.decimal text

def priceOf (x : Json) : Except PaperLedgerFailure (Option Decimal) :=
  match x with
  | .null => .ok none
  | _ => (decimalOf builtins (str builtins x)).map some

def fromJson (d : Json) : Except PaperLedgerFailure PaperSession := do
  let ep ← item d "entry_price"
  let xp ← item d "exit_price"
  let sessionDate ← dateOf builtins (str builtins (← item d "session_date"))
  let qualified := bool builtins (← item d "qualified")
  let contracts ← int builtins (← item d "contracts")
  let entryPrice ← priceOf builtins ep
  let exitPrice ← priceOf builtins xp
  let sessionPnl ← decimalOf builtins (str builtins (← item d "session_pnl"))
  let cost ← decimalOf builtins (str builtins (← item d "cost"))
  let cumulativePnl ← decimalOf builtins (str builtins (← item d "cumulative_pnl"))
  pure ⟨⟨sessionDate, qualified, contracts, entryPrice, exitPrice, sessionPnl, cost⟩, cumulativePnl⟩

end FromJson

end PaperSession

/-! ## The file -/

abbrev LedgerFile := Option (List Char)

namespace PaperLedger

variable (builtins : Builtins)

def rowOf (line : List Char) : Except PaperLedgerFailure PaperSession :=
  match JsonReader.loads line with
  | none => .error .valueError
  | some d => PaperSession.fromJson builtins d

/-- All sessions in append order, and none when there is no file. -/
def read : Method PaperLedgerFailure LedgerFile (List PaperSession) := do
  match ← get with
  | none => pure []
  | some text =>
    Method.liftExcept (((splitlines text).filter fun line => strip line ≠ []).mapM (rowOf builtins))

/-- Opening creates the file; the row is made after that. -/
def append (session : PaperSession) : Method PaperLedgerFailure LedgerFile PUnit := do
  modify fun file => some (file.getD [])
  let row ← Method.liftExcept session.dumps
  modify fun file => some (file.getD [] ++ row ++ ['\n'])

/-- `rows[-1].cumulative_pnl if rows else Decimal(0)`. -/
def lastTotal (rows : List PaperSession) : Decimal :=
  (rows.getLast?.map (·.cumulativePnl)).getD ⟨false, 0, 0⟩

def nonChronological (sessionDate last : Date) : PaperLedgerFailure :=
  .paperLedgerError ("non-chronological append: " ++ sessionDate.isoformat ++ " <= last " ++
    last.isoformat)

def record (result : SessionResult) : Method PaperLedgerFailure LedgerFile PaperSession := do
  let prior ← read builtins
  match prior.getLast?.filter fun last => result.sessionDate ≤ last.sessionDate with
  | some last => throw (nonChronological result.sessionDate last.sessionDate)
  | none =>
    let cumulative := lastTotal prior + result.sessionPnl
    let session : PaperSession := ⟨result, cumulative⟩
    append session
    pure session

def pnlSeries : Method PaperLedgerFailure LedgerFile (List Decimal) := do
  let rows ← read builtins
  pure (rows.map (·.sessionPnl))

def cumulativePnl : Method PaperLedgerFailure LedgerFile Decimal := do
  let rows ← read builtins
  pure (lastTotal rows)

end PaperLedger

end Futur3.Execution
