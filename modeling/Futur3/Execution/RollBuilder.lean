import Futur3.Contracts.TradingCalendar
import Futur3.Data.Continuous

/-! # Deriving the roll calendar

Contract symbols carry a two-digit year. The builder derives the last trading
day and the first notice day of a contract from the expiry rules of its root,
and places the roll window so many trading days before one of them.
-/

namespace Futur3.Execution

open Data Contracts Prelude

inductive RollExecutorError where
  -- "contract symbol too short to parse: {symbol}"
  | tooShort (symbol : String)
  -- "invalid CME month code {code} in {symbol}"
  | monthCode (code : Char) (symbol : String)
  -- "invalid 2-digit year {yy} in {symbol}"
  | twoDigitYear (tens ones : Char) (symbol : String)
  -- "no roll cycle configured for root {root}; known: ..."
  | noCycleConfigured (root : String)
  -- "month code {code} is not in the {root} cycle {cycle}"
  | notInCycle (code : Char) (root : String) (cycle : List Char)
  -- "roll_target {rollTarget} > roll_deadline {rollDeadline} for {frontSymbol}"
  | targetAfterDeadline (rollTarget rollDeadline : Date) (frontSymbol : String)
  -- "roll_deadline {rollDeadline} > ltd_date {ltdDate} for {frontSymbol} (cannot roll after last trading day)"
  | deadlineAfterLtd (rollDeadline ltdDate : Date) (frontSymbol : String)
  -- "no roll spec for root {root}; known: ..."
  | noRollSpec (root : String)
  -- "{root} anchors on FND but derived no FND date"
  | noFndDate (root : String)
  -- "no derivation for root {root}"
  | noDerivation (root : String)
  -- "no roll cycle for root {root}; known: ..."
  | noRollCycle (root : String)
  -- "start_year {startYear} > end_year {endYear}"
  | yearsReversed (startYear endYear : ℕ)
  -- raised by the trading calendar
  | calendar (error : TradingCalendarError)
deriving DecidableEq

/-! ## Contract cycles -/

def monthCodeToNum : Dict Char ℕ := .ofList [('F', 1), ('G', 2), ('H', 3), ('J', 4), ('K', 5), ('M', 6),
  ('N', 7), ('Q', 8), ('U', 9), ('V', 10), ('X', 11), ('Z', 12)]

/-- The calendar month of a month code; the parser has looked the code up. -/
def monthOf (code : Char) : ℕ := (monthCodeToNum.get? code).getD 0

def quarterly : List Char := ['H', 'M', 'U', 'Z']
def monthly : List Char := ['F', 'G', 'H', 'J', 'K', 'M', 'N', 'Q', 'U', 'V', 'X', 'Z']
def biMonthly : List Char := ['G', 'J', 'M', 'Q', 'V', 'Z']
def hknuz : List Char := ['H', 'K', 'N', 'U', 'Z']

def rootCycle : Dict String (List Char) := .ofList [("ES", quarterly), ("MES", quarterly),
  ("NQ", quarterly), ("MNQ", quarterly), ("CL", monthly), ("MCL", monthly), ("GC", biMonthly),
  ("MGC", biMonthly), ("MBT", monthly), ("MET", monthly), ("YM", quarterly), ("RTY", quarterly),
  ("6E", quarterly), ("6A", quarterly), ("ZN", quarterly), ("ZB", quarterly), ("6J", quarterly),
  ("6B", quarterly), ("6C", quarterly), ("6S", quarterly), ("HG", hknuz), ("SI", hknuz),
  ("ZT", quarterly), ("ZF", quarterly), ("UB", quarterly), ("NKD", quarterly)]

/-- Two-digit years up to this one are of the 2000s. -/
def year2digitPivot : ℕ := 49

def expandYear (yy : ℕ) : ℕ := if yy ≤ year2digitPivot then 2000 + yy else 1900 + yy

def parseContract (symbol : ContractSymbol) : Except RollExecutorError (String × Char × ℕ) :=
  match symbol.toList.reverse with
  | ones :: tens :: code :: last :: root =>
    if ¬monthCodeToNum.contains code then throw (.monthCode code symbol)
    else if ¬(tens.isDigit ∧ ones.isDigit) then throw (.twoDigitYear tens ones symbol)
    else pure (String.ofList (last :: root).reverse, code,
      expandYear (Nat.ofDigitChars 10 [tens, ones] 0))
  | _ => throw (.tooShort symbol)

/-- `f"{root}{code}{year % 100:02d}"`. -/
def contractSymbol (root : String) (code : Char) (year : ℕ) : ContractSymbol :=
  root ++ String.ofList (code :: zeroPadded 2 (year % 100))

def nextContract (symbol : ContractSymbol) : Except RollExecutorError ContractSymbol := do
  let (root, code, year) ← parseContract symbol
  match rootCycle.get? root with
  | none => throw (.noCycleConfigured root)
  | some cycle =>
    if code ∉ cycle then throw (.notInCycle code root cycle)
    else match cycle[cycle.idxOf code + 1]? with
      | some nextCode => return contractSymbol root nextCode year
      | none => return contractSymbol root (cycle.headD code) (year + 1)

/-! ## Roll windows -/

inductive RollAnchor where
  | ltd
  | fnd
deriving DecidableEq

structure RollSpec where
  anchor : RollAnchor
  targetOffset : ℕ
  deadlineOffset : ℕ
deriving DecidableEq

def rollSpecs : Dict String RollSpec := .ofList [("ES", ⟨.ltd, 5, 2⟩), ("NQ", ⟨.ltd, 5, 2⟩),
  ("CL", ⟨.ltd, 5, 3⟩), ("GC", ⟨.fnd, 7, 3⟩), ("MBT", ⟨.ltd, 7, 3⟩), ("MET", ⟨.ltd, 7, 3⟩),
  ("YM", ⟨.ltd, 5, 2⟩), ("RTY", ⟨.ltd, 5, 2⟩), ("6E", ⟨.ltd, 5, 2⟩), ("6A", ⟨.ltd, 5, 2⟩),
  ("ZN", ⟨.fnd, 5, 2⟩), ("ZB", ⟨.fnd, 5, 2⟩), ("6J", ⟨.ltd, 5, 2⟩), ("6B", ⟨.ltd, 5, 2⟩),
  ("6C", ⟨.ltd, 5, 2⟩), ("6S", ⟨.ltd, 5, 2⟩), ("HG", ⟨.fnd, 7, 3⟩), ("SI", ⟨.fnd, 7, 3⟩),
  ("ZT", ⟨.fnd, 5, 2⟩), ("ZF", ⟨.fnd, 5, 2⟩), ("UB", ⟨.fnd, 5, 2⟩), ("NKD", ⟨.ltd, 5, 2⟩)]

def crypto247Launch : Date := .of 2026 5 29

/-- `RollCalendarEntry(...)` with the checks of its construction. -/
def rollCalendarEntry (frontSymbol backSymbol : String) (ltdDate rollTarget rollDeadline : Date)
    (regime : String) (fndDate : Option Date) : Except RollExecutorError RollCalendarEntry :=
  if hTarget : rollTarget > rollDeadline then
    throw (.targetAfterDeadline rollTarget rollDeadline frontSymbol)
  else if hDeadline : rollDeadline > ltdDate then
    throw (.deadlineAfterLtd rollDeadline ltdDate frontSymbol)
  else pure ⟨frontSymbol, backSymbol, ltdDate, rollTarget, rollDeadline, regime, fndDate,
    le_of_not_gt hTarget, le_of_not_gt hDeadline⟩

structure RollCalendarBuilder where
  cal : CMETradingCalendar

namespace RollCalendarBuilder

variable (self : RollCalendarBuilder)

/-- A closed day gives way to the trading day before it. -/
def guard (day : Date) : Result Date := do
  if ← self.cal.isTradingDay day then return day else self.cal.prevTradingDay day

def thirdFriday (year month : ℕ) : Result Date := nthWeekday year month friday 3

def secondFriday (year month : ℕ) : Result Date := nthWeekday year month friday 2

def thirdWednesday (year month : ℕ) : Result Date := nthWeekday year month wednesday 3

def lastFriday (year month : ℕ) : Result Date := lastWeekday year month friday

def lastTradingDayOfMonth (year month : ℕ) : Result Date := do
  self.guard (← mkDate year month (daysInMonth year month))

def prevTradingDays : ℕ → Date → Result Date
  | 0, day => pure day
  | k + 1, day => do prevTradingDays k (← self.cal.prevTradingDay day)

def nthToLastTradingDayOfMonth (year month n : ℕ) : Result Date := do
  self.prevTradingDays (n - 1) (← self.lastTradingDayOfMonth year month)

def precedingMonth (month year : ℕ) : ℕ × ℕ :=
  if month = 1 then (year - 1, 12) else (year, month - 1)

/-- The last trading day, the first notice day and the regime of a contract. -/
abbrev Derivation := Date × Option Date × String

def deriveCl (month year : ℕ) : Result Derivation := do
  let (anchorYear, anchorMonth) := precedingMonth month year
  let base ← self.guard (← mkDate anchorYear anchorMonth 25)
  let ltd ← self.cal.addTradingDays base (-3)
  let fnd ← self.cal.addTradingDays ltd 2
  return (ltd, some fnd, "RTH")

def deriveGc (month year : ℕ) : Result Derivation := do
  let (prevYear, prevMonth) := precedingMonth month year
  let fnd ← self.lastTradingDayOfMonth prevYear prevMonth
  let ltd ← self.nthToLastTradingDayOfMonth year month 3
  return (ltd, some fnd, "RTH")

def deriveCrypto (month year : ℕ) : Result Derivation := do
  let ltd ← self.guard (← lastFriday year month)
  return (ltd, none, if ltd < crypto247Launch then "RTH" else "24/7")

def deriveEquity (root : String) (month year : ℕ) : Result Derivation := do
  if root = "NKD" then
    let ltd ← self.cal.prevTradingDay (← secondFriday year month)
    return (ltd, none, "RTH")
  else
    let ltd ← self.guard (← thirdFriday year month)
    return (ltd, none, "RTH")

def deriveFx (month year : ℕ) : Result Derivation := do
  let ltd ← self.cal.addTradingDays (← self.guard (← thirdWednesday year month)) (-2)
  return (ltd, none, "RTH")

def deriveRates (month year : ℕ) : Result Derivation := do
  let ltd ← self.cal.addTradingDays (← self.lastTradingDayOfMonth year month) (-7)
  let (prevYear, prevMonth) := precedingMonth month year
  let fnd ← self.lastTradingDayOfMonth prevYear prevMonth
  return (ltd, some fnd, "RTH")

def raising {α : Type} (x : Result α) : Except RollExecutorError α := x.mapError .calendar

def equityRoots : List String := ["ES", "NQ", "YM", "RTY", "NKD"]
def fxRoots : List String := ["6E", "6A", "6J", "6B", "6C", "6S"]
def ratesRoots : List String := ["ZN", "ZB", "ZT", "ZF", "UB"]
def metalRoots : List String := ["GC", "HG", "SI"]
def cryptoRoots : List String := ["MBT", "MET"]

def derive (root : String) (month year : ℕ) : Except RollExecutorError Derivation :=
  if root ∈ equityRoots then raising (self.deriveEquity root month year)
  else if root ∈ fxRoots then raising (self.deriveFx month year)
  else if root ∈ ratesRoots then raising (self.deriveRates month year)
  else if root = "CL" then raising (self.deriveCl month year)
  else if root ∈ metalRoots then raising (self.deriveGc month year)
  else if root ∈ cryptoRoots then raising (self.deriveCrypto month year)
  else throw (.noDerivation root)

/-- The deadline of a root, of CL at the latest the trading day before first notice. -/
def clampDeadline (root : String) (rollDeadline : Date) (fndDate : Option Date) : Result Date :=
  match fndDate with
  | some fnd =>
    if root = "CL" then do return min rollDeadline (← self.cal.addTradingDays fnd (-1))
    else pure rollDeadline
  | none => pure rollDeadline

def build (front : ContractSymbol) : Except RollExecutorError RollCalendarEntry := do
  let (root, code, year) ← parseContract front
  match rollSpecs.get? root with
  | none => throw (.noRollSpec root)
  | some spec =>
    let (ltd, fnd, regime) ← self.derive root (monthOf code) year
    match if spec.anchor = .ltd then some ltd else fnd with
    | none => throw (.noFndDate root)
    | some anchor =>
      let rollTarget ← raising (self.cal.addTradingDays anchor (-spec.targetOffset))
      let rollDeadline ← raising (self.cal.addTradingDays anchor (-spec.deadlineOffset))
      let rollDeadline ← raising (self.clampDeadline root rollDeadline fnd)
      let back ← nextContract front
      rollCalendarEntry front back ltd rollTarget rollDeadline regime fnd

/-- The contracts of a root over some years, in the order of its cycle. -/
def contractsOf (root : String) (cycle : List Char) (startYear endYear : ℕ) : List ContractSymbol :=
  (List.range' startYear (endYear + 1 - startYear)).flatMap fun year =>
    cycle.map fun code => contractSymbol root code year

def buildCycle (root : String) (startYear endYear : ℕ) :
    Except RollExecutorError (List RollCalendarEntry) :=
  match rootCycle.get? root with
  | none => throw (.noRollCycle root)
  | some cycle =>
    if startYear > endYear then throw (.yearsReversed startYear endYear)
    else (contractsOf root cycle startYear endYear).mapM self.build

end RollCalendarBuilder

end Futur3.Execution
