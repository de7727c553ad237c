import Futur3.Data.Continuous

/-! # Roll decisions

For each held contract that the roll calendar tracks, the executor decides on a
date whether it is to be rolled, and how: as one spread where the broker can
place it and the two prices agree, else one leg after the other.
-/

namespace Futur3.Execution

open Data

structure OpenPosition where
  contract : ContractSymbol
  qty : ℤ
  avgPrice : ℚ
deriving DecidableEq

inductive RollMethod where
  | calendarSpread
  | sequential
  | sequentialEmergency
deriving DecidableEq

inductive RollReason where
  -- "VerifierDivergence: {detail}; SEQUENTIAL with manual review"
  | verifierDivergence (detail : String)
  -- "OnSchedule"
  | onSchedule
  -- "PAST_DEADLINE — deadline invariant violated; manual review required"
  | pastDeadline
deriving DecidableEq

structure RollDecision where
  front : String
  back : String
  qty : ℤ
  method : RollMethod
  targetDate : Date
  deadlineDate : Date
  reason : RollReason
deriving DecidableEq

structure RollDivergenceResult where
  divergenceFlag : Bool
  detail : String := ""

/-- `RollDivergenceCheck.cross_check`, of a front, a back and a date. -/
abbrev RollDivergenceCheck := String → String → Date → RollDivergenceResult

def staticRollDivergenceCheck (divergentPairs : List (String × String)) : RollDivergenceCheck :=
  fun front back _ =>
    if (front, back) ∈ divergentPairs then ⟨true, "configured divergence for " ++ front ++ "->" ++ back⟩
    else ⟨false, ""⟩

structure RollExecutor where
  calendar : RollCalendar
  divergence : RollDivergenceCheck
  supportsBag : Bool

namespace RollExecutor

variable (self : RollExecutor)

def decideEntry (today : Date) (entry : RollCalendarEntry) (qty : ℤ) : Option RollDecision :=
  let decision (method : RollMethod) (reason : RollReason) : RollDecision :=
    { front := entry.frontSymbol, back := entry.backSymbol, qty := qty, method := method,
      targetDate := today, deadlineDate := entry.rollDeadline, reason := reason }
  if entry.rollTarget ≤ today ∧ today ≤ entry.rollDeadline then
    let verdict := self.divergence entry.frontSymbol entry.backSymbol today
    if verdict.divergenceFlag then some (decision .sequential (.verifierDivergence verdict.detail))
    else some (decision (if self.supportsBag then .calendarSpread else .sequential) .onSchedule)
  else if today > entry.rollDeadline then some (decision .sequentialEmergency .pastDeadline)
  else none

def decideRoll (today : Date) (p : OpenPosition) : Option RollDecision :=
  if p.qty = 0 then none
  else (self.calendar p.contract).bind fun entry => self.decideEntry today entry p.qty

def decideRolls (today : Date) (positions : List OpenPosition) : List RollDecision :=
  positions.filterMap (self.decideRoll today)

end RollExecutor

end Futur3.Execution
