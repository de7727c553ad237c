import Futur3.Execution.RollChain
import Futur3.Execution.RollExecutor

/-! # Rolling day after day

The executor is asked on one date after another, its decisions are carried out, and the
book is traded in between. On calendars that the builder makes every roll target is a
trading day and the contract rolled into has its own target later. A book that is asked
about on every trading day is therefore always rolled on the target itself.
-/

namespace Futur3.Execution

open Data Contracts Prelude RollExecutor RollCalendarBuilder

/-! ## Runs -/

section Runs

variable (exec : RollExecutor)

/-- What a position has become once the decision on it, if there is one, is carried out. -/
def CarriedOut (today : Date) (p p' : OpenPosition) : Prop :=
  p'.qty = p.qty ∧ p'.contract = ((exec.decideRoll today p).map RollDecision.back).getD p.contract

/-- Trading takes up only contracts that have yet to reach their roll target. -/
def Traded (today : Date) (book next : List OpenPosition) : Prop :=
  ∀ p ∈ next, p.qty ≠ 0 → (∃ q ∈ book, q.qty ≠ 0 ∧ q.contract = p.contract) ∨
    ∀ e ∈ exec.calendar p.contract, today < e.rollTarget

/-- The dates asked about, and what was held and decided on each. -/
inductive RollRun : List Date → List OpenPosition → List (Date × List OpenPosition) → Prop where
  | nil (book : List OpenPosition) : RollRun [] book []
  | day {today : Date} {days : List Date} {book rolled next : List OpenPosition}
      {log : List (Date × List OpenPosition)} (hRolled : List.Forall₂ (CarriedOut exec today) book rolled)
      (hTraded : Traded exec today rolled next) (hRest : RollRun days next log) :
      RollRun (today :: days) book ((today, book) :: log)

end Runs

theorem exists_rollRun (exec : RollExecutor) (days : List Date) (book : List OpenPosition) :
    ∃ log, RollRun exec days book log ∧ log.map Prod.fst = days := by
  induction days generalizing book with
  | nil => exact ⟨[], .nil book, rfl⟩
  | cons today days ih =>
    let roll (p : OpenPosition) : OpenPosition :=
      { p with contract := ((exec.decideRoll today p).map RollDecision.back).getD p.contract }
    have hRolled : List.Forall₂ (CarriedOut exec today) book (book.map roll) := by
      rw [List.forall₂_map_right_iff, List.forall₂_same]
      exact fun p _ => ⟨rfl, rfl⟩
    obtain ⟨log, hRun, hDays⟩ := ih (book.map roll)
    exact ⟨(today, book) :: log, .day hRolled (fun p hp hQty => .inl ⟨p, hp, hQty, rfl⟩) hRun,
      by rw [List.map_cons, hDays]⟩

/-- The dates go forward and leave no trading day out. -/
def EveryTradingDay (days : List Date) : Prop :=
  days.IsChain fun today tomorrow => today < tomorrow ∧
    ∀ d, today < d → d < tomorrow → CMETradingCalendar.default.isTradingDay d ≠ .ok true

/-! ## Calendars on which rolling goes well -/

/-- Each target is a trading day, and the next contract's target comes after it. -/
structure Ladder (calendar : RollCalendar) : Prop where
  open_target : ∀ {c e}, calendar c = some e →
    CMETradingCalendar.default.isTradingDay e.rollTarget = .ok true
  advances : ∀ {c e e'}, calendar c = some e → calendar e.backSymbol = some e' →
    e.rollTarget < e'.rollTarget

section Steps

variable {exec : RollExecutor} {today : Date} {p p' : OpenPosition}

theorem decideRoll_some {d : RollDecision} (h : exec.decideRoll today p = some d) :
    ∃ e, exec.calendar p.contract = some e ∧ p.qty ≠ 0 ∧ e.rollTarget ≤ today ∧ d.front = e.frontSymbol ∧
      d.back = e.backSymbol ∧ d.qty = p.qty ∧ d.targetDate = today ∧ d.deadlineDate = e.rollDeadline ∧
      (d.method = .sequentialEmergency ↔ e.rollDeadline < today) := by
  unfold decideRoll at h
  split at h
  · cases h
  · rename_i hQty
    obtain ⟨e, hEntry, h⟩ := Option.bind_eq_some_iff.mp h
    refine ⟨e, hEntry, hQty, ?_⟩
    unfold decideEntry at h
    dsimp only at h
    split_ifs at h with hWindow hDiverges hBag hLate <;> cases h
    · exact ⟨hWindow.1, rfl, rfl, rfl, rfl, rfl, by simp, fun hPast => absurd hWindow.2 (not_le.mpr hPast)⟩
    · exact ⟨hWindow.1, rfl, rfl, rfl, rfl, rfl, by simp, fun hPast => absurd hWindow.2 (not_le.mpr hPast)⟩
    · exact ⟨hWindow.1, rfl, rfl, rfl, rfl, rfl, by simp, fun hPast => absurd hWindow.2 (not_le.mpr hPast)⟩
    · exact ⟨e.target_le.trans hLate.le, rfl, rfl, rfl, rfl, rfl, fun _ => hLate, fun _ => rfl⟩

theorem decideRoll_isSome {e : RollCalendarEntry} (hQty : p.qty ≠ 0)
    (hEntry : exec.calendar p.contract = some e) (hDue : e.rollTarget ≤ today) :
    (exec.decideRoll today p).isSome := by
  unfold decideRoll decideEntry
  rw [if_neg hQty, hEntry, Option.bind_some]
  dsimp only
  split_ifs with hWindow hDiverges hBag hLate
  · rfl
  · rfl
  · rfl
  · rfl
  · exact absurd ⟨hDue, not_lt.mp hLate⟩ hWindow

def Due (exec : RollExecutor) (today : Date) (book : List OpenPosition) : Prop :=
  ∀ p ∈ book, p.qty ≠ 0 → ∀ e ∈ exec.calendar p.contract, today ≤ e.rollTarget

def Ahead (exec : RollExecutor) (today : Date) (book : List OpenPosition) : Prop :=
  ∀ p ∈ book, p.qty ≠ 0 → ∀ e ∈ exec.calendar p.contract, today < e.rollTarget

variable {book rolled next : List OpenPosition}

/-- A contract whose target has not passed is rolled on the target, and not late. -/
theorem Due.decided (h : Due exec today book) (hp : p ∈ book) {d : RollDecision}
    (hd : exec.decideRoll today p = some d) : ∃ e, exec.calendar p.contract = some e ∧
      e.rollTarget = today ∧ d.front = e.frontSymbol ∧ d.back = e.backSymbol ∧ d.qty = p.qty ∧
        d.method ≠ .sequentialEmergency := by
  obtain ⟨e, hEntry, hQty, hReached, hFront, hBack, hKept, -, -, hLate⟩ := decideRoll_some hd
  have hToday : e.rollTarget = today := le_antisymm hReached (h p hp hQty e hEntry)
  refine ⟨e, hEntry, hToday, hFront, hBack, hKept, fun hMethod => ?_⟩
  exact absurd (hLate.mp hMethod) (not_lt.mpr (hToday ▸ e.target_le))

/-- Once its decisions are carried out, all targets of the book are to come. -/
theorem Due.ahead (hLadder : Ladder exec.calendar) (h : Due exec today book)
    (hRolled : List.Forall₂ (CarriedOut exec today) book rolled) : Ahead exec today rolled := by
  intro p' hp' hQty' e' hEntry'
  obtain ⟨p, hp, hQty, hContract⟩ := exists_left_of_forall₂ hRolled hp'
  rw [hQty] at hQty'
  rw [Option.mem_def, hContract] at hEntry'
  cases hDecision : exec.decideRoll today p with
  | none =>
    rw [hDecision] at hEntry'
    refine lt_of_not_ge fun hReached => ?_
    have hSome := decideRoll_isSome hQty' hEntry' hReached
    rw [hDecision] at hSome
    cases hSome
  | some d =>
    obtain ⟨e, hEntry, rfl, -, hBack, -⟩ := h.decided hp hDecision
    rw [hDecision] at hEntry'
    exact hLadder.advances hEntry (hBack ▸ hEntry')

theorem Ahead.traded (h : Ahead exec today rolled) (hTraded : Traded exec today rolled next) :
    Ahead exec today next := by
  intro p hp hQty e hEntry
  rcases hTraded p hp hQty with ⟨q, hq, hHeld, hSame⟩ | hFresh
  · exact h q hq hHeld e (hSame ▸ hEntry)
  · exact hFresh e hEntry

/-- A target between two dates that leave out no trading day is the second of them. -/
theorem Ahead.due (hLadder : Ladder exec.calendar) (h : Ahead exec today book) {tomorrow : Date}
    (hNext : ∀ d, today < d → d < tomorrow → CMETradingCalendar.default.isTradingDay d ≠ .ok true) :
    Due exec tomorrow book := by
  intro p hp hQty e hEntry
  by_contra hPassed
  exact hNext e.rollTarget (h p hp hQty e hEntry) (not_le.mp hPassed) (hLadder.open_target hEntry)

theorem RollRun.due (hLadder : Ladder exec.calendar) {days : List Date} (hDays : EveryTradingDay days)
    {log : List (Date × List OpenPosition)} (hRun : RollRun exec days book log)
    (hStart : ∀ first ∈ days.head?, Due exec first book) : ∀ entry ∈ log, Due exec entry.1 entry.2 := by
  induction hRun with
  | nil => simp
  | @day today days book rolled next log hRolled hTraded hRest ih =>
    have hDue := hStart today rfl
    have hAhead := (hDue.ahead hLadder hRolled).traded hTraded
    refine List.forall_mem_cons.mpr ⟨hDue, ih hDays.tail ?_⟩
    intro tomorrow hTomorrow
    exact hAhead.due hLadder (hDays.rel_head? hTomorrow).2

end Steps

/-! ## The calendars of the builder -/

theorem IsCycle.monthOf_lt {cycle : List Char} (h : IsCycle cycle) {code nextCode : Char}
    (hNext : cycle[cycle.idxOf code + 1]? = some nextCode) : monthOf code < monthOf nextCode := by
  obtain ⟨hIndex, hGet⟩ := List.getElem?_eq_some_iff.mp hNext
  have hStep := (List.isChain_iff_getElem.mp h.ordered (cycle.idxOf code) hIndex).2
  rwa [List.getElem_idxOf, hGet] at hStep

/-- The contract that the cycle of a root puts after another. -/
theorem exists_follows {root : String} {cycle : List Char} {r : ℕ × Char} {back : ContractSymbol}
    (hCycle : rootCycle.get? root = some cycle) (hMem : r.2 ∈ cycle)
    (hBack : nextContract (contractSymbol root r.2 r.1) = .ok back) :
    ∃ r', Follows cycle r r' ∧ r'.2 ∈ cycle ∧ back = contractSymbol root r'.2 r'.1 := by
  obtain ⟨-, hIsCycle⟩ := isCycle_of_get? hCycle
  obtain ⟨first, hFirst⟩ := Option.isSome_iff_exists.mp (List.isSome_head?.mpr hIsCycle.ne_nil)
  obtain ⟨r', hFollows, hMem'⟩ : ∃ r', Follows cycle r r' ∧ r'.2 ∈ cycle := by
    cases hNext : cycle[cycle.idxOf r.2 + 1]? with
    | some nextCode =>
      exact ⟨(r.1, nextCode), .inl ⟨rfl, hNext, hIsCycle.monthOf_lt hNext⟩,
        List.mem_of_getElem? hNext⟩
    | none => exact ⟨(r.1 + 1, first), .inr ⟨rfl, hNext, hFirst⟩, List.mem_of_head? hFirst⟩
  refine ⟨r', hFollows, hMem', ?_⟩
  rw [nextContract_of_follows hCycle hMem hFollows] at hBack
  exact (Except.ok.inj hBack).symm

/-- What the builder makes of one contract of one root over some years. -/
def CycleEntry (startYear endYear : ℕ) (e : RollCalendarEntry) : Prop :=
  ∃ root spec cycle r, (root, spec) ∈ rollSpecs.items ∧ rootCycle.get? root = some cycle ∧
    r ∈ requests cycle startYear endYear ∧ Built root spec r e

theorem buildCycle_entries {root : String} (hRoot : root ∈ rollSpecs.keys) {startYear endYear : ℕ}
    (hYears : startYear ≤ endYear) : ∃ entries,
      default.buildCycle root startYear endYear = .ok entries ∧ ∀ e ∈ entries, CycleEntry startYear endYear e := by
  obtain ⟨spec, hSpec⟩ := (rollSpecs.mem_keys_iff root).mp hRoot
  have hItem := (rollSpecs.mem_items_iff root spec).mpr hSpec
  obtain ⟨-, -, -, -, -, hSome⟩ := rollSpecs_fit _ hItem
  obtain ⟨cycle, hCycle⟩ := Option.isSome_iff_exists.mp hSome
  have hEach : ∀ r ∈ requests cycle startYear endYear, ∃ e,
      default.build (contractSymbol root r.2 r.1) = .ok e ∧ CycleEntry startYear endYear e := by
    intro r hr
    obtain ⟨e, hOk, hBuilt⟩ := build_ok hItem hCycle (mem_requests.mp hr).2
    exact ⟨e, hOk, root, spec, cycle, r, hItem, hCycle, hr, hBuilt⟩
  obtain ⟨entries, hEntries, hBuilt⟩ := except_mapM_forall₂ hEach
  refine ⟨entries, ?_, fun e he => ?_⟩
  · unfold buildCycle
    simp only [hCycle, if_neg (not_lt.mpr hYears), contractsOf_eq, List.mapM_map]
    exact hEntries
  · obtain ⟨-, -, hEntry⟩ := exists_left_of_forall₂ hBuilt he
    exact hEntry

/-- Two entries of which the one is of the contract that the other rolls into. -/
theorem CycleEntry.advances {startYear endYear : ℕ} (hFirst : 1950 ≤ startYear) (hLast : endYear ≤ 2048)
    {e e' : RollCalendarEntry} (h : CycleEntry startYear endYear e) (h' : CycleEntry startYear endYear e')
    (hNext : e'.frontSymbol = e.backSymbol) : e.rollTarget < e'.rollTarget := by
  obtain ⟨root, spec, cycle, r, hItem, hCycle, hr, hBuilt⟩ := h
  obtain ⟨root', spec', cycle', r', hItem', hCycle', hr', hBuilt'⟩ := h'
  obtain ⟨hYears, hMem⟩ := mem_requests.mp hr
  obtain ⟨-, hMem'⟩ := mem_requests.mp hr'
  obtain ⟨s, hFollows, hMemS, hBack⟩ := exists_follows hCycle hMem hBuilt.back_eq
  rw [hBuilt'.delivers.front_eq, hBack] at hNext
  -- the symbol names the root, the month and the two-digit year
  obtain ⟨hRoot, hIsCycle⟩ := isCycle_of_get? hCycle
  obtain ⟨hRoot', hIsCycle'⟩ := isCycle_of_get? hCycle'
  have hParsed := parseContract_contractSymbol hRoot (hIsCycle.known s.2 hMemS).1 s.1
  rw [← hNext, parseContract_contractSymbol hRoot' (hIsCycle'.known r'.2 hMem').1 r'.1] at hParsed
  obtain ⟨rfl, hCode, hYear⟩ : root' = root ∧ r'.2 = s.2 ∧ expandYear (r'.1 % 100) = expandYear (s.1 % 100) := by
    simpa using Except.ok.inj hParsed
  obtain rfl : spec' = spec := Option.some.inj
    (((rollSpecs.mem_items_iff _ _).mp hItem').symm.trans ((rollSpecs.mem_items_iff _ _).mp hItem))
  apply hBuilt.target_lt hBuilt'
  rw [hCode, hYear]
  refine monthIndex_lt_of_follows hIsCycle hMem hMemS hFollows fun hWraps => ?_
  have := hWraps.1
  omega

theorem ladder_of_entries {startYear endYear : ℕ} (hFirst : 1950 ≤ startYear) (hLast : endYear ≤ 2048)
    {entries : List RollCalendarEntry} (hEntries : ∀ e ∈ entries, CycleEntry startYear endYear e) :
    Ladder (staticRollCalendar entries) := by
  have hLookup : ∀ {c e}, staticRollCalendar entries c = some e → e ∈ entries ∧ e.frontSymbol = c := by
    intro c e h
    obtain ⟨e', he', hPair⟩ := List.mem_map.mp (Dict.mem_of_get?_ofList h)
    cases hPair
    exact ⟨he', rfl⟩
  refine ⟨fun h => ?_, fun h h' => ?_⟩
  · obtain ⟨root, spec, cycle, r, -, -, -, hBuilt⟩ := hEntries _ (hLookup h).1
    exact hBuilt.delivers.target_open
  · exact (hEntries _ (hLookup h).1).advances hFirst hLast (hEntries _ (hLookup h').1) (hLookup h').2

/-- Asked on every trading day, over the calendars of any roots, the executor decides each roll on the
target of the contract, never late, and never leaves a contract held past its target. -/
theorem rolls_on_schedule {roots : List String} (hRoots : ∀ root ∈ roots, root ∈ rollSpecs.keys)
    {startYear endYear : ℕ} (hFirst : 1950 ≤ startYear) (hYears : startYear ≤ endYear)
    (hLast : endYear ≤ 2048) :
    ∃ cycles, (roots.mapM fun root => default.buildCycle root startYear endYear) = .ok cycles ∧
      ∀ (exec : RollExecutor) (days : List Date) (book : List OpenPosition)
        (log : List (Date × List OpenPosition)), exec.calendar = staticRollCalendar cycles.flatten →
        EveryTradingDay days → RollRun exec days book log → (∀ first ∈ days.head?, Due exec first book) →
        ∀ entry ∈ log,
          (∀ p ∈ entry.2, p.qty ≠ 0 → ∀ e ∈ exec.calendar p.contract, entry.1 ≤ e.rollTarget ∧
            (e.rollTarget = entry.1 → (exec.decideRoll entry.1 p).isSome)) ∧
          (∀ d ∈ exec.decideRolls entry.1 entry.2, d.method ≠ .sequentialEmergency ∧
            ∃ p ∈ entry.2, ∃ e, exec.calendar p.contract = some e ∧ e.rollTarget = entry.1 ∧
              d.front = e.frontSymbol ∧ d.back = e.backSymbol ∧ d.qty = p.qty) := by
  obtain ⟨cycles, hCycles, hBuilt⟩ := except_mapM_forall₂ fun root hRoot =>
    buildCycle_entries (hRoots root hRoot) hYears
  have hEntries : ∀ e ∈ cycles.flatten, CycleEntry startYear endYear e := by
    intro e he
    obtain ⟨entries, hIn, he⟩ := List.mem_flatten.mp he
    obtain ⟨root, -, hAll⟩ := exists_left_of_forall₂ hBuilt hIn
    exact hAll e he
  refine ⟨cycles, hCycles, fun exec days book log hCalendar hDays hRun hStart entry hEntry => ?_⟩
  have hLadder : Ladder exec.calendar := hCalendar ▸ ladder_of_entries hFirst hLast hEntries
  have hDue := hRun.due hLadder hDays hStart entry hEntry
  constructor
  · intro p hp hQty e hLookup
    exact ⟨hDue p hp hQty e hLookup, fun hToday => decideRoll_isSome hQty hLookup hToday.le⟩
  · intro d hd
    obtain ⟨p, hp, hDecision⟩ := List.mem_filterMap.mp hd
    obtain ⟨e, hLookup, hToday, hFront, hBack, hQty, hMethod⟩ := hDue.decided hp hDecision
    exact ⟨hMethod, p, hp, e, hLookup, hToday, hFront, hBack, hQty⟩

/-- A thirteenth of March and the day after it, the target of the March contract. -/
theorem rolls_on_schedule_march :
    ∃ (cycles : List (List RollCalendarEntry)) (log : List (Date × List OpenPosition)),
      (["ES"].mapM fun root => default.buildCycle root 2025 2025) = .ok cycles ∧
      RollRun ⟨staticRollCalendar cycles.flatten, staticRollDivergenceCheck [], true⟩
        [.of 2025 3 13, .of 2025 3 14] [⟨"ESH25", 2, 5600⟩] log ∧
      ∀ entry ∈ log,
        ∀ d ∈ RollExecutor.decideRolls ⟨staticRollCalendar cycles.flatten, staticRollDivergenceCheck [], true⟩
          entry.1 entry.2, d.method ≠ .sequentialEmergency := by
  obtain ⟨cycles, hCycles, hSchedule⟩ :=
    rolls_on_schedule (show ∀ root ∈ ["ES"], root ∈ rollSpecs.keys by decide)
      (show 1950 ≤ 2025 by decide) (le_refl 2025) (by decide)
  have hTest : ((["ES"].mapM fun root => default.buildCycle root 2025 2025).toOption.any
      fun (cycles : List (List RollCalendarEntry)) =>
        (staticRollCalendar cycles.flatten "ESH25").all fun (e : RollCalendarEntry) =>
          decide (Date.of 2025 3 13 ≤ e.rollTarget)) = true := by
    decide +kernel
  rw [hCycles] at hTest
  obtain ⟨log, hRun, -⟩ := exists_rollRun
    ⟨staticRollCalendar cycles.flatten, staticRollDivergenceCheck [], true⟩
    [.of 2025 3 13, .of 2025 3 14] [⟨"ESH25", 2, 5600⟩]
  refine ⟨cycles, log, hCycles, hRun, fun entry hEntry d hd => ?_⟩
  have hDays : EveryTradingDay [.of 2025 3 13, .of 2025 3 14] := by
    refine .cons_cons ⟨by decide, fun d hAfter hBefore => ?_⟩ (.singleton _)
    have hFrom := Date.toOrdinal_lt_of_lt hAfter
    have hTo := Date.toOrdinal_lt_of_lt hBefore
    have hNext : (Date.of 2025 3 14).toOrdinal = (Date.of 2025 3 13).toOrdinal + 1 := by decide
    omega
  refine ((hSchedule _ _ _ _ rfl hDays hRun ?_ entry hEntry).2 d hd).1
  rintro first ⟨rfl⟩ p hp - e hLookup
  obtain rfl := List.mem_singleton.mp hp
  have hAll : (staticRollCalendar cycles.flatten "ESH25").all
      (fun (e : RollCalendarEntry) => decide (Date.of 2025 3 13 ≤ e.rollTarget)) = true := hTest
  have hSome : staticRollCalendar cycles.flatten "ESH25" = some e := hLookup
  rw [hSome] at hAll
  exact of_decide_eq_true hAll

end Futur3.Execution
