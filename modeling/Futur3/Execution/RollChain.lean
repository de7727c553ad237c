import Futur3.Execution.ExpiryRules
import Futur3.Prelude.SideBySide

/-! # The roll calendar of a root

A symbol keeps two digits of its year, which stand for a year from 1950 to 2049.
Over any years the entries of a root form one chain, each with its roll window
in order before the last trading day and before first notice; from one entry to
the next the window moves on, except where the two-digit years wrap.
-/

namespace Futur3.Execution

open Data Contracts Prelude Landings RollCalendarBuilder

/-! ## Symbols -/

theorem expandYear_eq (year : ℕ) : expandYear (year % 100) = 1950 + (year + 50) % 100 := by
  unfold expandYear year2digitPivot
  split_ifs <;> omega

theorem contractSymbol_congr (root : String) (code : Char) {year year' : ℕ}
    (h : year % 100 = year' % 100) : contractSymbol root code year = contractSymbol root code year' := by
  unfold contractSymbol
  rw [h]

theorem zeroPadded_two {yy : ℕ} (h : yy < 100) : ∃ tens ones, zeroPadded 2 yy = [tens, ones] := by
  have hLengths : ∀ yy < 100, (zeroPadded 2 yy).length = 2 := by decide
  exact List.length_eq_two.mp (hLengths yy h)

/-- Reading a formatted symbol gives its root, its month code and the year its digits stand for. -/
theorem parseContract_contractSymbol {root : String} {code : Char} (hRoot : root ≠ "")
    (hCode : monthCodeToNum.contains code) (year : ℕ) :
    parseContract (contractSymbol root code year) = .ok (root, code, expandYear (year % 100)) := by
  obtain ⟨tens, ones, hDigits⟩ := zeroPadded_two (Nat.mod_lt year (show 0 < 100 by decide))
  obtain ⟨last, rest, hRest⟩ : ∃ last rest, root.toList.reverse = last :: rest := by
    refine List.exists_cons_of_ne_nil fun hNil => hRoot ?_
    rw [List.reverse_eq_nil_iff] at hNil
    exact String.toList_eq_nil_iff.mp hNil
  have hChars : (contractSymbol root code year).toList.reverse = ones :: tens :: code :: last :: rest := by
    unfold contractSymbol
    rw [String.toList_append, String.toList_ofList, hDigits, List.reverse_append, hRest]
    rfl
  have hTens : tens.isDigit := isDigit_of_mem_zeroPadded (by rw [hDigits]; simp)
  have hOnes : ones.isDigit := isDigit_of_mem_zeroPadded (by rw [hDigits]; simp)
  have hName : String.ofList (last :: rest).reverse = root := by
    rw [← hRest, List.reverse_reverse, String.ofList_toList]
  unfold parseContract
  rw [hChars]
  simp only [hCode, hTens, hOnes, hName, ← hDigits, ofDigitChars_zeroPadded]
  rfl

/-! ## Cycles -/

/-- The codes of a cycle are of successive months, and each is followed by the next one. -/
structure IsCycle (cycle : List Char) : Prop where
  ne_nil : cycle ≠ []
  known : ∀ code ∈ cycle, monthCodeToNum.contains code ∧ 1 ≤ monthOf code ∧ monthOf code ≤ 12
  ordered : cycle.IsChain fun code nextCode =>
    cycle[cycle.idxOf code + 1]? = some nextCode ∧ monthOf code < monthOf nextCode
  closed : ∀ last ∈ cycle.getLast?, cycle[cycle.idxOf last + 1]? = none

theorem isCycle_of_mem {cycle : List Char} (h : cycle ∈ [quarterly, monthly, biMonthly, hknuz]) :
    IsCycle cycle := by
  have hAll : ∀ cycle ∈ [quarterly, monthly, biMonthly, hknuz], cycle ≠ [] ∧
      (cycle.all fun code =>
        monthCodeToNum.contains code ∧ 1 ≤ monthOf code ∧ monthOf code ≤ 12) = true ∧
      (cycle.IsChain fun code nextCode =>
        cycle[cycle.idxOf code + 1]? = some nextCode ∧ monthOf code < monthOf nextCode) ∧
      (cycle.getLast?.all fun last => cycle[cycle.idxOf last + 1]? = none) = true := by decide
  obtain ⟨hNil, hKnown, hOrdered, hClosed⟩ := hAll cycle h
  refine ⟨hNil, fun code hCode => ?_, hOrdered, fun last hLast => ?_⟩
  · exact of_decide_eq_true (List.all_eq_true.mp hKnown code hCode)
  · rw [Option.mem_def.mp hLast] at hClosed
    exact of_decide_eq_true hClosed

theorem isCycle_of_get? {root : String} {cycle : List Char} (h : rootCycle.get? root = some cycle) :
    root ≠ "" ∧ IsCycle cycle := by
  have hAll : ∀ p ∈ rootCycle.items, p.1 ≠ "" ∧ p.2 ∈ [quarterly, monthly, biMonthly, hknuz] := by
    decide
  obtain ⟨hRoot, hCycle⟩ := hAll (root, cycle) ((rootCycle.mem_items_iff root cycle).mpr h)
  exact ⟨hRoot, isCycle_of_mem hCycle⟩

def Follows (cycle : List Char) (r r' : ℕ × Char) : Prop :=
  (r'.1 = r.1 ∧ cycle[cycle.idxOf r.2 + 1]? = some r'.2 ∧ monthOf r.2 < monthOf r'.2) ∨
    r'.1 = r.1 + 1 ∧ cycle[cycle.idxOf r.2 + 1]? = none ∧ cycle.head? = some r'.2

theorem nextContract_of_follows {root : String} {cycle : List Char} {r r' : ℕ × Char}
    (hCycle : rootCycle.get? root = some cycle) (hMem : r.2 ∈ cycle) (h : Follows cycle r r') :
    nextContract (contractSymbol root r.2 r.1) = .ok (contractSymbol root r'.2 r'.1) := by
  obtain ⟨hRoot, hIsCycle⟩ := isCycle_of_get? hCycle
  have hExpand := expandYear_eq r.1
  unfold nextContract
  rw [parseContract_contractSymbol hRoot (hIsCycle.known r.2 hMem).1, except_ok_bind]
  simp only [hCycle, not_true_eq_false, if_false, hMem]
  rcases h with ⟨hYear, hNext, -⟩ | ⟨hYear, hLast, hHead⟩
  · simp only [hNext]
    exact congrArg Except.ok (contractSymbol_congr _ _ (by omega))
  · simp only [hLast, List.headD_eq_head?_getD, hHead, Option.getD_some]
    exact congrArg Except.ok (contractSymbol_congr _ _ (by omega))

/-! ## The contracts of a root -/

/-- The years and month codes of the contracts, in the order in which they are built. -/
def requests (cycle : List Char) (startYear endYear : ℕ) : List (ℕ × Char) :=
  (List.range' startYear (endYear + 1 - startYear)).flatMap fun year =>
    cycle.map fun code => (year, code)

theorem contractsOf_eq (root : String) (cycle : List Char) (startYear endYear : ℕ) :
    contractsOf root cycle startYear endYear =
      (requests cycle startYear endYear).map fun r => contractSymbol root r.2 r.1 := by
  simp [contractsOf, requests, List.map_flatMap, Function.comp_def]

theorem length_requests (cycle : List Char) (startYear endYear : ℕ) :
    (requests cycle startYear endYear).length = (endYear + 1 - startYear) * cycle.length := by
  simp [requests, List.length_flatMap]

theorem mem_requests {cycle : List Char} {startYear endYear : ℕ} {r : ℕ × Char} :
    r ∈ requests cycle startYear endYear ↔
      (startYear ≤ r.1 ∧ r.1 ≤ endYear) ∧ r.2 ∈ cycle := by
  unfold requests
  simp only [List.mem_flatMap, List.mem_map, List.mem_range'_1]
  constructor
  · rintro ⟨year, hYear, code, hCode, rfl⟩
    exact ⟨⟨hYear.1, by omega⟩, hCode⟩
  · rintro ⟨hYear, hCode⟩
    exact ⟨r.1, ⟨hYear.1, by omega⟩, r.2, hCode, rfl⟩

theorem requests_isChain {cycle : List Char} (hCycle : IsCycle cycle) (startYear endYear : ℕ) :
    (requests cycle startYear endYear).IsChain (Follows cycle) := by
  unfold requests
  rw [List.flatMap_def, List.isChain_flatten (by simp [hCycle.ne_nil])]
  constructor
  · intro codes hCodes
    obtain ⟨year, -, rfl⟩ := List.mem_map.mp hCodes
    rw [List.isChain_map]
    exact hCycle.ordered.imp fun _ _ hNext => Or.inl ⟨rfl, hNext⟩
  · rw [List.isChain_map]
    refine (List.isChain_range' _ _ 1).imp fun year nextYear hYear last hLast first hFirst => ?_
    rw [List.getLast?_map, Option.mem_map] at hLast
    rw [List.head?_map, Option.mem_map] at hFirst
    obtain ⟨code, hCode, rfl⟩ := hLast
    obtain ⟨nextCode, hNextCode, rfl⟩ := hFirst
    exact Or.inr ⟨hYear, hCycle.closed code hCode, hNextCode⟩

/-! ## The derived days of a contract -/

/-- How the last trading day and the first notice day lie to the month of delivery. -/
inductive Expiry (root : String) (anchor : RollAnchor) (month year : ℕ) (ltd : Date) :
    Option Date → Prop
  | settled (hRoot : root ≠ "CL") (hAnchor : anchor = .ltd) (hOpen : IsOpen ltd.toOrdinal)
      (hIn : InMonth year month ltd) : Expiry root anchor month year ltd none
  | noticed (fnd : Date) (hRoot : root ≠ "CL") (hAnchor : anchor = .fnd) (hIn : InMonth year month ltd)
      (hOpen : IsOpen fnd.toOrdinal)
      (hNotice : InMonth (precedingMonth month year).1 (precedingMonth month year).2 fnd) :
      Expiry root anchor month year ltd (some fnd)
  | crude (fnd : Date) (hRoot : root = "CL") (hAnchor : anchor = .ltd) (hOpen : IsOpen ltd.toOrdinal)
      (hIn : InMonth (precedingMonth month year).1 (precedingMonth month year).2 ltd)
      (hAfter : After IsOpen 2 ltd.toOrdinal fnd.toOrdinal) :
      Expiry root anchor month year ltd (some fnd)

/-- What the roll specifications say of the roots of each rule. -/
theorem rollSpecs_fit : ∀ p ∈ rollSpecs.items,
    (p.1 ∈ equityRoots ∨ p.1 ∈ fxRoots ∨ p.1 ∈ cryptoRoots → p.1 ≠ "CL" ∧ p.2.anchor = .ltd) ∧
    (p.1 ∈ ratesRoots ∨ p.1 ∈ metalRoots → p.1 ≠ "CL" ∧ p.2.anchor = .fnd) ∧
    (p.1 = "CL" → p.2.anchor = .ltd) ∧
    (p.1 ∈ equityRoots ∨ p.1 ∈ fxRoots ∨ p.1 ∈ ratesRoots ∨ p.1 = "CL" ∨ p.1 ∈ metalRoots ∨
      p.1 ∈ cryptoRoots) ∧
    (1 ≤ p.2.deadlineOffset ∧ p.2.deadlineOffset ≤ p.2.targetOffset ∧ p.2.targetOffset ≤ 40) ∧
    (rootCycle.get? p.1).isSome := by
  decide

theorem derive_ok {root : String} {spec : RollSpec} {month year : ℕ}
    (hSpec : (root, spec) ∈ rollSpecs.items) (hMonth : 1 ≤ month ∧ month ≤ 12)
    (hYear : 10 ≤ year ∧ year ≤ 9990) :
    ∃ ltd fnd regime, default.derive root month year = .ok (ltd, fnd, regime) ∧
      Expiry root spec.anchor month year ltd fnd := by
  obtain ⟨hCash, hNotice, hCrude, hRoots, -, -⟩ := rollSpecs_fit _ hSpec
  have hInner : Inner year := ⟨by omega, hYear.2⟩
  have hSettles : ∀ {x : Result Derivation}, Settles month year x →
      root ≠ "CL" ∧ spec.anchor = .ltd → ∃ ltd fnd regime, raising x = .ok (ltd, fnd, regime) ∧
        Expiry root spec.anchor month year ltd fnd := by
    rintro x ⟨ltd, regime, rfl, hOpen, hIn⟩ ⟨hRoot, hAnchor⟩
    exact ⟨ltd, none, regime, rfl, .settled hRoot hAnchor hOpen hIn⟩
  have hNotices : ∀ {x : Result Derivation}, Notices month year x →
      root ≠ "CL" ∧ spec.anchor = .fnd → ∃ ltd fnd regime, raising x = .ok (ltd, fnd, regime) ∧
        Expiry root spec.anchor month year ltd fnd := by
    rintro x ⟨ltd, fnd, rfl, hIn, hOpen, hBefore⟩ ⟨hRoot, hAnchor⟩
    exact ⟨ltd, some fnd, "RTH", rfl, .noticed fnd hRoot hAnchor hIn hOpen hBefore⟩
  unfold derive
  split_ifs with hEquity hFx hRates hCl hMetal hCrypto
  · exact hSettles (deriveEquity_ok root hMonth hInner) (hCash (.inl hEquity))
  · exact hSettles (deriveFx_ok hMonth hInner) (hCash (.inr (.inl hFx)))
  · exact hNotices (deriveRates_ok hMonth hYear) (hNotice (.inl hRates))
  · obtain ⟨ltd, fnd, hDerived, hOpen, hIn, hAfter⟩ := deriveCl_ok hMonth hYear
    refine ⟨ltd, some fnd, "RTH", ?_, .crude fnd hCl (hCrude hCl) hOpen hIn hAfter⟩
    rw [hDerived]
    rfl
  · exact hNotices (deriveGc_ok hMonth hYear) (hNotice (.inr hMetal))
  · exact hSettles (deriveCrypto_ok hMonth hInner) (hCash (.inr (.inr hCrypto)))
  · exact absurd hRoots (by simp [hEquity, hFx, hRates, hCl, hMetal, hCrypto])

/-- By how many months the anchor of a roll comes before delivery. -/
def lead (root : String) (anchor : RollAnchor) : ℕ := if root = "CL" ∨ anchor = .fnd then 1 else 0

section Anchor

variable {root : String} {anchor : RollAnchor} {month year : ℕ} {ltd : Date} {fnd : Option Date}

/-- The anchor of the roll is a trading day of its month. -/
theorem Expiry.anchor_ok (h : Expiry root anchor month year ltd fnd) (hMonth : 1 ≤ month ∧ month ≤ 12)
    (hYear : 10 ≤ year ∧ year ≤ 9990) :
    ∃ day, (if anchor = .ltd then some ltd else fnd) = some day ∧ IsOpen day.toOrdinal ∧
      Roomy day.toOrdinal ∧ monthIndex day + lead root anchor = year * 12 + month := by
  obtain ⟨-, hPrevYear, hIndex⟩ := precedingMonth_inner hMonth hYear
  have hInner : Inner year := ⟨by omega, hYear.2⟩
  cases h with
  | settled hRoot hAnchor hOpen hIn =>
    refine ⟨ltd, if_pos hAnchor, hOpen, hIn.roomy hInner, ?_⟩
    simp [lead, hRoot, hAnchor, monthIndex, hIn.1, hIn.2]
  | noticed fnd hRoot hAnchor hIn hOpen hNotice =>
    refine ⟨fnd, if_neg (by simp [hAnchor]), hOpen, hNotice.roomy hPrevYear, ?_⟩
    simp [lead, hAnchor, monthIndex, hNotice.1, hNotice.2, hIndex]
  | crude fnd hRoot hAnchor hOpen hIn hAfter =>
    refine ⟨ltd, if_pos hAnchor, hOpen, hIn.roomy hPrevYear, ?_⟩
    simp [lead, hRoot, monthIndex, hIn.1, hIn.2, hIndex]

/-- Where first notice is two trading days after the last trading day, the trading day before it
still comes after the last trading day. -/
theorem exists_between_last_and_notice {ltd fnd : Date} (hOpen : IsOpen ltd.toOrdinal)
    (hRoomy : Roomy ltd.toOrdinal) (hAfter : After IsOpen 2 ltd.toOrdinal fnd.toOrdinal) :
    ∃ latest, CMETradingCalendar.default.addTradingDays fnd (-1) = .ok latest ∧ ltd < latest := by
  have hNotice := hAfter.lt (by decide)
  have hSoon := forward_lt hAfter hRoomy (by decide)
  have hLast : Date.daysBeforeYear 9997 + 8 ≤ Date.daysBeforeYear 9999 := by decide
  obtain ⟨latest, hLatest, hBefore⟩ := addTradingDays_backward (d := fnd) (n := 1)
    (hRoomy.1.trans hNotice.le) (by have := hRoomy.2; omega) (by decide)
  refine ⟨latest, hLatest, lt_iff_toOrdinal.mpr (Nat.lt_of_count_lt_count (p := IsOpen) ?_)⟩
  have := hAfter.count_eq_of_pos hOpen
  have := hBefore.count_eq
  omega

/-- The clamp of the deadline changes nothing, and the deadline comes before the last trading
day and before first notice. -/
theorem Expiry.clamp_ok (h : Expiry root anchor month year ltd fnd) (hMonth : 1 ≤ month ∧ month ≤ 12)
    (hYear : 10 ≤ year ∧ year ≤ 9990) {day deadline : Date} {n : ℕ} (hn : 1 ≤ n)
    (hDay : (if anchor = .ltd then some ltd else fnd) = some day)
    (hBefore : Before IsOpen n day.toOrdinal deadline.toOrdinal) :
    default.clampDeadline root deadline fnd = .ok deadline ∧ deadline < ltd ∧
      ∀ notice ∈ fnd, deadline < notice := by
  obtain ⟨-, hPrevYear, hIndex⟩ := precedingMonth_inner hMonth hYear
  have hDeadline : deadline < day := lt_iff_toOrdinal.mpr (hBefore.lt hn)
  cases h with
  | settled hRoot hAnchor hOpen hIn =>
    rw [if_pos hAnchor] at hDay
    cases hDay
    exact ⟨rfl, hDeadline, by simp⟩
  | noticed fnd hRoot hAnchor hIn hOpen hNotice =>
    rw [if_neg (by simp [hAnchor])] at hDay
    cases hDay
    have hLater : day < ltd := by
      refine lt_iff_toOrdinal.mpr (toOrdinal_lt_of_month_lt ?_)
      rw [monthIndex, monthIndex, hNotice.1, hNotice.2, hIn.1, hIn.2]
      omega
    exact ⟨if_neg hRoot, hDeadline.trans hLater, by simpa using hDeadline⟩
  | crude fnd hRoot hAnchor hOpen hIn hAfter =>
    rw [if_pos hAnchor] at hDay
    cases hDay
    have hNotice : ltd < fnd := lt_iff_toOrdinal.mpr (hAfter.lt Nat.two_pos)
    obtain ⟨latest, hLatest, hAbove⟩ :=
      exists_between_last_and_notice hOpen (hIn.roomy hPrevYear) hAfter
    refine ⟨?_, hDeadline, by simpa using hDeadline.trans hNotice⟩
    unfold clampDeadline
    refine (if_pos hRoot).trans ((except_bind_of_ok hLatest _).trans ?_)
    rw [min_eq_left (hDeadline.trans hAbove).le]
    rfl

def expiryMonth (root : String) (month year : ℕ) : ℕ × ℕ :=
  if root = "CL" then precedingMonth month year else (year, month)

theorem Expiry.ltd_month (h : Expiry root anchor month year ltd fnd) :
    (ltd.year, ltd.month) = expiryMonth root month year := by
  unfold expiryMonth
  cases h with
  | settled hRoot hAnchor hOpen hIn => rw [if_neg hRoot, hIn.1, hIn.2]
  | noticed fnd hRoot hAnchor hIn hOpen hNotice => rw [if_neg hRoot, hIn.1, hIn.2]
  | crude fnd hRoot hAnchor hOpen hIn hAfter => rw [if_pos hRoot, hIn.1, hIn.2]

end Anchor

/-! ## One entry -/

/-- The entry is of the contract that was asked for, and its window lies as it should. -/
structure Delivers (root : String) (r : ℕ × Char) (e : RollCalendarEntry) : Prop where
  front_eq : e.frontSymbol = contractSymbol root r.2 r.1
  ltd_month : (e.ltdDate.year, e.ltdDate.month) =
    expiryMonth root (monthOf r.2) (expandYear (r.1 % 100))
  requested_month : 1950 ≤ r.1 → r.1 ≤ 2049 →
    (e.ltdDate.year, e.ltdDate.month) = expiryMonth root (monthOf r.2) r.1
  target_open : CMETradingCalendar.default.isTradingDay e.rollTarget = .ok true
  deadline_open : CMETradingCalendar.default.isTradingDay e.rollDeadline = .ok true
  ordered : e.rollTarget ≤ e.rollDeadline ∧ e.rollDeadline ≤ e.ltdDate
  before_notice : ∀ fnd ∈ e.fndDate, e.rollDeadline < fnd

/-- Where the window of an entry is anchored, and the contract that it rolls into. -/
structure Built (root : String) (spec : RollSpec) (r : ℕ × Char) (e : RollCalendarEntry) : Prop where
  delivers : Delivers root r e
  back_eq : nextContract (contractSymbol root r.2 r.1) = .ok e.backSymbol
  anchored : ∃ day : Date, IsOpen day.toOrdinal ∧
    Before IsOpen spec.targetOffset day.toOrdinal e.rollTarget.toOrdinal ∧
    monthIndex day + lead root spec.anchor = expandYear (r.1 % 100) * 12 + monthOf r.2

theorem nextContract_returns {root : String} {cycle : List Char} {code : Char}
    (hCycle : rootCycle.get? root = some cycle) (hMem : code ∈ cycle) (year : ℕ) :
    ∃ back, nextContract (contractSymbol root code year) = .ok back := by
  obtain ⟨hRoot, hIsCycle⟩ := isCycle_of_get? hCycle
  unfold nextContract
  rw [parseContract_contractSymbol hRoot (hIsCycle.known code hMem).1, except_ok_bind]
  simp only [hCycle, not_true_eq_false, if_false, hMem]
  cases cycle[cycle.idxOf code + 1]? with
  | some nextCode => exact ⟨_, rfl⟩
  | none => exact ⟨_, rfl⟩

theorem rollCalendarEntry_ok {front back : String} {ltd target deadline : Date} {regime : String}
    {fnd : Option Date} (hTarget : target ≤ deadline) (hDeadline : deadline ≤ ltd) :
    rollCalendarEntry front back ltd target deadline regime fnd =
      .ok ⟨front, back, ltd, target, deadline, regime, fnd, hTarget, hDeadline⟩ := by
  unfold rollCalendarEntry
  rw [dif_neg (not_lt.mpr hTarget), dif_neg (not_lt.mpr hDeadline)]
  rfl

theorem raising_ok {α : Type} {x : Result α} {a : α} (h : x = .ok a) : raising x = .ok a := by
  rw [h]
  rfl

theorem build_ok {root : String} {spec : RollSpec} {cycle : List Char} {r : ℕ × Char}
    (hSpec : (root, spec) ∈ rollSpecs.items) (hCycle : rootCycle.get? root = some cycle)
    (hMem : r.2 ∈ cycle) :
    ∃ e, default.build (contractSymbol root r.2 r.1) = .ok e ∧ Built root spec r e := by
  obtain ⟨hRoot, hIsCycle⟩ := isCycle_of_get? hCycle
  obtain ⟨hCode, hMonth⟩ := hIsCycle.known r.2 hMem
  obtain ⟨-, -, -, -, ⟨hDeadlinePos, hOffsets, hTargetLe⟩, -⟩ := rollSpecs_fit _ hSpec
  have hYear : 10 ≤ expandYear (r.1 % 100) ∧ expandYear (r.1 % 100) ≤ 9990 := by
    have := expandYear_eq r.1
    omega
  obtain ⟨ltd, fnd, regime, hDerived, hExpiry⟩ := derive_ok hSpec hMonth hYear
  obtain ⟨day, hDay, hOpen, hRoomy, hIndex⟩ := hExpiry.anchor_ok hMonth hYear
  obtain ⟨target, hTarget, hTargetBefore⟩ := addTradingDays_backward hRoomy.1 hRoomy.le_last
    (n := spec.targetOffset) ⟨hDeadlinePos.trans hOffsets, hTargetLe⟩
  obtain ⟨deadline, hDeadline, hDeadlineBefore⟩ := addTradingDays_backward hRoomy.1 hRoomy.le_last
    (n := spec.deadlineOffset) ⟨hDeadlinePos, hOffsets.trans hTargetLe⟩
  obtain ⟨hClamp, hBeforeLtd, hBeforeNotice⟩ := hExpiry.clamp_ok hMonth hYear hDeadlinePos hDay
    hDeadlineBefore
  obtain ⟨back, hBack⟩ := nextContract_returns hCycle hMem r.1
  have hRequested : 1950 ≤ r.1 → r.1 ≤ 2049 →
      (ltd.year, ltd.month) = expiryMonth root (monthOf r.2) r.1 := by
    intro hLow hHigh
    have hSame : expandYear (r.1 % 100) = r.1 := by
      rw [expandYear_eq]
      omega
    rw [hExpiry.ltd_month, hSame]
  have hOrdered : target ≤ deadline :=
    le_iff_toOrdinal.mpr (hDeadlineBefore.le_of_le hTargetBefore hOffsets)
  refine ⟨⟨_, back, ltd, target, deadline, regime, fnd, hOrdered, hBeforeLtd.le⟩, ?_, ⟨rfl,
    hExpiry.ltd_month, hRequested, isOpen_iff.mp hTargetBefore.lands,
    isOpen_iff.mp hDeadlineBefore.lands,
    ⟨hOrdered, hBeforeLtd.le⟩, hBeforeNotice⟩, hBack, day, hOpen, hTargetBefore, hIndex⟩
  unfold build
  refine (except_bind_of_ok (parseContract_contractSymbol hRoot hCode r.1) _).trans ?_
  simp only [(rollSpecs.mem_items_iff root spec).mp hSpec]
  refine (except_bind_of_ok hDerived _).trans ?_
  simp only [hDay]
  refine (except_bind_of_ok (raising_ok hTarget) _).trans ?_
  refine (except_bind_of_ok (raising_ok hDeadline) _).trans ?_
  refine (except_bind_of_ok (raising_ok hClamp) _).trans ?_
  refine (except_bind_of_ok hBack _).trans ?_
  exact rollCalendarEntry_ok hOrdered hBeforeLtd.le

/-! ## The chain -/

def Wraps (r r' : ℕ × Char) : Prop := r.1 % 100 = 49 ∧ r'.1 % 100 = 50

theorem monthIndex_lt_of_follows {cycle : List Char} {r r' : ℕ × Char} (hCycle : IsCycle cycle)
    (hMem : r.2 ∈ cycle) (hMem' : r'.2 ∈ cycle) (h : Follows cycle r r') (hWraps : ¬Wraps r r') :
    expandYear (r.1 % 100) * 12 + monthOf r.2 < expandYear (r'.1 % 100) * 12 + monthOf r'.2 := by
  obtain ⟨-, hLow, hHigh⟩ := hCycle.known r.2 hMem
  obtain ⟨-, hLow', hHigh'⟩ := hCycle.known r'.2 hMem'
  rw [expandYear_eq, expandYear_eq]
  unfold Wraps at hWraps
  rcases h with ⟨hYear, -, hMonths⟩ | ⟨hYear, -, -⟩
  · rw [hYear]
    omega
  · omega

/-- A later anchor moves the whole window on. -/
theorem Built.target_lt {root : String} {spec : RollSpec} {r r' : ℕ × Char}
    {e e' : RollCalendarEntry} (h : Built root spec r e) (h' : Built root spec r' e')
    (hMonths : expandYear (r.1 % 100) * 12 + monthOf r.2 <
      expandYear (r'.1 % 100) * 12 + monthOf r'.2) : e.rollTarget < e'.rollTarget := by
  obtain ⟨day, hOpen, hBefore, hIndex⟩ := h.anchored
  obtain ⟨day', -, hBefore', hIndex'⟩ := h'.anchored
  have hDays : day.toOrdinal < day'.toOrdinal := toOrdinal_lt_of_month_lt (by omega)
  exact lt_iff_toOrdinal.mpr (hBefore.lt_of_lt hOpen hDays hBefore')

abbrev TargetsIncrease (entries : List RollCalendarEntry) : Prop :=
  entries.IsChain fun e e' => e.rollTarget < e'.rollTarget

structure RollChain (root : String) (cycle : List Char) (startYear endYear : ℕ)
    (entries : List RollCalendarEntry) : Prop where
  length_eq : entries.length = (endYear + 1 - startYear) * cycle.length
  delivers : List.Forall₂ (Delivers root) (requests cycle startYear endYear) entries
  linked : entries.IsChain fun e e' => e.backSymbol = e'.frontSymbol
  advances : ((requests cycle startYear endYear).zip entries).IsChain fun p p' =>
    Wraps p.1 p'.1 ∨ p.2.rollTarget < p'.2.rollTarget
  increasing : (startYear + 50) / 100 = (endYear + 50) / 100 → TargetsIncrease entries

theorem rollChain_of_built {root : String} {spec : RollSpec} {cycle : List Char}
    {startYear endYear : ℕ} {entries : List RollCalendarEntry}
    (hCycle : rootCycle.get? root = some cycle)
    (hBuilt : List.Forall₂ (Built root spec) (requests cycle startYear endYear) entries) :
    RollChain root cycle startYear endYear entries := by
  obtain ⟨-, hIsCycle⟩ := isCycle_of_get? hCycle
  have hFollows : (requests cycle startYear endYear).IsChain fun r r' =>
      r ∈ requests cycle startYear endYear ∧ r' ∈ requests cycle startYear endYear ∧
        Follows cycle r r' := List.IsChain.iff_mem.mp (requests_isChain hIsCycle startYear endYear)
  have hZip := isChain_zip hBuilt hFollows
  have hAdvances : ∀ {r r' e e'}, r ∈ requests cycle startYear endYear →
      r' ∈ requests cycle startYear endYear → Follows cycle r r' → Built root spec r e →
      Built root spec r' e' → Wraps r r' ∨ e.rollTarget < e'.rollTarget := by
    intro r r' e e' hIn hIn' hNext h h'
    rw [or_iff_not_imp_left]
    intro hWraps
    exact h.target_lt h' (monthIndex_lt_of_follows hIsCycle (mem_requests.mp hIn).2
      (mem_requests.mp hIn').2 hNext hWraps)
  refine ⟨?_, hBuilt.imp fun _ _ h => h.delivers, isChain_of_zip hBuilt (hZip.imp ?_), hZip.imp ?_,
    fun hYears => isChain_of_zip hBuilt (hZip.imp ?_)⟩
  · rw [← hBuilt.length_eq, length_requests]
  · rintro p p' ⟨⟨hIn, -, hNext⟩, h, h'⟩
    have hBack := h.back_eq
    rw [nextContract_of_follows hCycle (mem_requests.mp hIn).2 hNext] at hBack
    rw [h'.delivers.front_eq]
    exact (Except.ok.inj hBack).symm
  · rintro p p' ⟨⟨hIn, hIn', hNext⟩, h, h'⟩
    exact hAdvances hIn hIn' hNext h h'
  · rintro p p' ⟨⟨hIn, hIn', hNext⟩, h, h'⟩
    rcases hAdvances hIn hIn' hNext h h' with hWraps | hLt
    · -- no two of the years lie on the two sides of a wrap
      obtain ⟨hFirst, hLast⟩ := (mem_requests.mp hIn).1
      obtain ⟨hFirst', hLast'⟩ := (mem_requests.mp hIn').1
      obtain ⟨hEnd, hStart⟩ := hWraps
      rcases hNext with ⟨hYear, -⟩ | ⟨hYear, -⟩ <;> omega
    · exact hLt

/-- Every roll calendar is a chain of windows in order, in the years that its two-digit years
stand for. -/
theorem buildCycle_rollChain {root : String} (hRoot : root ∈ rollSpecs.keys) {startYear endYear : ℕ}
    (hYears : startYear ≤ endYear) :
    ∃ cycle entries, rootCycle.get? root = some cycle ∧
      default.buildCycle root startYear endYear = .ok entries ∧
      RollChain root cycle startYear endYear entries := by
  obtain ⟨spec, hSpec⟩ := (rollSpecs.mem_keys_iff root).mp hRoot
  have hItem := (rollSpecs.mem_items_iff root spec).mpr hSpec
  obtain ⟨-, -, -, -, -, hSome⟩ := rollSpecs_fit _ hItem
  obtain ⟨cycle, hCycle⟩ := Option.isSome_iff_exists.mp hSome
  have hEach : ∀ r ∈ requests cycle startYear endYear, ∃ e,
      default.build (contractSymbol root r.2 r.1) = .ok e ∧ Built root spec r e := by
    intro r hr
    exact build_ok hItem hCycle (mem_requests.mp hr).2
  obtain ⟨entries, hEntries, hBuilt⟩ := except_mapM_forall₂ hEach
  refine ⟨cycle, entries, hCycle, ?_, rollChain_of_built hCycle hBuilt⟩
  unfold buildCycle
  simp only [hCycle, if_neg (not_lt.mpr hYears), contractsOf_eq, List.mapM_map]
  exact hEntries

theorem buildCycle_rollChain_es : ∃ entries, default.buildCycle "ES" 2025 2026 = .ok entries ∧
    entries.length = 8 ∧ TargetsIncrease entries := by
  obtain ⟨cycle, entries, hCycle, hEntries, hChain⟩ :=
    buildCycle_rollChain (show "ES" ∈ rollSpecs.keys by decide) (show 2025 ≤ 2026 by decide)
  have hQuarterly : cycle = quarterly := Option.some.inj (hCycle.symm.trans (by decide))
  subst hQuarterly
  exact ⟨entries, hEntries, hChain.length_eq, hChain.increasing (by decide)⟩

/-- Past 2049 the two-digit year is read back as one of the last century. -/
theorem two_digit_years_wrap : ∃ entries, default.buildCycle "ES" 2049 2050 = .ok entries ∧
    ¬TargetsIncrease entries ∧
    ∃ e ∈ entries, e.frontSymbol = contractSymbol "ES" 'H' 2050 ∧ e.ltdDate.year = 1950 := by
  have hEntries : (default.buildCycle "ES" 2049 2050).toOption.any (fun entries =>
      decide (¬TargetsIncrease entries ∧ ∃ e ∈ entries,
        e.frontSymbol = contractSymbol "ES" 'H' 2050 ∧ e.ltdDate.year = 1950)) = true := by
    decide +kernel
  obtain ⟨entries, hOk, hTest⟩ := except_exists_ok hEntries
  exact ⟨entries, hOk, of_decide_eq_true hTest⟩

end Futur3.Execution
