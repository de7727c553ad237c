import Futur3.Data.CotSource
import Futur3.Prelude.Method
import Futur3.Prelude.StableSort

/-! # The views of the reports held in memory

A view is the stable sort of the reports that the fetch window and the publication gate
let through. Publications follow the dates of the reports, a week apart, so an earlier
view is the front of a later one.
-/

namespace Futur3.Data

open Prelude Selection Contracts

/-! ## The publication moment -/

theorem toOrdinal_plusDays? {d e : Date} {n : ℕ} (h : d.plusDays? n = some e) :
    e.toOrdinal = d.toOrdinal + n := by
  induction n generalizing d with
  | zero =>
    cases h
    rfl
  | succ n ih =>
    obtain ⟨next, hNext, hRest⟩ := Option.bind_eq_some_iff.mp h
    rw [ih hRest, Date.toOrdinal_next? hNext]
    omega

theorem valueKnownAtForReport_ok {et : TimeZone} {d : Date} {known : DateTime}
    (h : valueKnownAtForReport et d = .ok known) : ∃ publication : Date,
      weekday d ≤ friday ∧ publication.toOrdinal = d.toOrdinal + (friday - weekday d) ∧
        known = et.combine publication cotReleaseTimeEt cotReleaseTimeEt_lt := by
  unfold valueKnownAtForReport at h
  split at h
  · cases h
  · rename_i hWeekday
    split at h
    · cases h
    · rename_i publication hDays
      cases h
      exact ⟨publication, not_lt.mp hWeekday, toOrdinal_plusDays? hDays, rfl⟩

/-- A later snapshot is published in the same week or at least a week later. -/
theorem known_mono {et : TimeZone} {d d' : Date} {known known' : DateTime} (hLe : d ≤ d')
    (h : valueKnownAtForReport et d = .ok known) (h' : valueKnownAtForReport et d' = .ok known') :
    known.instant ≤ known'.instant := by
  obtain ⟨p, hWeekday, hDay, rfl⟩ := valueKnownAtForReport_ok h
  obtain ⟨p', hWeekday', hDay', rfl⟩ := valueKnownAtForReport_ok h'
  have hOrdinal : d.toOrdinal ≤ d'.toOrdinal := by
    rcases hLe.eq_or_lt with rfl | hLt
    · exact le_rfl
    · exact (Date.toOrdinal_lt_of_lt hLt).le
  have hWeeks : p.toOrdinal = p'.toOrdinal ∨ p.toOrdinal + 7 ≤ p'.toOrdinal := by
    unfold weekday friday at *
    omega
  rcases hWeeks with hSame | hLater
  · rw [Date.toOrdinal_injective hSame]
  · have hOffset := et.offset_lt p cotReleaseTimeEt
    have hOffset' := et.offset_lt p' cotReleaseTimeEt
    simp only [DateTime.instant, TimeZone.combine, Option.getD_some]
    unfold dayMicros at *
    omega

/-! ## What a view holds -/

section View

variable (code : String) (flavor : COTReportFlavor) (since : Date) (asOf : DateTime)

def knownSince (r : COTReport) : Bool :=
  r.cftcContractMarketCode = code ∧ r.flavor = flavor ∧ since ≤ r.reportDate ∧
    r.valueKnownAtIso.instant ≤ asOf.instant

/-- The reports that the fetch window and the gate let through. -/
def inView (r : COTReport) : Bool := knownSince code flavor since asOf r ∧ r.reportDate ≤ asOf.date

theorem knownSince_iff (r : COTReport) : knownSince code flavor since asOf r = true ↔
    r.cftcContractMarketCode = code ∧ r.flavor = flavor ∧ since ≤ r.reportDate ∧
      r.valueKnownAtIso.instant ≤ asOf.instant := decide_eq_true_iff

theorem inView_iff (r : COTReport) : inView code flavor since asOf r = true ↔
    knownSince code flavor since asOf r = true ∧ r.reportDate ≤ asOf.date := decide_eq_true_iff

end View

theorem except_filterM_ok {ε : Type} {α : Type} {f : α → Except ε Bool} {p : α → Bool} {items : List α}
    (h : ∀ a ∈ items, f a = .ok (p a)) : items.filterM f = .ok (items.filter p) := by
  have hAux : ∀ (rest acc : List α), (∀ a ∈ rest, f a = .ok (p a)) →
      rest.filterAuxM f acc = .ok ((rest.filter p).reverse ++ acc) := by
    intro rest
    induction rest with
    | nil => exact fun _ _ => rfl
    | cons a rest ih =>
      intro acc hRest
      have hLater := ih (cond (p a) (a :: acc) acc) fun b hb => hRest b (List.mem_cons_of_mem a hb)
      rw [List.filterAuxM, except_bind_of_ok (hRest a List.mem_cons_self), hLater]
      cases hp : p a <;> simp [hp]
  rw [List.filterM, except_bind_of_ok (hAux items [] h)]
  simp [pure, Except.pure]

theorem COTSource.reportsKnownAt_of_fetched {src : COTSource} {code : String} {flavor : COTReportFlavor} {since : Date}
    {asOf : DateTime} (hAware : asOf.isAware) {raw : List COTReport}
    (h : src.fetchReports code flavor since asOf.date = .ok raw) :
    src.reportsKnownAt code flavor asOf since =
      .ok (sortBy COTReport.reportDate (raw.filter fun r => r.valueKnownAtIso.instant ≤ asOf.instant)) := by
  have hGate : ∀ r ∈ raw, (do return (← enforceCotPitGate (some r) asOf).isSome : Except COTFailure Bool) =
      .ok (decide (r.valueKnownAtIso.instant ≤ asOf.instant)) := by
    intro r _
    rw [enforceCotPitGate, if_pos hAware]
    by_cases hKnown : r.valueKnownAtIso.instant ≤ asOf.instant
    · simp [Option.filter, hKnown]
      rfl
    · simp [Option.filter, hKnown]
      rfl
  unfold COTSource.reportsKnownAt
  rw [if_pos hAware, h, except_ok_bind, except_bind_of_ok (except_filterM_ok hGate)]
  rfl

namespace InMemoryCOTSource

variable {src : InMemoryCOTSource} {code : String} {flavor : COTReportFlavor} {since : Date} {asOf : DateTime}

theorem reportsKnownAt_eq (hAware : asOf.isAware) (src : InMemoryCOTSource) :
    src.toCOTSource.reportsKnownAt code flavor asOf since =
      .ok (sortBy COTReport.reportDate (src.reports.filter (inView code flavor since asOf))) := by
  refine (COTSource.reportsKnownAt_of_fetched hAware rfl).trans (congrArg Except.ok ?_)
  rw [fetchReports, sortBy_filter, sortBy_sortBy, List.filter_filter]
  refine congrArg _ (List.filter_congr fun r _ => ?_)
  simp only [inView, knownSince]
  grind

/-- What is asked of the view at a moment: all that was known, in order, whatever the order of supply, and
after every earlier view. -/
structure SoundView (et : TimeZone) (src : InMemoryCOTSource) (code : String) (flavor : COTReportFlavor)
    (since : Date) (asOf : DateTime) (view : List COTReport) : Prop where
  complete : view.Perm (src.reports.filter (knownSince code flavor since asOf))
  ascending : view.Pairwise fun r s => r.reportDate ≤ s.reportDate
  ordered : ∀ src' : InMemoryCOTSource, src'.reports.Perm src.reports →
    src'.toCOTSource.reportsKnownAt code flavor asOf since = .ok view
  growing : (∀ r ∈ src.reports, valueKnownAtForReport et r.reportDate = .ok r.valueKnownAtIso) →
    ∀ earlier : DateTime, earlier.isAware → earlier.instant ≤ asOf.instant →
      ∃ front, src.toCOTSource.reportsKnownAt code flavor earlier since = .ok front ∧ front <+: view

/-- No known report is dated after the moment's own date. -/
def WithinWindow (src : InMemoryCOTSource) (code : String) (flavor : COTReportFlavor) (since : Date)
    (asOf : DateTime) : Prop :=
  ∀ r ∈ src.reports, knownSince code flavor since asOf r → r.reportDate ≤ asOf.date

def OneADate (src : InMemoryCOTSource) (code : String) (flavor : COTReportFlavor) (since : Date)
    (asOf : DateTime) : Prop :=
  ∀ r ∈ src.reports, ∀ s ∈ src.reports, knownSince code flavor since asOf r →
    knownSince code flavor since asOf s → r.reportDate = s.reportDate → r = s

theorem filter_inView (h : src.WithinWindow code flavor since asOf) :
    src.reports.filter (inView code flavor since asOf) =
      src.reports.filter (knownSince code flavor since asOf) := by
  refine List.filter_congr fun r hr => ?_
  unfold inView
  cases hKnown : knownSince code flavor since asOf r with
  | false => simp
  | true => simpa using h r hr hKnown

/-- Where publications follow the rule, only a clock fifteen and a half hours behind New York leaves out a
report that is known. -/
theorem withinWindow_of_rule {et : TimeZone}
    (hRule : ∀ r ∈ src.reports, valueKnownAtForReport et r.reportDate = .ok r.valueKnownAtIso)
    (hWest : ∀ day, et.utcoffset day cotReleaseTimeEt - cotReleaseTimeEt ≤ asOf.utcoffset.getD 0) :
    src.WithinWindow code flavor since asOf := by
  intro r hr hKnown
  obtain ⟨-, -, -, hPublished⟩ := (knownSince_iff ..).mp hKnown
  obtain ⟨publication, -, hDay, hMoment⟩ := valueKnownAtForReport_ok (hRule r hr)
  by_contra hLate
  have hOrdinal := Date.toOrdinal_lt_of_lt (not_le.mp hLate)
  have hClock := asOf.micros_lt
  have hOffset := hWest publication
  rw [hMoment] at hPublished
  simp only [DateTime.instant, TimeZone.combine, Option.getD_some] at hPublished
  unfold dayMicros at *
  omega

theorem withinWindow_of_complete {view : List COTReport} (hAware : asOf.isAware)
    (hView : src.toCOTSource.reportsKnownAt code flavor asOf since = .ok view)
    (hComplete : view.Perm (src.reports.filter (knownSince code flavor since asOf))) :
    src.WithinWindow code flavor since asOf := by
  rw [reportsKnownAt_eq hAware] at hView
  cases hView
  intro r hr hKnown
  have hMem := hComplete.symm.subset (List.mem_filter.mpr ⟨hr, hKnown⟩)
  have hIn := (List.mem_filter.mp (mem_sortBy.mp hMem)).2
  exact ((inView_iff ..).mp hIn).2

/-- Supplied first, each of two reports of one date comes first in the view. -/
theorem oneADate_of_ordered {view : List COTReport} (hAware : asOf.isAware)
    (hWindow : src.WithinWindow code flavor since asOf)
    (hOrdered : ∀ src' : InMemoryCOTSource, src'.reports.Perm src.reports →
      src'.toCOTSource.reportsKnownAt code flavor asOf since = .ok view) :
    src.OneADate code flavor since asOf := by
  intro r hr s hs hKnown hKnown' hDate
  have hFirst : ∀ r ∈ src.reports, knownSince code flavor since asOf r →
      (ofKey COTReport.reportDate r.reportDate view).head? = some r := by
    intro r hr hKnown
    have hIn : inView code flavor since asOf r = true := (inView_iff ..).mpr ⟨hKnown, hWindow r hr hKnown⟩
    have hView := hOrdered ⟨r :: src.reports.erase r, src.sourceId, src.sourceId_ne⟩
      (List.perm_cons_erase hr).symm
    rw [reportsKnownAt_eq hAware] at hView
    rw [← Except.ok.inj hView, ofKey_sortBy, List.filter_cons, if_pos hIn, ofKey, List.filter_cons,
      if_pos (by simp)]
    rfl
  have hSame := hFirst s hs hKnown'
  rw [← hDate, hFirst r hr hKnown] at hSame
  exact Option.some.inj hSame

theorem growing_of_withinWindow {et : TimeZone}
    (hWindow : src.WithinWindow code flavor since asOf)
    (hRule : ∀ r ∈ src.reports, valueKnownAtForReport et r.reportDate = .ok r.valueKnownAtIso)
    {earlier : DateTime} (hLe : earlier.instant ≤ asOf.instant) :
    sortBy COTReport.reportDate (src.reports.filter (inView code flavor since earlier)) <+:
      sortBy COTReport.reportDate (src.reports.filter (inView code flavor since asOf)) := by
  have hPart : src.reports.filter (inView code flavor since earlier) =
      (src.reports.filter (inView code flavor since asOf)).filter (inView code flavor since earlier) := by
    rw [List.filter_filter]
    refine List.filter_congr fun r hr => ?_
    rw [Bool.eq_iff_iff, Bool.and_eq_true, inView_iff, inView_iff, iff_self_and]
    rintro ⟨hKnown, -⟩
    obtain ⟨hCode, hFlavor, hSince, hPublished⟩ := (knownSince_iff ..).mp hKnown
    have hLater := (knownSince_iff code flavor since asOf r).mpr ⟨hCode, hFlavor, hSince, hPublished.trans hLe⟩
    exact ⟨hLater, hWindow r hr hLater⟩
  rw [hPart, ← sortBy_filter]
  apply filter_prefix_of_pairwise
  apply (pairwise_sortBy COTReport.reportDate _).imp_of_mem
  intro r s hr hs hDates hIn
  obtain ⟨hrMem, hrIn⟩ := List.mem_filter.mp (mem_sortBy.mp hr)
  obtain ⟨hsMem, -⟩ := List.mem_filter.mp (mem_sortBy.mp hs)
  obtain ⟨hCode, hFlavor, hSince, -⟩ := (knownSince_iff ..).mp ((inView_iff ..).mp hrIn).1
  rw [inView_iff, knownSince_iff] at hIn ⊢
  obtain ⟨⟨-, -, -, hPublished⟩, hDate⟩ := hIn
  have hOrder := known_mono hDates (hRule r hrMem) (hRule s hsMem)
  exact ⟨⟨hCode, hFlavor, hSince, hOrder.trans hPublished⟩, hDates.trans hDate⟩

/-- The view is what is asked of it exactly when no known report is dated after the moment's own date and
no two that differ share a date. -/
theorem soundView_iff (et : TimeZone) (src : InMemoryCOTSource) (code : String) (flavor : COTReportFlavor)
    (since : Date) {asOf : DateTime} (hAware : asOf.isAware) :
    ∃ view, src.toCOTSource.reportsKnownAt code flavor asOf since = .ok view ∧
      (SoundView et src code flavor since asOf view ↔
        src.WithinWindow code flavor since asOf ∧ src.OneADate code flavor since asOf) := by
  have hView : src.toCOTSource.reportsKnownAt code flavor asOf since =
      .ok (sortBy COTReport.reportDate (src.reports.filter (inView code flavor since asOf))) :=
    reportsKnownAt_eq hAware src
  refine ⟨_, hView, fun hSound => ?_, fun ⟨hWindow, hOne⟩ => ?_⟩
  · have hWindow := withinWindow_of_complete hAware hView hSound.complete
    exact ⟨hWindow, oneADate_of_ordered hAware hWindow hSound.ordered⟩
  · refine ⟨?_, pairwise_sortBy _ _, fun src' hPerm => ?_, fun hRule earlier hEarlier hLe => ?_⟩
    · rw [← filter_inView hWindow]
      exact sortBy_perm_self _ _
    · rw [reportsKnownAt_eq hAware]
      apply congrArg Except.ok
      apply sortBy_eq_of_perm_of_keys (hPerm.filter _)
      intro r hr s hs hDate
      obtain ⟨hrMem, hrIn⟩ := List.mem_filter.mp hr
      obtain ⟨hsMem, hsIn⟩ := List.mem_filter.mp hs
      exact hOne r (hPerm.subset hrMem) s (hPerm.subset hsMem) ((inView_iff ..).mp hrIn).1
        ((inView_iff ..).mp hsIn).1 hDate
    · exact ⟨_, reportsKnownAt_eq hEarlier src, growing_of_withinWindow hWindow hRule hLe⟩

def easternWinter : TimeZone where
  utcoffset _ _ := -18000000000
  offset_lt _ _ := by decide

def nov18 : Date := .of 2025 11 18

def nov21 : Date := .of 2025 11 21

def nov25 : Date := .of 2025 11 25

def nov28 : Date := .of 2025 11 28

/-- The gold report of a Tuesday, with a count that a revision changes. -/
def goldReport (specLong : ℕ) : COTReport where
  cftcContractMarketCode := "088691"
  flavor := .disaggregated
  reportDate := nov18
  valueKnownAtIso := easternWinter.combine nov21 cotReleaseTimeEt cotReleaseTimeEt_lt
  openInterestAll := 400000
  specLong := specLong
  specShort := 30000
  commLong := 50000
  commShort := 200000
  sourceId := "cftc_socrata"
  asOfIso := .utcMidnight .dec15
  contentBytesSha := String.ofList (List.replicate 64 '0')
  totalTraders := none
  known_aware := rfl
  asOf_aware := rfl
  code_ne := by decide
  sha_length := by rw [String.length_ofList, List.length_replicate]

def goldSource (reports : List COTReport) : InMemoryCOTSource := ⟨reports, "cot_in_memory", by decide⟩

def nextGoldReport : COTReport :=
  { goldReport 160000 with
    reportDate := nov25
    valueKnownAtIso := easternWinter.combine nov28 cotReleaseTimeEt cotReleaseTimeEt_lt
    known_aware := rfl }

/-- Supplied the later one first, the two reports come back in order. -/
theorem soundView_iff_gold :
    (goldSource [nextGoldReport, goldReport 150000]).toCOTSource.reportsKnownAt "088691" .disaggregated
        (.utcMidnight .dec15) nov18 = .ok [goldReport 150000, nextGoldReport] ∧
      SoundView easternWinter (goldSource [nextGoldReport, goldReport 150000]) "088691" .disaggregated nov18
        (.utcMidnight .dec15) [goldReport 150000, nextGoldReport] := by
  have hView : (goldSource [nextGoldReport, goldReport 150000]).toCOTSource.reportsKnownAt "088691" .disaggregated
      (.utcMidnight .dec15) nov18 = .ok [goldReport 150000, nextGoldReport] := by
    decide
  obtain ⟨view, hOk, hSound⟩ := soundView_iff easternWinter (goldSource [nextGoldReport, goldReport 150000])
    "088691" .disaggregated nov18 (DateTime.utcMidnight_aware .dec15)
  obtain rfl := Except.ok.inj (hOk.symm.trans hView)
  refine ⟨hView, hSound.mpr ⟨?_, ?_⟩⟩
  · unfold WithinWindow
    decide
  · unfold OneADate
    decide

/-- A report and its revision come back in the order in which they were supplied. -/
theorem revision_order : ∃ view view',
    (goldSource [goldReport 150000, goldReport 150001]).toCOTSource.reportsKnownAt "088691" .disaggregated
        (.utcMidnight .dec15) nov18 = .ok view ∧
      (goldSource [goldReport 150001, goldReport 150000]).toCOTSource.reportsKnownAt "088691" .disaggregated
        (.utcMidnight .dec15) nov18 = .ok view' ∧ view ≠ view' ∧
      ∀ et, ¬SoundView et (goldSource [goldReport 150000, goldReport 150001]) "088691" .disaggregated nov18
        (.utcMidnight .dec15) view := by
  have hView : (goldSource [goldReport 150000, goldReport 150001]).toCOTSource.reportsKnownAt "088691"
      .disaggregated (.utcMidnight .dec15) nov18 = .ok [goldReport 150000, goldReport 150001] := by
    decide
  have hView' : (goldSource [goldReport 150001, goldReport 150000]).toCOTSource.reportsKnownAt "088691"
      .disaggregated (.utcMidnight .dec15) nov18 = .ok [goldReport 150001, goldReport 150000] := by
    decide
  have hDiffer : [goldReport 150000, goldReport 150001] ≠ [goldReport 150001, goldReport 150000] := by
    decide
  refine ⟨_, _, hView, hView', hDiffer, fun et hSound => hDiffer ?_⟩
  have hSupplied := hSound.ordered (goldSource [goldReport 150001, goldReport 150000]) (.swap _ _ _)
  exact Except.ok.inj (hSupplied.symm.trans hView')

end InMemoryCOTSource

end Futur3.Data
