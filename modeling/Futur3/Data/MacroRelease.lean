import Futur3.Data.MacroSources
import Futur3.Data.CmeFailLoud

/-! # The release that an event names

An event names a month, which neither source reads: whatever the month, each
answers with its newest observation. So the events of a series name releases
exactly when nothing is published.
-/

namespace Futur3.Data

open Prelude

/-! ## Events -/

structure ReleaseMonth where
  year : ℕ
  month : ℕ
  year_pos : 1 ≤ year
  year_le : year ≤ 9999
  month_pos : 1 ≤ month
  month_le : month ≤ 12

namespace ReleaseMonth

def june2026 : ReleaseMonth := ⟨2026, 6, by decide, by decide, by decide, by decide⟩

def july2026 : ReleaseMonth := ⟨2026, 7, by decide, by decide, by decide, by decide⟩

theorem june_ne_july : june2026 ≠ july2026 := by
  intro h
  exact absurd (congrArg month h) (by decide)

def IsAfter (m : ReleaseMonth) (date : Date) : Prop :=
  date.year < m.year ∨ (date.year = m.year ∧ date.month < m.month)

/-- `<SERIES>_<YYYY>_<MM>`. -/
def eventId (series : MacroSeries) (m : ReleaseMonth) : String :=
  (series.value ++ "_") ++ String.ofList (zeroPadded 4 m.year ++ '_' :: zeroPadded 2 m.month)

end ReleaseMonth

namespace MacroSeries

theorem mem_all (series : MacroSeries) : series ∈ all := by
  cases series <;> decide

/-- No value with an underscore starts another one's, or stands within a value. -/
theorem value_apart : all.all (fun s => all.all fun t =>
    ((s.value ++ "_").toList.isPrefixOf (t.value ++ "_").toList → s = t) ∧
      ¬(s.value ++ "_").toList.isPrefixOf t.value.toList) = true := by
  decide +kernel

theorem eq_of_isPrefix {s t : MacroSeries}
    (h : (s.value ++ "_").toList <+: (t.value ++ "_").toList) : s = t := by
  have hPair := List.all_eq_true.mp (List.all_eq_true.mp value_apart s s.mem_all) t t.mem_all
  exact (of_decide_eq_true hPair).1 (List.isPrefixOf_iff_prefix.mpr h)

theorem not_isPrefix (s t : MacroSeries) : ¬(s.value ++ "_").toList <+: t.value.toList := by
  have hPair := List.all_eq_true.mp (List.all_eq_true.mp value_apart s s.mem_all) t t.mem_all
  exact fun h => (of_decide_eq_true hPair).2 (List.isPrefixOf_iff_prefix.mpr h)

end MacroSeries

theorem seriesFromEventId_eventId (series : MacroSeries) (m : ReleaseMonth) :
    seriesFromEventId (m.eventId series) = some series := by
  have hStart : (series.value ++ "_").toList <+: (m.eventId series).toList := by
    rw [ReleaseMonth.eventId, @String.toList_append (series.value ++ "_")]
    exact List.prefix_append _ _
  have hMem : series ∈ seriesByLength := Selection.mem_sortBy.mpr series.mem_all
  have hFound : (seriesFromEventId (m.eventId series)).isSome := by
    rw [seriesFromEventId, List.find?_isSome]
    refine ⟨series, hMem, ?_⟩
    rw [List.isPrefixOf_iff_prefix.mpr hStart, Bool.or_true]
  obtain ⟨found, hFound⟩ := Option.isSome_iff_exists.mp hFound
  have hTest := List.find?_some hFound
  rw [Bool.or_eq_true, decide_eq_true_eq, List.isPrefixOf_iff_prefix] at hTest
  rcases hTest with hWhole | hPrefix
  · rw [hWhole] at hStart
    exact absurd hStart (MacroSeries.not_isPrefix series found)
  · rw [hFound]
    rcases List.prefix_or_prefix_of_prefix hPrefix hStart with hLeft | hRight
    · rw [MacroSeries.eq_of_isPrefix hLeft]
    · rw [MacroSeries.eq_of_isPrefix hRight]

/-! ## Chosen observations -/

/-- An observation that has a value, after objects that have none. -/
def Newest (usable : Entries → Except MacroError Bool) (items : List Json) (chosen : Entries) :
    Prop :=
  ∃ before after, items = before ++ .dict chosen :: after ∧ usable chosen = .ok true ∧
    ∀ item ∈ before, ∃ entries, item = .dict entries ∧ usable entries = .ok false

section Chosen

variable {usable : Entries → Except MacroError Bool} {ctx : String} {chosen : Entries}

theorem newest_cons_iff {item : Json} {rest : List Json} :
    Newest usable (item :: rest) chosen ↔ ∃ entries, item = .dict entries ∧
      ((usable entries = .ok true ∧ entries = chosen) ∨
        (usable entries = .ok false ∧ Newest usable rest chosen)) := by
  constructor
  · rintro ⟨before, after, hItems, hChosen, hBefore⟩
    cases before with
    | nil =>
      obtain ⟨rfl, rfl⟩ := List.cons.inj hItems
      exact ⟨chosen, rfl, Or.inl ⟨hChosen, rfl⟩⟩
    | cons first before =>
      obtain ⟨rfl, rfl⟩ := List.cons.inj hItems
      obtain ⟨⟨entries, hEntries, hNone⟩, hBefore⟩ := List.forall_mem_cons.mp hBefore
      exact ⟨entries, hEntries, Or.inr ⟨hNone, before, after, rfl, hChosen, hBefore⟩⟩
  · rintro ⟨entries, rfl, ⟨hChosen, rfl⟩ | ⟨hNone, before, after, rfl, hChosen, hBefore⟩⟩
    · exact ⟨[], rest, rfl, hChosen, List.forall_mem_nil _⟩
    · exact ⟨.dict entries :: before, after, rfl, hChosen,
        List.forall_mem_cons.mpr ⟨⟨entries, rfl, hNone⟩, hBefore⟩⟩

theorem Newest.exists_cons {items : List Json} (h : Newest usable items chosen) :
    ∃ item rest, items = item :: rest := by
  obtain ⟨before, after, rfl, -⟩ := h
  exact List.exists_cons_of_ne_nil (List.append_ne_nil_of_right_ne_nil _ (List.cons_ne_nil _ _))

theorem asDict_ok_iff {json : Json} {entries : Entries} :
    asDict json ctx = .ok entries ↔ json = .dict entries := by
  cases json <;> simp [asDict, except_pure_ok_iff, except_throw_ok_iff]

/-- By induction on the items: the search passes what has no value. -/
theorem firstUsable_ok_iff {items : List Json} :
    firstUsable usable ctx items = .ok (some chosen) ↔ Newest usable items chosen := by
  induction items with
  | nil => simp [firstUsable, Newest, except_pure_ok_iff]
  | cons item rest ih =>
    rw [newest_cons_iff]
    simp only [firstUsable, except_bind_ok_iff, asDict_ok_iff]
    constructor
    · rintro ⟨entries, hItem, answer, hUsable, hRest⟩
      refine ⟨entries, hItem, ?_⟩
      cases answer with
      | true => exact Or.inl ⟨hUsable, Option.some.inj (Except.ok.inj hRest)⟩
      | false => exact Or.inr ⟨hUsable, ih.mp hRest⟩
    · rintro ⟨entries, hItem, ⟨hUsable, rfl⟩ | ⟨hUsable, hRest⟩⟩
      · exact ⟨entries, hItem, true, hUsable, rfl⟩
      · exact ⟨entries, hItem, false, hUsable, ih.mpr hRest⟩

end Chosen

/-! ## Readable texts -/

section Reading

variable {env : Environment} {ctx : String}

theorem received_ok_iff {response : Except String Reply} {reply : Reply} :
    received response = .ok reply ↔ response = .ok reply := by
  cases response <;> simp [received, except_pure_ok_iff, except_throw_ok_iff]

theorem asObj_ok_iff {payload : Option Json} {entries : Entries} :
    asObj payload ctx = .ok entries ↔ payload = some (.dict entries) := by
  rcases payload with - | json
  · simp [asObj, except_throw_ok_iff]
  · cases json <;> simp [asObj, except_pure_ok_iff, except_throw_ok_iff]

theorem asList_ok_iff {json : Json} {items : List Json} :
    asList json ctx = .ok items ↔ json = .list items := by
  cases json <;> simp [asList, except_pure_ok_iff, except_throw_ok_iff]

theorem asStr_ok_iff {json : Json} {text : String} :
    asStr json ctx = .ok text ↔ json = .str text := by
  cases json <;> simp [asStr, except_pure_ok_iff, except_throw_ok_iff]

theorem easternDateOf_ok_iff {t : DateTime} {date : Date} :
    env.easternDateOf t = .ok date ↔ env.easternDate t = some date := by
  unfold Environment.easternDateOf
  cases env.easternDate t <;> simp [except_pure_ok_iff, except_throw_ok_iff]

theorem parseDecimal_ok_iff {text : String} {d : Decimal} :
    env.parseDecimal text ctx = .ok d ↔ env.unicode.number? text.toList = some (.finite d) := by
  unfold Environment.parseDecimal
  rcases env.unicode.number? text.toList with - | number
  · simp [except_throw_ok_iff]
  · cases number <;> simp [except_pure_ok_iff, except_throw_ok_iff]

theorem parseDate_ok_iff {text : String} {date : Date} :
    env.parseDate text ctx = .ok date ↔ env.fromisoformat text = some date := by
  unfold Environment.parseDate
  cases env.fromisoformat text <;> simp [except_pure_ok_iff, except_throw_ok_iff]

theorem parseInt_ok_iff {text : List Char} {n : ℤ} :
    env.parseInt text = .ok n ↔ env.unicode.int? text = some n := by
  unfold Environment.parseInt
  cases env.unicode.int? text <;> simp [except_pure_ok_iff, except_throw_ok_iff]

end Reading

/-! ## What names a release -/

/-- The events of one series at one time: two months never name one observation, a month to come
has no value, and no value is known too early. -/
structure NamesRelease (env : Environment) (asOf : DateTime)
    (fetch : ReleaseMonth → Except MacroError (Option MacroValue)) : Prop where
  distinct : ∀ m m' v v', m ≠ m' → fetch m = .ok (some v) → fetch m' = .ok (some v') →
    v.asOfDate ≠ v'.asOfDate
  not_yet : ∀ m date, env.easternDate asOf = some date → m.IsAfter date →
    ∀ answer, fetch m = .ok answer → answer = none
  known : ∀ m v, fetch m = .ok (some v) → v.valueKnownAtIso.instant ≤ asOf.instant

theorem gate_ok_iff {eventId : String} {series : MacroSeries} {refDate : Date}
    {moment asOf : DateTime} {source : String} {digest : HexDigest} {value : Decimal}
    {vintage : Option Date} {v : MacroValue} :
    (macroValue eventId series refDate moment source asOf digest value vintage >>=
        fun mv => pure (enforcePitGate mv asOf)) = .ok (some v) ↔
      ∃ hMoment hAsOf, v = ⟨eventId, series, refDate, moment, source, asOf, digest, value, vintage,
        hMoment, hAsOf⟩ ∧ moment.instant ≤ asOf.instant := by
  unfold macroValue enforcePitGate
  split_ifs with hMoment hAsOf
  · rw [pure_bind]
    constructor
    · intro h
      split_ifs at h with hLate
      · cases h
      · cases h
        exact ⟨hMoment, hAsOf, rfl, not_lt.mp hLate⟩
    · rintro ⟨-, -, rfl, hKnown⟩
      rw [if_neg (not_lt.mpr hKnown)]
      rfl
  · refine iff_of_false nofun ?_
    rintro ⟨-, hAware, -⟩
    exact hAsOf hAware
  · refine iff_of_false nofun ?_
    rintro ⟨hAware, -⟩
    exact hMoment hAware

namespace Environment

def Reads (env : Environment) (chosen : Entries) (key : String) (value : Decimal) : Prop :=
  ∃ text, chosen.get key = .str text ∧ env.unicode.number? text.toList = some (.finite value)

def Dates (env : Environment) (chosen : Entries) (key : String) (date : Date) : Prop :=
  ∃ text, chosen.get key = .str text ∧ env.fromisoformat text = some date

end Environment

/-! ### FRED -/

namespace FredMacroSource

def Replies (env : Environment) (http : FredHTTPClient) (series : MacroSeries) (asOf : DateTime)
    (observations : List Json) : Prop :=
  ∃ seriesId asOfDate reply, ∃ payload : Entries, seriesId? series = some seriesId ∧
    env.easternDate asOf = some asOfDate ∧
    http (observationsRequest seriesId asOfDate) = .ok reply ∧
    reply.payload = some (.dict payload) ∧ payload.get "observations" = .list observations

/-- The newest observation of the reply with a value is of a date, readable and published. -/
def Publishes (env : Environment) (http : FredHTTPClient) (series : MacroSeries) (asOf : DateTime)
    (refDate : Date) : Prop :=
  asOf.isAware ∧ ∃ observations chosen value published,
    Replies env http series asOf observations ∧ Newest usable observations chosen ∧
    env.Reads chosen "value" value ∧ env.Dates chosen "date" refDate ∧
    env.Dates chosen "realtime_start" published ∧
    (env.releaseMoment series published).instant ≤ asOf.instant

variable {env : Environment} {http : FredHTTPClient} {series : MacroSeries} {asOf : DateTime}

theorem publishes_of_fetchValue {m : ReleaseMonth} {v : MacroValue}
    (h : fetchValue env http (m.eventId series) asOf = .ok (some v)) :
    Publishes env http series asOf v.asOfDate ∧ v.valueKnownAtIso.instant ≤ asOf.instant := by
  unfold fetchValue at h
  simp only [except_raise_guard_ok_iff, seriesFromEventId_eventId] at h
  obtain ⟨-, h⟩ := h
  cases hSeries : seriesId? series with
  | none =>
    rw [hSeries] at h
    cases h
  | some seriesId =>
    simp only [hSeries, except_bind_ok_iff, easternDateOf_ok_iff, received_ok_iff, asObj_ok_iff,
      asList_ok_iff] at h
    obtain ⟨asOfDate, hDate, reply, hReply, payload, hPayload, observations, hList, answer,
      hAnswer, h⟩ := h
    cases answer with
    | none => cases h
    | some chosen =>
      simp only [except_bind_ok_iff, asStr_ok_iff, parseDecimal_ok_iff, parseDate_ok_iff] at h
      obtain ⟨text, hText, value, hValue, refText, hRefText, refDate, hRefDate, publishedText,
        hPublishedText, published, hPublished, hGate⟩ := h
      obtain ⟨-, hAware, rfl, hKnown⟩ := gate_ok_iff.mp (except_bind_ok_iff.mpr hGate)
      exact ⟨⟨hAware, observations, chosen, value, published,
        ⟨seriesId, asOfDate, reply, payload, hSeries, hDate, hReply, hPayload, hList⟩,
        firstUsable_ok_iff.mp hAnswer, ⟨text, hText, hValue⟩, ⟨refText, hRefText, hRefDate⟩,
        ⟨publishedText, hPublishedText, hPublished⟩, hKnown⟩, hKnown⟩

theorem fetchValue_of_publishes {refDate : Date} (h : Publishes env http series asOf refDate)
    (m : ReleaseMonth) :
    ∃ v, fetchValue env http (m.eventId series) asOf = .ok (some v) ∧ v.asOfDate = refDate := by
  obtain ⟨hAware, observations, chosen, value, published,
    ⟨seriesId, asOfDate, reply, payload, hSeries, hDate, hReply, hPayload, hList⟩, hNewest,
    ⟨text, hText, hValue⟩, ⟨refText, hRefText, hRefDate⟩,
    ⟨publishedText, hPublishedText, hPublished⟩, hKnown⟩ := h
  refine ⟨⟨m.eventId series, series, refDate, env.releaseMoment series published, sourceId, asOf,
    reply.sha, value, some asOfDate, rfl, hAware⟩, ?_, rfl⟩
  unfold fetchValue
  simp only [except_raise_guard_ok_iff, seriesFromEventId_eventId, hSeries, except_bind_ok_iff,
    easternDateOf_ok_iff, received_ok_iff, asObj_ok_iff, asList_ok_iff]
  refine ⟨by simp [hAware], asOfDate, hDate, reply, hReply, payload, hPayload, observations, hList,
    some chosen, firstUsable_ok_iff.mpr hNewest, ?_⟩
  simp only [except_bind_ok_iff, asStr_ok_iff, parseDecimal_ok_iff, parseDate_ok_iff]
  exact ⟨text, hText, value, hValue, refText, hRefText, refDate, hRefDate, publishedText,
    hPublishedText, published, hPublished,
    except_bind_ok_iff.mp (gate_ok_iff.mpr ⟨rfl, hAware, rfl, hKnown⟩)⟩

end FredMacroSource

/-! ### BLS -/

theorem dateOf_ok_iff {year month day : ℕ} {date : Date} :
    dateOf year month day = .ok date ↔ date.year = year ∧ date.month = month ∧ date.day = day := by
  unfold dateOf
  split_ifs with hHuge hValid
  · refine iff_of_false nofun ?_
    rintro ⟨rfl, -, -⟩
    have hYear := date.year_le
    unfold intMax at hHuge
    omega
  · rw [except_pure_ok_iff]
    constructor
    · rintro rfl
      exact ⟨rfl, rfl, rfl⟩
    · rintro ⟨rfl, rfl, rfl⟩
      rfl
  · refine iff_of_false nofun ?_
    rintro ⟨rfl, rfl, rfl⟩
    exact hValid ⟨⟨date.year_pos, date.year_le⟩, ⟨date.month_pos, date.month_le⟩, date.day_pos,
      date.day_le⟩

namespace BlsMacroSource

def HasSeries (results : Entries) (points : List Json) : Prop :=
  ∃ first : Entries, ∃ others, results.get "series" = .list (.dict first :: others) ∧
    first.get "data" = .list points

def Replies (src : BlsMacroSource) (series : MacroSeries) (points : List Json) : Prop :=
  ∃ seriesId reply, ∃ payload results : Entries, seriesId? series = some seriesId ∧
    src.http seriesId = .ok reply ∧ reply.payload = some (.dict payload) ∧
    payload.get "status" = .str "REQUEST_SUCCEEDED" ∧
    (payload.get "Results" = .dict results ∨
      ∃ others, payload.get "Results" = .list (.dict results :: others)) ∧
    HasSeries results points

/-- The year and the period of a point read as a month, which the date starts. -/
def Refers (env : Environment) (chosen : Entries) (refDate : Date) : Prop :=
  (∃ year, chosen.get "year" = .str year ∧ year.toList ≠ [] ∧
    (∀ c ∈ year.toList, env.unicode.isDigit c) ∧
    env.unicode.int? year.toList = some (refDate.year : ℤ)) ∧
  (∃ period, chosen.get "period" = .str period ∧
    env.unicode.int? (period.toList.drop 1) = some (refDate.month : ℤ)) ∧
  refDate.day = 1

/-- The newest monthly point of the reply with a value is of a month, readable and released. -/
def Publishes (src : BlsMacroSource) (env : Environment) (series : MacroSeries) (asOf : DateTime)
    (refDate : Date) : Prop :=
  asOf.isAware ∧ ∃ points chosen value moment,
    src.Replies series points ∧ Newest (usable env) points chosen ∧ Refers env chosen refDate ∧
    env.Reads chosen "value" value ∧ src.publicationMoment env series refDate = .ok moment ∧
    moment.isAware ∧ moment.instant ≤ asOf.instant

variable {src : BlsMacroSource} {env : Environment} {series : MacroSeries} {asOf : DateTime}

theorem isSuccess_iff {json : Json} : isSuccess json ↔ json = .str "REQUEST_SUCCEEDED" := by
  cases json <;> simp [isSuccess]

theorem seriesData_cons_iff {results : Json} {point : Json} {points : List Json} :
    extractDataPoints.seriesData results = .ok (point :: points) ↔
      ∃ entries, results = .dict entries ∧ HasSeries entries (point :: points) := by
  simp only [extractDataPoints.seriesData, except_bind_ok_iff, asDict_ok_iff, asList_ok_iff]
  constructor
  · rintro ⟨entries, rfl, items, hItems, h⟩
    refine ⟨entries, rfl, ?_⟩
    cases items with
    | nil => cases h
    | cons first others =>
      simp only [except_bind_ok_iff, asDict_ok_iff, asList_ok_iff] at h
      obtain ⟨firstEntries, rfl, hData⟩ := h
      exact ⟨firstEntries, others, hItems, hData⟩
  · rintro ⟨entries, rfl, first, others, hItems, hData⟩
    refine ⟨entries, rfl, .dict first :: others, hItems, ?_⟩
    simp only [except_bind_ok_iff, asDict_ok_iff, asList_ok_iff]
    exact ⟨first, rfl, hData⟩

theorem extractDataPoints_cons_iff {payload : Entries} {point : Json} {points : List Json} :
    extractDataPoints payload = .ok (point :: points) ↔
      ∃ results : Entries, (payload.get "Results" = .dict results ∨
        ∃ others, payload.get "Results" = .list (.dict results :: others)) ∧
        HasSeries results (point :: points) := by
  unfold extractDataPoints
  cases payload.get "Results" with
  | list items =>
    cases items with
    | nil => simp [except_pure_ok_iff]
    | cons first others => simp [seriesData_cons_iff]
  | _ => simp [seriesData_cons_iff]

theorem refDateOf_ok_iff {chosen : Entries} {refDate : Date} :
    refDateOf env chosen = .ok refDate ↔ Refers env chosen refDate := by
  simp only [refDateOf, except_bind_ok_iff, except_raise_guard_ok_iff, asStr_ok_iff,
    parseInt_ok_iff, dateOf_ok_iff]
  have hYearPos := refDate.year_pos
  have hMonthPos := refDate.month_pos
  constructor
  · rintro ⟨yearStr, hYearStr, hDigits, period, hPeriod, year, hYear, month, hMonth, hYearEq,
      hMonthEq, hDay⟩
    have hYearNat : year = (refDate.year : ℤ) := by omega
    have hMonthNat : month = (refDate.month : ℤ) := by omega
    subst hYearNat hMonthNat
    simp only [Bool.or_eq_true, Bool.not_eq_true', not_or, Bool.not_eq_false, List.isEmpty_iff,
      List.all_eq_true] at hDigits
    exact ⟨⟨yearStr, hYearStr, hDigits.1, hDigits.2, hYear⟩, ⟨period, hPeriod, hMonth⟩, hDay⟩
  · rintro ⟨⟨yearStr, hYearStr, hNil, hDigits, hYear⟩, ⟨period, hPeriod, hMonth⟩, hDay⟩
    refine ⟨yearStr, hYearStr, ?_, period, hPeriod, _, hYear, _, hMonth, (Int.toNat_natCast _).symm,
      (Int.toNat_natCast _).symm, hDay⟩
    rw [Bool.or_eq_true, not_or, List.isEmpty_iff, Bool.not_eq_true', Bool.not_eq_false,
      List.all_eq_true]
    exact ⟨hNil, hDigits⟩

theorem publishes_of_fetchValue {m : ReleaseMonth} {v : MacroValue}
    (h : src.fetchValue env (m.eventId series) asOf = .ok (some v)) :
    src.Publishes env series asOf v.asOfDate ∧ v.valueKnownAtIso.instant ≤ asOf.instant := by
  unfold fetchValue at h
  simp only [except_raise_guard_ok_iff, seriesFromEventId_eventId] at h
  obtain ⟨-, h⟩ := h
  cases hSeries : seriesId? series with
  | none =>
    rw [hSeries] at h
    cases h
  | some seriesId =>
    simp only [hSeries, except_bind_ok_iff, except_raise_guard_ok_iff, received_ok_iff, asObj_ok_iff,
      latestMonthlyPoint] at h
    obtain ⟨reply, hReply, payload, hPayload, hStatus, points, hPoints, answer, hAnswer, h⟩ := h
    cases answer with
    | none => cases h
    | some chosen =>
      simp only [except_bind_ok_iff, refDateOf_ok_iff, asStr_ok_iff, parseDecimal_ok_iff] at h
      obtain ⟨refDate, hRefDate, text, hText, value, hValue, moment, hMoment, hGate⟩ := h
      obtain ⟨hAwareMoment, hAware, rfl, hKnown⟩ := gate_ok_iff.mp (except_bind_ok_iff.mpr hGate)
      have hNewest := firstUsable_ok_iff.mp hAnswer
      obtain ⟨point, rest, rfl⟩ := hNewest.exists_cons
      obtain ⟨results, hResults, hData⟩ := extractDataPoints_cons_iff.mp hPoints
      have hSuccess : isSuccess (payload.get "status") := by simpa using hStatus
      exact ⟨⟨hAware, point :: rest, chosen, value, moment,
        ⟨seriesId, reply, payload, results, hSeries, hReply, hPayload, isSuccess_iff.mp hSuccess,
          hResults, hData⟩,
        hNewest, hRefDate, ⟨text, hText, hValue⟩, hMoment, hAwareMoment, hKnown⟩, hKnown⟩

theorem fetchValue_of_publishes {refDate : Date} (h : src.Publishes env series asOf refDate)
    (m : ReleaseMonth) :
    ∃ v, src.fetchValue env (m.eventId series) asOf = .ok (some v) ∧ v.asOfDate = refDate := by
  obtain ⟨hAware, points, chosen, value, moment, ⟨seriesId, reply, payload, results, hSeries, hReply,
    hPayload, hStatus, hResults, hData⟩, hNewest, hRefers, ⟨text, hText, hValue⟩, hMoment,
    hAwareMoment, hKnown⟩ := h
  obtain ⟨point, rest, rfl⟩ := hNewest.exists_cons
  have hPoints := extractDataPoints_cons_iff.mpr ⟨results, hResults, hData⟩
  refine ⟨⟨m.eventId series, series, refDate, moment, sourceId, asOf, reply.sha, value, none,
    hAwareMoment, hAware⟩, ?_, rfl⟩
  unfold fetchValue
  simp only [except_raise_guard_ok_iff, seriesFromEventId_eventId, hSeries, except_bind_ok_iff,
    received_ok_iff, asObj_ok_iff, latestMonthlyPoint]
  refine ⟨by simp [hAware], reply, hReply, payload, hPayload, by simp [isSuccess_iff.mpr hStatus],
    point :: rest, hPoints, some chosen, firstUsable_ok_iff.mpr hNewest, ?_⟩
  simp only [except_bind_ok_iff, refDateOf_ok_iff, asStr_ok_iff, parseDecimal_ok_iff]
  exact ⟨refDate, hRefers, text, hText, value, hValue, moment, hMoment,
    except_bind_ok_iff.mp (gate_ok_iff.mpr ⟨hAwareMoment, hAware, rfl, hKnown⟩)⟩

end BlsMacroSource

/-! ## The theorem -/

/-- Where every event has the newest value, if there is one, events name releases exactly when
there is none. -/
theorem namesRelease_iff {env : Environment} {asOf : DateTime}
    {fetch : ReleaseMonth → Except MacroError (Option MacroValue)} {Published : Date → Prop}
    (hSome : ∀ m v, fetch m = .ok (some v) →
      Published v.asOfDate ∧ v.valueKnownAtIso.instant ≤ asOf.instant)
    (hAny : ∀ refDate, Published refDate →
      ∀ m, ∃ v, fetch m = .ok (some v) ∧ v.asOfDate = refDate) :
    NamesRelease env asOf fetch ↔ ∀ refDate, ¬Published refDate := by
  constructor
  · intro h refDate hPublished
    obtain ⟨v, hv, hDate⟩ := hAny refDate hPublished .june2026
    obtain ⟨v', hv', hDate'⟩ := hAny refDate hPublished .july2026
    exact h.distinct _ _ v v' ReleaseMonth.june_ne_july hv hv' (hDate.trans hDate'.symm)
  · intro hNever
    have hNone : ∀ m v, fetch m ≠ .ok (some v) := fun m v hv => hNever _ (hSome m v hv).1
    refine ⟨fun m _ v _ _ hv _ => absurd hv (hNone m v), ?_, fun m v hv => absurd hv (hNone m v)⟩
    intro m date hDate hAfter answer hAnswer
    cases answer with
    | none => rfl
    | some v => exact absurd hAnswer (hNone m v)

/-- The events of a series name releases exactly when the newest value is missing, unreadable or
not published. -/
theorem fetchValue_namesRelease_iff (env : Environment) (http : FredHTTPClient)
    (bls : BlsMacroSource) (series : MacroSeries) (asOf : DateTime) :
    (NamesRelease env asOf
        (fun m => FredMacroSource.fetchValue env http (m.eventId series) asOf) ↔
      ∀ refDate, ¬FredMacroSource.Publishes env http series asOf refDate) ∧
    (NamesRelease env asOf (fun m => bls.fetchValue env (m.eventId series) asOf) ↔
      ∀ refDate, ¬bls.Publishes env series asOf refDate) := by
  constructor
  · exact namesRelease_iff (fun _ _ h => FredMacroSource.publishes_of_fetchValue h)
      fun _ h m => FredMacroSource.fetchValue_of_publishes h m
  · exact namesRelease_iff (fun _ _ h => BlsMacroSource.publishes_of_fetchValue h)
      fun _ h m => BlsMacroSource.fetchValue_of_publishes h m

/-! ## Payrolls in December -/

def isoDate? (text : String) : Option Date :=
  match pieces (· = '-') text.toList with
  | [year, month, day] =>
    if year.length = 4 && month.length = 2 && day.length = 2 &&
        (year ++ month ++ day).all Char.isDigit then
      (dateOf (Nat.ofDigitChars 10 year 0) (Nat.ofDigitChars 10 month 0)
        (Nat.ofDigitChars 10 day 0)).toOption
    else none
  | _ => none

def fiveHours : ℤ := 18000000000

theorem fiveHours_lt (_ : Date) (_ : ℕ) : (-fiveHours).natAbs < dayMicros := by decide

def winterEastern : TimeZone := ⟨fun _ _ => -fiveHours, fiveHours_lt⟩

def winterEnvironment : Environment where
  unicode := CMEEODDataSource.plainUnicode
  fromisoformat := isoDate?
  easternDate t := if t.utcoffset = some (-fiveHours) then some t.date else none
  eastern := winterEastern

theorem midday_lt : 43200000000 < dayMicros := by decide

def decemberNoon : DateTime := winterEastern.combine .dec12 43200000000 midday_lt

def fredObservation (date value published : String) : Json :=
  .dict [("realtime_start", .str published), ("realtime_end", .str "2025-12-12"),
    ("date", .str date), ("value", .str value)]

def fredReply : Reply :=
  ⟨some (.dict [("count", .scalar), ("observations", .list
    [fredObservation "2025-11-01" "159626" "2025-12-05",
      fredObservation "2025-10-01" "." "2025-12-05",
      fredObservation "2025-09-01" "159500" "2025-12-05"])]), zeroDigest⟩

def blsPoint (year period value : String) : Json :=
  .dict [("year", .str year), ("period", .str period), ("value", .str value)]

def blsReply : Reply :=
  ⟨some (.dict [("status", .str "REQUEST_SUCCEEDED"), ("Results", .dict [("series", .list
    [.dict [("seriesID", .str "CES0000000001"),
      ("data", .list [blsPoint "2025" "M10" "159500", blsPoint "2025" "M09" "159400"])]])])]),
    zeroDigest⟩

def fredPayrolls (m : ReleaseMonth) : Except MacroError (Option MacroValue) :=
  FredMacroSource.fetchValue winterEnvironment (fun _ => .ok fredReply) (m.eventId .nfp) decemberNoon

def blsPayrolls (m : ReleaseMonth) : Except MacroError (Option MacroValue) :=
  BlsMacroSource.fetchValue ⟨fun _ => .ok blsReply, none⟩ winterEnvironment (m.eventId .nfp)
    decemberNoon

/-- In December 2025 the payrolls of June and of July 2026 are both known, and both the newest. -/
theorem payrolls_not_namesRelease :
    ¬NamesRelease winterEnvironment decemberNoon fredPayrolls ∧
    ¬NamesRelease winterEnvironment decemberNoon blsPayrolls := by
  have hAfter : ReleaseMonth.july2026.IsAfter .dec12 := Or.inl (by decide)
  constructor
  · intro h
    obtain ⟨answer, hAnswer, hSome⟩ :=
      except_exists_ok (show (fredPayrolls .july2026).toOption.any Option.isSome by decide +kernel)
    rw [h.not_yet _ .dec12 (by decide) hAfter answer hAnswer] at hSome
    cases hSome
  · intro h
    obtain ⟨answer, hAnswer, hSome⟩ :=
      except_exists_ok (show (blsPayrolls .july2026).toOption.any Option.isSome by decide +kernel)
    rw [h.not_yet _ .dec12 (by decide) hAfter answer hAnswer] at hSome
    cases hSome

end Futur3.Data
