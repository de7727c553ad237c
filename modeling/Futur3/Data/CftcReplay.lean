import Futur3.Data.CftcSource
import Futur3.Data.CmeFailLoud

/-! # What was captured once replays

A row that becomes a report becomes the same report at any later fetch, but for the time
of the fetch. So the reports of a captured window answer for every window inside it.
-/

namespace Futur3.Data

open Prelude Contracts Selection

def COTReport.fetchedAt (r : COTReport) (asOf : DateTime) (h : asOf.isAware) : COTReport :=
  { r with asOfIso := asOf, asOf_aware := h }

/-- The server answers a query inside the days with the rows of its window by date, up to the limit, and its rows
are those of the code, with their dates. -/
structure Serves (env : CftcEnvironment) (http : CFTCHTTPClient) (code : String) (flavor : COTReportFlavor)
    (first last : Date) (table : List (Date × CftcRow)) : Prop where
  answers : ∀ dataset ∈ datasetId? flavor, ∀ start stop : Date, first ≤ start → start ≤ stop → stop ≤ last →
    ∃ text, http (socrataRequest dataset code start stop) = .ok text ∧
      JsonReader.loads text = some (.array ((((sortBy Prod.fst table).filter fun r =>
        start ≤ r.1 ∧ r.1 ≤ stop).take defaultLimit).map fun r => .object r.2))
  dates : ∀ r ∈ table, ∃ cell, r.2.get? dateCol = some cell ∧ env.parseSocrataDate cell dateCol = .ok r.1
  codes : ∀ r ∈ table, r.2.get? codeCol = some (.str code.toList)

namespace CFTCSocrataSource

variable {env : CftcEnvironment} {row : CftcRow} {flavor : COTReportFlavor} {schema : FlavorSchema}

/-! ## Rows -/

theorem item_ok_iff {col : String} {cell : Prelude.Json} : row.item col = .ok cell ↔ row.get? col = some cell := by
  unfold CftcRow.item
  cases row.get? col with
  | none => exact iff_of_false (fun h => by cases h) (fun h => by cases h)
  | some found => rw [except_pure_ok_iff, Option.some.injEq]

theorem cftcStr_ok_iff {json : Prelude.Json} {ctx : String} {text : List Char} :
    cftcStr json ctx = .ok text ↔ json = .str text := by
  cases json with
  | str found => rw [cftcStr, except_pure_ok_iff, Prelude.Json.str.injEq]
  | null => exact iff_of_false (fun h => by cases h) (fun h => by cases h)
  | bool b => exact iff_of_false (fun h => by cases h) (fun h => by cases h)
  | int n => exact iff_of_false (fun h => by cases h) (fun h => by cases h)
  | float text => exact iff_of_false (fun h => by cases h) (fun h => by cases h)
  | array items => exact iff_of_false (fun h => by cases h) (fun h => by cases h)
  | object members => exact iff_of_false (fun h => by cases h) (fun h => by cases h)

theorem readRow_ok {fields : CftcFields} (h : readRow env row flavor schema = .ok fields) :
    fields.flavor = flavor ∧
      (∃ cell, row.get? dateCol = some cell ∧ env.parseSocrataDate cell dateCol = .ok fields.reportDate) ∧
      ∃ text, row.get? codeCol = some (.str text) ∧ fields.code = String.ofList text := by
  unfold readRow at h
  simp only [except_raise_guard_ok_iff, except_bind_ok_iff, except_pure_ok_iff] at h
  obtain ⟨-, cell, hCell, reportDate, hDate, -, -, codeCell, hCode, text, hText,
    -, -, -, -, -, -, -, -, -, -, -, -, -, -, -, -, -, -, -, -, -, -, rfl⟩ := h
  rw [cftcStr_ok_iff] at hText
  subst hText
  exact ⟨rfl, ⟨cell, item_ok_iff.mp hCell, hDate⟩, text, item_ok_iff.mp hCode, rfl⟩

theorem report_ok {fields : CftcFields} {src : String} {now : DateTime} {r : COTReport}
    (h : fields.report src now = .ok r) :
    (r.cftcContractMarketCode = fields.code ∧ r.flavor = fields.flavor ∧ r.reportDate = fields.reportDate) ∧
      r.asOfIso = now ∧ ∀ (now' : DateTime) (hAware : now'.isAware),
        fields.report src now' = .ok (r.fetchedAt now' hAware) := by
  unfold CftcFields.report at h
  split_ifs at h with hKnown hNow hCode
  split at h
  · cases h
  · rename_i hCounts
    cases h
    refine ⟨⟨rfl, rfl, rfl⟩, rfl, fun now' hAware => ?_⟩
    unfold CftcFields.report
    rw [dif_pos hKnown, dif_pos hAware, dif_neg hCode]
    split
    · rename_i hFound
      rw [hCounts] at hFound
      cases hFound
    · rfl

/-- Row and report belong together: by any later fetch too the row becomes the report. -/
structure Becomes (env : CftcEnvironment) (schema : FlavorSchema) (code : String) (flavor : COTReportFlavor)
    (now : DateTime) (served : Date × CftcRow) (r : COTReport) : Prop where
  code_eq : r.cftcContractMarketCode = code
  flavor_eq : r.flavor = flavor
  date_eq : r.reportDate = served.1
  fetched : r.asOfIso = now
  again : ∀ (now' : DateTime) (hAware : now'.isAware),
    parseRow env served.2 flavor schema now' = .ok (r.fetchedAt now' hAware)

theorem becomes_of_parseRow {http : CFTCHTTPClient} {code : String} {first last : Date}
    {table : List (Date × CftcRow)} (hServes : Serves env http code flavor first last table) {now : DateTime}
    {served : Date × CftcRow} (hServed : served ∈ table) {r : COTReport}
    (h : parseRow env served.2 flavor schema now = .ok r) :
    Becomes env schema code flavor now served r := by
  obtain ⟨fields, hFields, hReport⟩ := except_bind_ok_iff.mp h
  obtain ⟨hFlavor, ⟨cell, hCell, hDate⟩, text, hText, hCode⟩ := readRow_ok hFields
  obtain ⟨⟨hCode', hFlavor', hDate'⟩, hNow, hAgain⟩ := report_ok hReport
  obtain ⟨cell', hCell', hServedDate⟩ := hServes.dates served hServed
  have hSameText : text = code.toList := by
    simpa [hText] using hServes.codes served hServed
  have hSameDate : fields.reportDate = served.1 := by
    rw [hCell, Option.some.injEq] at hCell'
    rw [hCell', hServedDate] at hDate
    exact (Except.ok.inj hDate).symm
  exact {
    code_eq := by rw [hCode', hCode, hSameText, String.ofList_toList]
    flavor_eq := hFlavor'.trans hFlavor
    date_eq := hDate'.trans hSameDate
    fetched := hNow
    again := fun now' hAware => except_bind_ok_iff.mpr ⟨fields, hFields, hAgain now' hAware⟩ }

/-! ## Windows -/

def served (table : List (Date × CftcRow)) (start stop : Date) : List (Date × CftcRow) :=
  ((sortBy Prod.fst table).filter fun r => start ≤ r.1 ∧ r.1 ≤ stop).take defaultLimit

theorem fetchReports_ok_iff {http : CFTCHTTPClient} {code : String} {first last : Date}
    {table : List (Date × CftcRow)} (hServes : Serves env http code flavor first last table) {dataset : String}
    (hDataset : datasetId? flavor = some dataset) (hSchema : flavorSchema? flavor = some schema) {now : DateTime}
    {start stop : Date} (hStart : first ≤ start) (hStop : stop ≤ last) {reports : List COTReport} :
    fetchReports env http now code flavor start stop = .ok reports ↔ start ≤ stop ∧
      ∃ parsed, (served table start stop).mapM (fun r => parseRow env r.2 flavor schema now) = .ok parsed ∧
        sortBy COTReport.reportDate parsed = reports := by
  unfold fetchReports
  rw [hDataset, hSchema]
  dsimp only
  rw [except_guard_ok_iff, not_lt]
  refine and_congr_right fun hOrder => ?_
  obtain ⟨text, hText, hLoads⟩ := hServes.answers dataset hDataset start stop hStart hOrder hStop
  have hRows : ((served table start stop).map fun r => Prelude.Json.object r.2).mapM
      (fun row => do parseRow env (← cftcDict row "row") flavor schema now) =
        (served table start stop).mapM fun r => parseRow env r.2 flavor schema now := by
    rw [List.mapM_map]
    rfl
  rw [hText, except_bind_of_ok (show Except.mapError CftcFailure.transport (.ok text) = .ok text from rfl), hLoads]
  change (((served table start stop).map fun r => Prelude.Json.object r.2).mapM
    (fun row => do parseRow env (← cftcDict row "row") flavor schema now) >>= _) = _ ↔ _
  rw [hRows]
  simp only [except_bind_ok_iff, except_pure_ok_iff]

theorem served_of_few {table : List (Date × CftcRow)} {start stop : Date}
    (hFew : (table.filter fun r => start ≤ r.1 ∧ r.1 ≤ stop).length ≤ defaultLimit) :
    served table start stop = (sortBy Prod.fst table).filter fun r => start ≤ r.1 ∧ r.1 ≤ stop := by
  apply List.take_of_length_le
  rwa [((sortBy_perm_self Prod.fst table).filter _).length_eq]

/-- The rows of a window inside another are among its rows, and no more than they. -/
theorem served_within {table : List (Date × CftcRow)} {first last start stop : Date} (hStart : first ≤ start)
    (hStop : stop ≤ last) (hFew : (table.filter fun r => first ≤ r.1 ∧ r.1 ≤ last).length ≤ defaultLimit) :
    served table start stop = (served table first last).filter fun r => start ≤ r.1 ∧ r.1 ≤ stop := by
  have hInside : ∀ r : Date × CftcRow, decide (start ≤ r.1 ∧ r.1 ≤ stop) = true →
      decide (first ≤ r.1 ∧ r.1 ≤ last) = true := by
    intro r hr
    obtain ⟨hLow, hHigh⟩ := of_decide_eq_true hr
    exact decide_eq_true ⟨hStart.trans hLow, hHigh.trans hStop⟩
  have hFewer : (table.filter fun r => start ≤ r.1 ∧ r.1 ≤ stop).length ≤ defaultLimit := by
    refine le_trans ?_ hFew
    rw [← List.countP_eq_length_filter, ← List.countP_eq_length_filter]
    exact List.countP_mono_left fun r _ => hInside r
  rw [served_of_few hFew, served_of_few hFewer, List.filter_filter]
  refine List.filter_congr fun r _ => ?_
  cases hr : decide (start ≤ r.1 ∧ r.1 ≤ stop) with
  | true => rw [hInside r hr, Bool.true_and]
  | false => rw [Bool.false_and]

section Captured

variable {http : CFTCHTTPClient} {code : String} {first last : Date}
variable {table rows : List (Date × CftcRow)} {now : DateTime} {parsed : List COTReport}

theorem becomes_of_mapM (hServes : Serves env http code flavor first last table) (hRows : rows ⊆ table)
    (h : rows.mapM (fun r => parseRow env r.2 flavor schema now) = .ok parsed) :
    List.Forall₂ (Becomes env schema code flavor now) rows parsed := by
  induction rows generalizing parsed with
  | nil =>
    rw [List.mapM_nil, except_pure_ok_iff] at h
    subst h
    exact .nil
  | cons first rest ih =>
    obtain ⟨hFirst, hRest⟩ := List.cons_subset.mp hRows
    simp only [List.mapM_cons, except_bind_ok_iff, except_pure_ok_iff] at h
    obtain ⟨r, hr, reports, hReports, rfl⟩ := h
    exact .cons (becomes_of_parseRow hServes hFirst hr) (ih hRest hReports)

/-- The rows of a part of the window become the same reports at another moment. -/
theorem mapM_again (h : List.Forall₂ (Becomes env schema code flavor now) rows parsed) {now' : DateTime}
    (hAware : now'.isAware) (start stop : Date) :
    (rows.filter fun r => start ≤ r.1 ∧ r.1 ≤ stop).mapM (fun r => parseRow env r.2 flavor schema now') =
      .ok ((parsed.filter fun r => start ≤ r.reportDate ∧ r.reportDate ≤ stop).map fun r =>
        r.fetchedAt now' hAware) := by
  induction h with
  | nil => rfl
  | @cons row r rows parsed hFirst _ ih =>
    rw [List.filter_cons, List.filter_cons, hFirst.date_eq]
    split_ifs
    · rw [List.mapM_cons, hFirst.again now' hAware, except_ok_bind, ih]
      rfl
    · exact ih

theorem pairwise_parsed (h : List.Forall₂ (Becomes env schema code flavor now) rows parsed)
    (hOrder : rows.Pairwise fun r s => r.1 ≤ s.1) : parsed.Pairwise fun r s => r.reportDate ≤ s.reportDate := by
  have hDates : rows.map Prod.fst = parsed.map COTReport.reportDate :=
    map_eq_of_forall₂ h fun _ _ hBecomes => hBecomes.date_eq.symm
  rw [← List.pairwise_map, ← hDates, List.pairwise_map]
  exact hOrder

theorem fetchReports_supported {start stop : Date} {reports : List COTReport}
    (h : fetchReports env http now code flavor start stop = .ok reports) :
    (∃ dataset, datasetId? flavor = some dataset) ∧ ∃ schema, flavorSchema? flavor = some schema := by
  unfold fetchReports at h
  cases hDataset : datasetId? flavor with
  | none =>
    rw [hDataset] at h
    cases h
  | some dataset =>
    rw [hDataset] at h
    obtain ⟨-, h⟩ := except_guard_ok_iff.mp h
    cases hSchema : flavorSchema? flavor with
    | none =>
      rw [hSchema] at h
      cases h
    | some schema => exact ⟨⟨dataset, rfl⟩, schema, rfl⟩

end Captured

end CFTCSocrataSource

/-! ## Views -/

theorem sortBy_fetchedAt {now' : DateTime} (hAware : now'.isAware) (reports : List COTReport) :
    sortBy COTReport.reportDate (reports.map fun r => r.fetchedAt now' hAware) =
      (sortBy COTReport.reportDate reports).map fun r => r.fetchedAt now' hAware :=
  sortBy_map COTReport.reportDate (fun r => r.fetchedAt now' hAware) reports

/-- A replay of the captured reports answers any question about the captured days as the live source does, but for
the time of the fetch: the same rows for every window in them, and the same view at every moment dated in them. -/
theorem replay_agrees {env : CftcEnvironment} {http : CFTCHTTPClient} {code : String} {flavor : COTReportFlavor}
    {first last : Date} {table : List (Date × CftcRow)} (hServes : Serves env http code flavor first last table)
    (hFew : (table.filter fun r => first ≤ r.1 ∧ r.1 ≤ last).length ≤ defaultLimit) {now : DateTime}
    {reports : List COTReport}
    (hCapture : CFTCSocrataSource.fetchReports env http now code flavor first last = .ok reports)
    {replayId : String} {replay : InMemoryCOTSource} (hReplay : InMemoryCOTSource.create reports replayId = .ok replay)
    {later : DateTime} (hLater : later.isAware) :
    (∀ start stop, first ≤ start → start ≤ stop → stop ≤ last →
      CFTCSocrataSource.fetchReports env http later code flavor start stop =
        .ok ((replay.fetchReports code flavor start stop).map fun r => r.fetchedAt later hLater)) ∧
    ∀ (onFailure : CftcFailure → COTFailure) (asOf : DateTime) (since : Date), asOf.isAware → first ≤ since →
      since ≤ asOf.date → asOf.date ≤ last →
        ∃ view, replay.toCOTSource.reportsKnownAt code flavor asOf since = .ok view ∧
          (CFTCSocrataSource.toCOTSource env onFailure http later).reportsKnownAt code flavor asOf since =
            .ok (view.map fun r => r.fetchedAt later hLater) := by
  obtain ⟨⟨dataset, hDataset⟩, schema, hSchema⟩ := CFTCSocrataSource.fetchReports_supported hCapture
  obtain ⟨hDays, parsed, hParsed, rfl⟩ :=
    (CFTCSocrataSource.fetchReports_ok_iff hServes hDataset hSchema le_rfl le_rfl).mp hCapture
  have hRows : CFTCSocrataSource.served table first last ⊆ table := fun r hr =>
    (sortBy_perm_self Prod.fst table).subset (List.mem_of_mem_filter (List.mem_of_mem_take hr))
  have hBecomes := CFTCSocrataSource.becomes_of_mapM hServes hRows hParsed
  have hOrder : parsed.Pairwise fun r s => r.reportDate ≤ s.reportDate :=
    CFTCSocrataSource.pairwise_parsed hBecomes
      (((pairwise_sortBy Prod.fst table).filter _).sublist (List.take_sublist _ _))
  have hReports : replay.reports = parsed := by
    unfold InMemoryCOTSource.create at hReplay
    split_ifs at hReplay
    cases hReplay
    exact sortBy_of_pairwise hOrder
  have hWindow : ∀ start stop, replay.fetchReports code flavor start stop =
      parsed.filter fun r => start ≤ r.reportDate ∧ r.reportDate ≤ stop := by
    intro start stop
    have hSame : ∀ r ∈ parsed, r.cftcContractMarketCode = code ∧ r.flavor = flavor := by
      intro r hr
      obtain ⟨row, -, hRow⟩ := exists_left_of_forall₂ hBecomes hr
      exact ⟨hRow.code_eq, hRow.flavor_eq⟩
    rw [InMemoryCOTSource.fetchReports, hReports]
    refine (sortBy_of_pairwise (hOrder.filter _)).trans (List.filter_congr fun r hr => ?_)
    simp [hSame r hr]
  have hLive : ∀ start stop, first ≤ start → start ≤ stop → stop ≤ last →
      CFTCSocrataSource.fetchReports env http later code flavor start stop =
        .ok ((replay.fetchReports code flavor start stop).map fun r => r.fetchedAt later hLater) := by
    intro start stop hStart hOrdered hStop
    rw [CFTCSocrataSource.fetchReports_ok_iff hServes hDataset hSchema hStart hStop,
      CFTCSocrataSource.served_within hStart hStop hFew]
    refine ⟨hOrdered, _, CFTCSocrataSource.mapM_again hBecomes hLater start stop, ?_⟩
    rw [sortBy_fetchedAt, sortBy_of_pairwise (hOrder.filter _), hWindow]
  refine ⟨hLive, fun onFailure asOf since hAware hSince hAsOf hLast => ?_⟩
  have hRaw : (CFTCSocrataSource.toCOTSource env onFailure http later).fetchReports code flavor since asOf.date =
      .ok ((replay.fetchReports code flavor since asOf.date).map fun r => r.fetchedAt later hLater) :=
    mapError_ok_iff.mpr (hLive since asOf.date hSince hAsOf hLast)
  refine ⟨_, COTSource.reportsKnownAt_of_fetched hAware rfl, ?_⟩
  rw [COTSource.reportsKnownAt_of_fetched hAware hRaw, List.filter_map, sortBy_fetchedAt]
  rfl

/-! ## A platform -/

section Platform

variable {env : CftcEnvironment} {dataset code : String} {days : List Date}
  {rows : List (Date × List (String × Prelude.Json × List Char))}

def readFields (row : Date × List (String × Prelude.Json × List Char)) : Date × CftcRow :=
  (row.1, row.2.map fun field => (field.1.toList, field.2.1))

def windowText (rows : List (Date × List (String × Prelude.Json × List Char))) (start stop : Date) : List Char :=
  let hits := (sortBy Prod.fst rows).filter fun r => start ≤ r.1 ∧ r.1 ≤ stop
  JsonText.array ((hits.take defaultLimit).map fun r => JsonReader.objectText r.2)

/-- A platform that answers the queries of one code for the windows between its days. -/
def platform (dataset code : String) (days : List Date)
    (rows : List (Date × List (String × Prelude.Json × List Char))) : CFTCHTTPClient := fun request =>
  match (days.product days).find? fun w => (socrataRequest dataset code w.1 w.2).params = request.params with
  | some (start, stop) => pure (windowText rows start stop)
  | none => throw "no such window"

/-- A query names the two days of its window. -/
theorem socrataRequest_window {start stop start' stop' : Date}
    (h : (socrataRequest dataset code start stop).params = (socrataRequest dataset code start' stop').params) :
    start = start' ∧ stop = stop' := by
  have hLength := fun d : Date => (isoformatChars_parts d).1
  have hWhere := congrArg String.toList (Prod.ext_iff.mp (List.cons.inj h).1).2
  simp only [String.toList_append, Date.isoformat, String.toList_ofList, List.append_assoc,
    List.append_cancel_left_eq] at hWhere
  obtain ⟨hStart, hRest⟩ := List.append_inj hWhere (by rw [hLength, hLength])
  simp only [List.append_cancel_left_eq] at hRest
  obtain ⟨hStop, -⟩ := List.append_inj hRest (by rw [hLength, hLength])
  exact ⟨isoformatChars_injective hStart, isoformatChars_injective hStop⟩

theorem platform_answers {start stop : Date} (hStart : start ∈ days) (hStop : stop ∈ days) :
    platform dataset code days rows (socrataRequest dataset code start stop) = .ok (windowText rows start stop) := by
  unfold platform
  split
  · rename_i first last hFound
    have hSame := (List.find?_eq_some_iff_append.mp hFound).1
    obtain ⟨rfl, rfl⟩ := socrataRequest_window (of_decide_eq_true hSame)
    rfl
  · rename_i hNone
    have hSelf := List.find?_eq_none.mp hNone (start, stop) (List.pair_mem_product.mpr ⟨hStart, hStop⟩)
    exact absurd (decide_eq_true rfl) hSelf

theorem serves_platform {flavor : COTReportFlavor} {first last : Date} (hDataset : datasetId? flavor = some dataset)
    (hDays : ∀ d, first ≤ d → d ≤ last → d ∈ days)
    (hRows : ∀ r ∈ rows, r.2 ≠ [] ∧ ∀ field ∈ r.2, JsonReader.Reads field.2.1 field.2.2)
    (hDates : ∀ r ∈ rows, ∃ cell, (readFields r).2.get? dateCol = some cell ∧
      env.parseSocrataDate cell dateCol = .ok r.1)
    (hCodes : ∀ r ∈ rows, (readFields r).2.get? codeCol = some (.str code.toList)) :
    Serves env (platform dataset code days rows) code flavor first last (rows.map readFields) where
  answers dataset' hDataset' start stop hStart hOrder hStop := by
    obtain rfl : dataset' = dataset := Option.some.inj (hDataset'.symm.trans hDataset)
    refine ⟨_, platform_answers (hDays start hStart (hOrder.trans hStop))
      (hDays stop (hStart.trans hOrder) hStop), ?_⟩
    have hSorted : sortBy Prod.fst (rows.map readFields) = (sortBy Prod.fst rows).map readFields :=
      sortBy_map Prod.fst readFields rows
    have hHits : ∀ r ∈ ((sortBy Prod.fst rows).filter fun r => start ≤ r.1 ∧ r.1 ≤ stop).take defaultLimit,
        r.2 ≠ [] ∧ ∀ field ∈ r.2, JsonReader.Reads field.2.1 field.2.2 := fun r hr =>
      hRows r (mem_sortBy.mp (List.mem_of_mem_filter (List.mem_of_mem_take hr)))
    have hRead := JsonReader.loads_objects (List.forall_mem_map.mpr hHits)
    rw [hSorted, List.filter_map, ← List.map_take, List.map_map]
    rw [List.map_map, List.map_map] at hRead
    exact hRead
  dates := List.forall_mem_map.mpr hDates
  codes := List.forall_mem_map.mpr hCodes

end Platform

open InMemoryCOTSource (nov18 nov21 nov25 easternWinter)

/-- The members of the row of a Tuesday, as they are read and as they are written. -/
def goldFields (day : Date) (specLong : ℤ) : List (String × Prelude.Json × List Char) :=
  [(dateCol, .str day.isoformatChars, JsonText.quote day.isoformatChars),
    (codeCol, .str "088691".toList, JsonText.quote "088691".toList),
    (oiCol, .int 400000, JsonText.intText 400000),
    ("noncomm_positions_long_all", .int specLong, JsonText.intText specLong),
    ("noncomm_positions_short_all", .int 30000, JsonText.intText 30000),
    ("comm_positions_long_all", .int 50000, JsonText.intText 50000),
    ("comm_positions_short_all", .int 200000, JsonText.intText 200000)]

def goldRows : List (Date × List (String × Prelude.Json × List Char)) :=
  [(nov25, goldFields nov25 160000), (nov18, goldFields nov18 150000)]

def goldDays : List Date :=
  [nov18, .of 2025 11 19, .of 2025 11 20, nov21, .of 2025 11 22, .of 2025 11 23, .of 2025 11 24, nov25]

theorem mem_goldDays {d : Date} (hLow : nov18 ≤ d) (hHigh : d ≤ nov25) : d ∈ goldDays := by
  have hFirst : nov18.rank ≤ d.rank := hLow
  have hLast : d.rank ≤ nov25.rank := hHigh
  have hMonth := d.month_le
  have hDay := d.day_le.trans (daysInMonth_le d.year d.month)
  simp only [Date.rank, nov18, nov25, Date.of] at hFirst hLast
  simp only [goldDays, nov18, nov21, nov25, Date.of, List.mem_cons, List.not_mem_nil, or_false, Date.ext_iff]
  omega

theorem goldFields_read (day : Date) {specLong : ℤ}
    (hSize : (Nat.toDigits 10 specLong.natAbs).length ≤ UnicodeData.maxStrDigits) :
    goldFields day specLong ≠ [] ∧
      ∀ field ∈ goldFields day specLong, JsonReader.Reads field.2.1 field.2.2 := by
  unfold goldFields
  simp only [List.forall_mem_cons]
  exact ⟨List.cons_ne_nil _ _, JsonReader.reads_quote _, JsonReader.reads_quote _,
    JsonReader.reads_intText (by decide), JsonReader.reads_intText hSize, JsonReader.reads_intText (by decide),
    JsonReader.reads_intText (by decide), JsonReader.reads_intText (by decide), by simp⟩

def goldEnvironment : CftcEnvironment where
  unicode := CMEEODDataSource.plainUnicode
  dateFromisoformat text := [nov18, nov25].find? fun d => d.isoformatChars = text
  datetimeFromisoformat _ := none
  floatStr := id
  rowSha _ := zeroDigest
  et := easternWinter

def goldPlatform : CFTCHTTPClient := platform "6dca-aqww" "088691" goldDays goldRows

theorem serves_gold :
    Serves goldEnvironment goldPlatform "088691" .legacy nov18 nov25 (goldRows.map readFields) := by
  apply serves_platform rfl fun d => mem_goldDays
  · simp only [goldRows, List.forall_mem_cons]
    exact ⟨goldFields_read nov25 (by decide), goldFields_read nov18 (by decide), by simp⟩
  · simp only [goldRows, List.forall_mem_cons]
    exact ⟨⟨_, rfl, rfl⟩, ⟨_, rfl, rfl⟩, by simp⟩
  · simp only [goldRows, List.forall_mem_cons]
    exact ⟨rfl, rfl, by simp⟩

/-- The first week is known by the second Tuesday, the second one is not. -/
theorem goldRows_parse {schema : FlavorSchema} (hSchema : flavorSchema? .legacy = some schema) :
    ∃ first second : COTReport,
      (CFTCSocrataSource.served (goldRows.map readFields) nov18 nov25).mapM (fun r =>
        CFTCSocrataSource.parseRow goldEnvironment r.2 .legacy schema (.utcMidnight .dec12)) = .ok [first, second] ∧
      (first.reportDate = nov18 ∧ second.reportDate = nov25) ∧
      inView "088691" .legacy nov18 (.utcMidnight nov25) first = true ∧
      inView "088691" .legacy nov18 (.utcMidnight nov25) second = false := by
  have hRun : ((flavorSchema? .legacy).any fun schema =>
      ((CFTCSocrataSource.served (goldRows.map readFields) nov18 nov25).mapM fun r =>
        CFTCSocrataSource.parseRow goldEnvironment r.2 .legacy schema (.utcMidnight .dec12)).toOption.any
      fun parsed => decide (parsed.map COTReport.reportDate = [nov18, nov25] ∧
        parsed.map (inView "088691" .legacy nov18 (.utcMidnight nov25)) = [true, false])) = true := by
    decide +kernel
  rw [hSchema, Option.any_some] at hRun
  obtain ⟨parsed, hParsed, hTest⟩ := except_exists_ok hRun
  obtain ⟨hDates, hViews⟩ := of_decide_eq_true hTest
  obtain ⟨first, rest, rfl, hFirst, hRest⟩ := List.map_eq_cons_iff.mp hDates
  obtain ⟨second, none, rfl, hSecond, hNone⟩ := List.map_eq_cons_iff.mp hRest
  rw [List.map_eq_nil_iff] at hNone
  subst hNone
  simp only [List.map_cons, List.map_nil, List.cons.injEq, and_true] at hViews
  exact ⟨first, second, hParsed, ⟨hFirst, hSecond⟩, hViews⟩

/-- Captured on a Friday in December and asked again after the weekend: on the second Tuesday, only the first week
was known. -/
theorem replay_agrees_gold : ∃ first second replay,
    CFTCSocrataSource.fetchReports goldEnvironment goldPlatform (.utcMidnight .dec12) "088691" .legacy nov18 nov25 =
        .ok [first, second] ∧
      InMemoryCOTSource.create [first, second] "cot_in_memory" = .ok replay ∧
      CFTCSocrataSource.fetchReports goldEnvironment goldPlatform (.utcMidnight .dec15) "088691" .legacy nov18 nov18 =
        .ok [first.fetchedAt (.utcMidnight .dec15) (DateTime.utcMidnight_aware .dec15)] ∧
      replay.toCOTSource.reportsKnownAt "088691" .legacy (.utcMidnight nov25) nov18 = .ok [first] ∧
      ∀ onFailure, (CFTCSocrataSource.toCOTSource goldEnvironment onFailure goldPlatform
          (.utcMidnight .dec15)).reportsKnownAt "088691" .legacy (.utcMidnight nov25) nov18 =
        .ok [first.fetchedAt (.utcMidnight .dec15) (DateTime.utcMidnight_aware .dec15)] := by
  have hLater : nov18 < nov25 := by decide
  obtain ⟨schema, hSchema⟩ : ∃ schema, flavorSchema? .legacy = some schema := ⟨_, rfl⟩
  obtain ⟨first, second, hParsed, ⟨hFirst, hSecond⟩, hKnown, hUnknown⟩ := goldRows_parse hSchema
  have hSorted : sortBy COTReport.reportDate [first, second] = [first, second] :=
    sortBy_of_pairwise (by simp [hFirst, hSecond, hLater.le])
  have hCapture : CFTCSocrataSource.fetchReports goldEnvironment goldPlatform (.utcMidnight .dec12) "088691" .legacy
      nov18 nov25 = .ok [first, second] :=
    (CFTCSocrataSource.fetchReports_ok_iff serves_gold rfl hSchema le_rfl le_rfl).mpr
      ⟨hLater.le, [first, second], hParsed, hSorted⟩
  obtain ⟨replay, hReplay⟩ : ∃ replay, InMemoryCOTSource.create [first, second] "cot_in_memory" = .ok replay :=
    ⟨_, rfl⟩
  have hReports : replay.reports = [first, second] := by
    cases hReplay
    rfl
  obtain ⟨hWindows, hViews⟩ := replay_agrees serves_gold (by decide +kernel) hCapture hReplay
    (DateTime.utcMidnight_aware .dec15)
  have hView : replay.toCOTSource.reportsKnownAt "088691" .legacy (.utcMidnight nov25) nov18 = .ok [first] := by
    rw [InMemoryCOTSource.reportsKnownAt_eq (DateTime.utcMidnight_aware nov25), hReports,
      List.filter_cons_of_pos hKnown, List.filter_cons_of_neg (by simp [hUnknown])]
    rfl
  have hWeek : replay.fetchReports "088691" .legacy nov18 nov18 = [first] := by
    obtain ⟨hCode, hFlavor, -⟩ := (knownSince_iff ..).mp ((inView_iff ..).mp hKnown).1
    rw [InMemoryCOTSource.fetchReports, hReports, List.filter_cons_of_pos (by simp [hCode, hFlavor, hFirst]),
      List.filter_cons_of_neg (by simp [hSecond, not_le.mpr hLater])]
    rfl
  refine ⟨first, second, replay, hCapture, hReplay, ?_, hView, fun onFailure => ?_⟩
  · rw [hWindows nov18 nov18 le_rfl le_rfl hLater.le, hWeek]
    rfl
  · obtain ⟨view, hReplayed, hLive⟩ :=
      hViews onFailure (.utcMidnight nov25) nov18 (DateTime.utcMidnight_aware nov25) le_rfl hLater.le le_rfl
    obtain rfl := Except.ok.inj (hReplayed.symm.trans hView)
    exact hLive

end Futur3.Data
