import Futur3.Data.Brr
import Futur3.Prelude.SideBySide

/-! # The reference rate is a partitioned average

With distinct source ids and distinct timestamps in each source, neither the
order of the sources nor of their bars matters, nor any bar outside the hour.
The twelve partitions cut the hour without overlap, and the rate lies between
the closes it averages.
-/

namespace Futur3.Data

open Prelude Storage Selection

/-! ## The hour and its partitions -/

/-- The clock is not changed between three and four in the afternoon. -/
def SteadyAfternoon (london : TimeZone) : Prop :=
  ∀ date, london.utcoffset date windowStart = london.utcoffset date windowEnd

theorem londonWindowUtc?_hour {london : TimeZone} (hLondon : SteadyAfternoon london)
    {fixDate : Date} {start stop : DateTime}
    (h : londonWindowUtc? london fixDate = some (start, stop)) :
    stop.instant = start.instant + numPartitions * partitionMicros := by
  obtain ⟨start', hStart, h⟩ := Option.bind_eq_some_iff.mp h
  obtain ⟨stop', hStop, h⟩ := Option.bind_eq_some_iff.mp h
  obtain ⟨rfl, rfl⟩ := Prod.mk.inj (Option.some.inj h)
  have hOffset := hLondon fixDate
  rw [DateTime.instant_toUtc? hStart, DateTime.instant_toUtc? hStop]
  simp only [DateTime.instant, TimeZone.combine, Option.getD_some, windowStart, windowEnd,
    numPartitions, partitionMicros] at hOffset ⊢
  omega

theorem inWindow_iff {start stop : DateTime} {bar : DecimalBar} :
    inWindow start stop bar = true ↔
      start.instant ≤ bar.ts.instant ∧ bar.ts.instant < stop.instant := by
  simp [inWindow]

theorem inPartition_iff {start : DateTime} {i : ℕ} {bar : DecimalBar} :
    inPartition start i bar = true ↔ start.instant + i * partitionMicros ≤ bar.ts.instant ∧
      bar.ts.instant < start.instant + i * partitionMicros + partitionMicros := by
  simp [inPartition]

section Hour

variable {start stop : DateTime}
  (hHour : stop.instant = start.instant + numPartitions * partitionMicros)

include hHour

theorem existsUnique_inPartition {bar : DecimalBar} (h : inWindow start stop bar = true) :
    ∃! i, i < numPartitions ∧ inPartition start i bar = true := by
  rw [inWindow_iff, hHour] at h
  simp only [inPartition_iff, numPartitions, partitionMicros] at h ⊢
  refine ⟨((bar.ts.instant - start.instant) / 300000000).toNat, ⟨by omega, by omega, by omega⟩, ?_⟩
  rintro j ⟨hj, hStart, hEnd⟩
  omega

end Hour

/-! ## What is fetched -/

/-- The bars of the window that the source returns, none if it raises. -/
def Venue.barsIn (venue : Venue) (contract : ContractSymbol) (start stop : DateTime) :
    List DecimalBar :=
  match venue.getBars contract start stop .min5 with
  | .ok bars => bars.filter (inWindow start stop)
  | .error _ => []

def fetchedBars (venues : List Venue) (contract : ContractSymbol) (start stop : DateTime) :
    List (String × List DecimalBar) :=
  venues.map fun venue => (venue.sourceId, venue.barsIn contract start stop)

namespace BRRReconstructor

theorem fetch_ok {contract : ContractSymbol} {start stop : DateTime} {venues : List Venue}
    {barsPerVenue barsPerVenue' : Dict String (List DecimalBar)}
    (h : fetch contract start stop venues barsPerVenue = .ok barsPerVenue') :
    barsPerVenue' = (fetchedBars venues contract start stop).foldl (fun d p => d.set p.1 p.2)
      barsPerVenue := by
  induction venues generalizing barsPerVenue with
  | nil => exact (except_pure_ok_iff.mp h).symm
  | cons venue rest ih =>
    unfold fetch at h
    unfold fetchedBars Venue.barsIn
    cases hGet : venue.getBars contract start stop .min5 with
    | error exception =>
      rw [hGet] at h
      cases h
    | ok bars =>
      rw [hGet] at h
      rw [List.map_cons, List.foldl_cons, hGet]
      exact ih h

theorem fetch_empty_ok {contract : ContractSymbol} {start stop : DateTime} {venues : List Venue}
    {barsPerVenue : Dict String (List DecimalBar)}
    (h : fetch contract start stop venues .empty = .ok barsPerVenue) :
    barsPerVenue = .ofList (fetchedBars venues contract start stop) := fetch_ok h

structure Computed (sources : List Venue) (london : TimeZone) (contract : ContractSymbol)
    (fixDate : Date) (result : BRRReconstruction) (start stop : DateTime) : Prop where
  window : londonWindowUtc? london fixDate = some (start, stop)
  partitionValues : result.partitionValues = (List.range numPartitions).map
    (partitionValue sources (.ofList (fetchedBars sources contract start stop)) start)
  valid : result.partitionValues.filterMap id ≠ []
  reconstructedValue :
    result.reconstructedValue = arithmeticMean (result.partitionValues.filterMap id)

theorem create_ok {contract : ContractSymbol} {fixDate : Date} {reconstructedValue : ℚ}
    {partitionValues : List (Option ℚ)} {numPartitionsValid : ℕ} {venueIds : List String}
    {contentBytesSha : String} {result : BRRReconstruction}
    (h : BRRReconstruction.create contract fixDate reconstructedValue partitionValues
      numPartitionsValid venueIds contentBytesSha = .ok result) :
    result.reconstructedValue = reconstructedValue ∧ result.partitionValues = partitionValues := by
  unfold BRRReconstruction.create at h
  split_ifs at h
  cases h
  exact ⟨rfl, rfl⟩

theorem reconstruct_ok {reconstructor : BRRReconstructor} {sha256 : String → HexDigest}
    {london : TimeZone} {contract : ContractSymbol} {fixDate : Date} {result : BRRReconstruction}
    (h : reconstructor.reconstruct sha256 london contract fixDate = .ok result) :
    ∃ start stop, Computed reconstructor.sources london contract fixDate result start stop := by
  unfold reconstruct at h
  rw [except_guard_ok_iff] at h
  replace h := h.2
  cases hWindow : londonWindowUtc? london fixDate with
  | none =>
    rw [hWindow] at h
    cases h
  | some window =>
    obtain ⟨start, stop⟩ := window
    rw [hWindow] at h
    obtain ⟨barsPerVenue, hFetch, h⟩ := except_bind_ok_iff.mp h
    rw [fetch_empty_ok hFetch] at h
    obtain ⟨hValid, hCreate⟩ := except_guard_ok_iff.mp h
    obtain ⟨hValue, hPartitions⟩ := create_ok hCreate
    exact ⟨start, stop, hWindow, hPartitions, hPartitions ▸ hValid, hPartitions ▸ hValue⟩

end BRRReconstructor

/-! ## Rearranging what the sources return -/

def DistinctTimestamps (bars : List DecimalBar) : Prop :=
  (bars.map fun bar => bar.ts.instant).Nodup

/-- The same bars of the window in another order, of distinct timestamps. -/
def SameBars (bars bars' : List DecimalBar) : Prop :=
  bars.Perm bars' ∧ DistinctTimestamps bars

theorem DistinctTimestamps.filter {bars : List DecimalBar} (h : DistinctTimestamps bars)
    (p : DecimalBar → Bool) : DistinctTimestamps (bars.filter p) :=
  h.sublist (List.filter_sublist.map _)

theorem SameBars.nil : SameBars [] [] := ⟨.nil, List.nodup_nil⟩

theorem SameBars.filter {bars bars' : List DecimalBar} (h : SameBars bars bars')
    (p : DecimalBar → Bool) : SameBars (bars.filter p) (bars'.filter p) :=
  ⟨h.1.filter p, h.2.filter p⟩

theorem SameBars.lastClose {bars bars' : List DecimalBar} (h : SameBars bars bars') :
    lastClose bars = lastClose bars' := by
  obtain ⟨hPerm, hTimes⟩ := h
  cases bars with
  | nil => rw [hPerm.nil_eq]
  | cons first rest =>
    cases bars' with
    | nil => exact absurd hPerm.eq_nil (List.cons_ne_nil first rest)
    | cons first' rest' =>
      exact congrArg (fun bar => some bar.close.value) (maxBy_eq_of_perm hPerm hTimes)

theorem SameBars.sorted {bars bars' : List DecimalBar} (h : SameBars bars bars') :
    sortBy (fun bar => bar.ts.instant) bars = sortBy (fun bar => bar.ts.instant) bars' :=
  sortBy_eq_of_perm h.1 h.2

theorem contentPayload_eq (contract : ContractSymbol) (fixDate : Date)
    {barsPerVenue barsPerVenue' : Dict String (List DecimalBar)}
    (h : Dict.SideBySide SameBars barsPerVenue barsPerVenue') :
    contentPayload contract fixDate barsPerVenue = contentPayload contract fixDate barsPerVenue' := by
  have hVenues : venuesPayload barsPerVenue = venuesPayload barsPerVenue' := by
    apply map_eq_of_forall₂ (forall₂_sortBy (fun _ _ hEntry => hEntry.1) h)
    rintro ⟨venueId, bars⟩ ⟨venueId', bars'⟩ ⟨hId, hBars⟩
    dsimp only at hId hBars ⊢
    rw [hId, hBars.sorted]
  unfold contentPayload
  rw [hVenues]

/-- Both raise the same, or both return the same bars of the window. -/
inductive SameAnswer (start stop : DateTime) :
    Except String (List DecimalBar) → Except String (List DecimalBar) → Prop
  | raised (exception : String) : SameAnswer start stop (.error exception) (.error exception)
  | bars {bars bars' : List DecimalBar}
      (h : (bars.filter (inWindow start stop)).Perm (bars'.filter (inWindow start stop))) :
      SameAnswer start stop (.ok bars) (.ok bars')

/-- The same source up to the order of its bars of the window and any others outside it. -/
structure Venue.Same (contract : ContractSymbol) (window : Option (DateTime × DateTime))
    (venue venue' : Venue) : Prop where
  sourceId : venue.sourceId = venue'.sourceId
  answers : ∀ start stop, window = some (start, stop) →
    SameAnswer start stop (venue.getBars contract start stop .min5)
      (venue'.getBars contract start stop .min5)

instance (bars : List DecimalBar) : Decidable (DistinctTimestamps bars) :=
  inferInstanceAs (Decidable (List.Nodup _))

def Venue.DistinctTimestamps (venue : Venue) : Prop :=
  ∀ contract start stop bars, venue.getBars contract start stop .min5 = .ok bars →
    Data.DistinctTimestamps bars

/-- The sources in another order, each with its bars of the window in another order and
with any others outside it. -/
def Rearranged (contract : ContractSymbol) (window : Option (DateTime × DateTime))
    (venues venues' : List Venue) : Prop :=
  ∃ reordered, venues.Perm reordered ∧
    List.Forall₂ (Venue.Same contract window) reordered venues'

/-- What carries the comparison of two reconstructions from source to source. -/
def Comparable (contract : ContractSymbol) (window : Option (DateTime × DateTime))
    (venue venue' : Venue) : Prop :=
  venue.Same contract window venue' ∧ venue.DistinctTimestamps

namespace BRRReconstructor

inductive SameFetched : Except BrrError (Dict String (List DecimalBar)) →
    Except BrrError (Dict String (List DecimalBar)) → Prop
  | raised (e : BrrError) : SameFetched (.error e) (.error e)
  | bars {barsPerVenue barsPerVenue' : Dict String (List DecimalBar)}
      (h : Dict.SideBySide SameBars barsPerVenue barsPerVenue') :
      SameFetched (.ok barsPerVenue) (.ok barsPerVenue')

theorem fetch_same {contract : ContractSymbol} {start stop : DateTime} {venues venues' : List Venue}
    (h : List.Forall₂ (Comparable contract (some (start, stop))) venues venues')
    {barsPerVenue barsPerVenue' : Dict String (List DecimalBar)}
    (hBars : Dict.SideBySide SameBars barsPerVenue barsPerVenue') :
    SameFetched (fetch contract start stop venues barsPerVenue)
      (fetch contract start stop venues' barsPerVenue') := by
  induction h generalizing barsPerVenue barsPerVenue' with
  | nil => exact .bars hBars
  | @cons venue venue' _ _ hHead _ ih =>
    obtain ⟨hSame, hTimes⟩ := hHead
    have hAnswers := hSame.answers start stop rfl
    have hDistinct := hTimes contract start stop
    unfold fetch
    rw [← hSame.sourceId]
    generalize venue.getBars contract start stop .min5 = answer at hAnswers hDistinct
    generalize venue'.getBars contract start stop .min5 = answer' at hAnswers
    cases hAnswers with
    | raised exception => exact .raised _
    | bars hPerm => exact ih (hBars.set venue.sourceId ⟨hPerm, (hDistinct _ rfl).filter _⟩)

theorem partitionValue_eq {contract : ContractSymbol} {window : Option (DateTime × DateTime)}
    {venues venues' : List Venue} (h : List.Forall₂ (Comparable contract window) venues venues')
    {barsPerVenue barsPerVenue' : Dict String (List DecimalBar)}
    (hBars : Dict.SideBySide SameBars barsPerVenue barsPerVenue') (start : DateTime) (i : ℕ) :
    partitionValue venues barsPerVenue start i = partitionValue venues' barsPerVenue' start i := by
  have hCloses : partitionCloses venues barsPerVenue start i =
      partitionCloses venues' barsPerVenue' start i := by
    apply filterMap_eq_of_forall₂ h
    rintro venue venue' ⟨hSame, -⟩
    have hFound := hBars.getD venue.sourceId (SameBars.nil)
    rw [← hSame.sourceId, (hFound.filter (inPartition start i)).lastClose]
  unfold partitionValue
  rw [hCloses]

theorem reconstructBars_same {contract : ContractSymbol} {window : Option (DateTime × DateTime)}
    {venues venues' : List Venue} (h : List.Forall₂ (Comparable contract window) venues venues')
    {barsPerVenue barsPerVenue' : Dict String (List DecimalBar)}
    (hBars : Dict.SideBySide SameBars barsPerVenue barsPerVenue') (sha256 : String → HexDigest)
    (fixDate : Date) (start : DateTime) :
    reconstructBars venues sha256 contract fixDate start barsPerVenue =
      reconstructBars venues' sha256 contract fixDate start barsPerVenue' := by
  have hIds : venues.map Venue.sourceId = venues'.map Venue.sourceId :=
    map_eq_of_forall₂ h fun _ _ hSame => hSame.1.sourceId
  have hValues : partitionValue venues barsPerVenue start =
      partitionValue venues' barsPerVenue' start :=
    funext (partitionValue_eq h hBars start)
  unfold reconstructBars
  rw [hIds, hValues, contentPayload_eq contract fixDate hBars]

theorem reconstruct_same {reconstructor reconstructor' : BRRReconstructor}
    {contract : ContractSymbol} {london : TimeZone} {fixDate : Date}
    (h : List.Forall₂ (Comparable contract (londonWindowUtc? london fixDate)) reconstructor.sources
      reconstructor'.sources) (sha256 : String → HexDigest) :
    reconstructor.reconstruct sha256 london contract fixDate =
      reconstructor'.reconstruct sha256 london contract fixDate := by
  unfold reconstruct
  by_cases hContract : contract ∉ supportedContracts
  · rw [if_pos hContract, if_pos hContract]
  · rw [if_neg hContract, if_neg hContract]
    cases hWindow : londonWindowUtc? london fixDate with
    | none => rfl
    | some window =>
      obtain ⟨start, stop⟩ := window
      rw [hWindow] at h
      dsimp only
      have hFetched := fetch_same h Dict.sideBySide_empty
      generalize fetch contract start stop reconstructor.sources .empty = fetched at hFetched
      generalize fetch contract start stop reconstructor'.sources .empty = fetched' at hFetched
      cases hFetched with
      | raised e => rfl
      | bars hBars => exact reconstructBars_same h hBars sha256 fixDate start

end BRRReconstructor

/-- Building the reconstructor over the sources and reconstructing one rate. -/
def reconstructFrom (venues : List Venue) (sha256 : String → HexDigest) (london : TimeZone)
    (contract : ContractSymbol) (fixDate : Date) : Except BrrError BRRReconstruction := do
  let reconstructor ← BRRReconstructor.create venues
  reconstructor.reconstruct sha256 london contract fixDate

theorem forall₂_sorted {contract : ContractSymbol} {window : Option (DateTime × DateTime)}
    {venues venues' : List Venue} (h : Rearranged contract window venues venues')
    (hIds : (venues.map Venue.sourceId).Nodup) (hTimes : ∀ venue ∈ venues, venue.DistinctTimestamps) :
    List.Forall₂ (Comparable contract window) (sortBy Venue.sourceId venues)
      (sortBy Venue.sourceId venues') := by
  obtain ⟨reordered, hPerm, hSame⟩ := h
  rw [sortBy_eq_of_perm hPerm hIds]
  apply forall₂_sortBy (fun _ _ hComparable => hComparable.1.sourceId)
  rw [List.forall₂_iff_zip] at hSame ⊢
  refine ⟨hSame.1, fun {venue venue'} hZip => ⟨hSame.2 hZip, ?_⟩⟩
  exact hTimes venue (hPerm.symm.subset (List.of_mem_zip hZip).1)

theorem reconstructFrom_rearranged {contract : ContractSymbol} {london : TimeZone} {fixDate : Date}
    {venues venues' : List Venue}
    (h : Rearranged contract (londonWindowUtc? london fixDate) venues venues')
    (hIds : (venues.map Venue.sourceId).Nodup) (hTimes : ∀ venue ∈ venues, venue.DistinctTimestamps)
    (sha256 : String → HexDigest) :
    reconstructFrom venues' sha256 london contract fixDate =
      reconstructFrom venues sha256 london contract fixDate := by
  have hLength : venues'.length = venues.length := by
    obtain ⟨reordered, hPerm, hSame⟩ := h
    rw [hPerm.length_eq, hSame.length_eq]
  unfold reconstructFrom BRRReconstructor.create
  by_cases hEnough : venues.length < minVenues
  · rw [dif_pos hEnough, dif_pos (hLength ▸ hEnough), hLength]
  · rw [dif_neg hEnough, dif_neg (hLength ▸ hEnough)]
    exact (BRRReconstructor.reconstruct_same (forall₂_sorted h hIds hTimes) sha256).symm

/-! ## The rate among the closes -/

theorem arithmeticMean_bounds {values : List ℚ} (hValues : values ≠ []) {lo hi : ℚ}
    (h : ∀ v ∈ values, lo ≤ v ∧ v ≤ hi) : lo ≤ arithmeticMean values ∧ arithmeticMean values ≤ hi := by
  have hLength : (0 : ℚ) < values.length := by
    exact_mod_cast List.length_pos_iff.mpr hValues
  have hLower := List.card_nsmul_le_sum values lo fun v hv => (h v hv).1
  have hUpper := List.sum_le_card_nsmul values hi fun v hv => (h v hv).2
  rw [nsmul_eq_mul] at hLower hUpper
  unfold arithmeticMean
  constructor
  · rw [le_div_iff₀ hLength, mul_comm]
    exact hLower
  · rw [div_le_iff₀ hLength, mul_comm hi]
    exact hUpper

/-- The last close of the source in a partition, if it has a bar there. -/
def Venue.closeIn (venue : Venue) (contract : ContractSymbol) (start stop : DateTime) (i : ℕ) :
    Option ℚ :=
  lastClose ((venue.barsIn contract start stop).filter (inPartition start i))

def closesIn (venues : List Venue) (contract : ContractSymbol) (start stop : DateTime) (i : ℕ) :
    List ℚ :=
  venues.filterMap fun venue => venue.closeIn contract start stop i

/-- The closes of the sources in the partitions that at least two of them reach. -/
def usedCloses (venues : List Venue) (contract : ContractSymbol) (start stop : DateTime) : List ℚ :=
  (List.range numPartitions).flatMap fun i =>
    if (closesIn venues contract start stop i).length < minVenues then []
    else closesIn venues contract start stop i

theorem map_fst_fetchedBars (venues : List Venue) (contract : ContractSymbol)
    (start stop : DateTime) :
    (fetchedBars venues contract start stop).map Prod.fst = venues.map Venue.sourceId := by
  rw [fetchedBars, List.map_map]
  rfl

/-- With distinct ids each source is averaged with the bars it returned itself. -/
theorem partitionCloses_eq {venues : List Venue} (hIds : (venues.map Venue.sourceId).Nodup)
    (contract : ContractSymbol) (start stop : DateTime) (i : ℕ) :
    (BRRReconstructor.partitionCloses venues (.ofList (fetchedBars venues contract start stop)) start
      i).map Prod.snd = closesIn venues contract start stop i := by
  unfold BRRReconstructor.partitionCloses closesIn
  rw [List.map_filterMap]
  apply List.filterMap_congr
  intro venue hVenue
  have hMem : (venue.sourceId, venue.barsIn contract start stop) ∈
      fetchedBars venues contract start stop := List.mem_map_of_mem hVenue
  rw [← map_fst_fetchedBars venues contract start stop] at hIds
  rw [(Dict.mem_iff_get?_ofList hIds).mp hMem, Option.getD_some, Option.map_map]
  exact Option.map_id'

theorem mem_usedCloses {venues : List Venue} {contract : ContractSymbol} {start stop : DateTime}
    {c : ℚ} : c ∈ usedCloses venues contract start stop ↔ ∃ i < numPartitions,
      minVenues ≤ (closesIn venues contract start stop i).length ∧
        c ∈ closesIn venues contract start stop i := by
  unfold usedCloses
  rw [List.mem_flatMap]
  simp only [List.mem_range]
  refine exists_congr fun i => and_congr_right fun _ => ?_
  split_ifs with hFew
  · simp [hFew]
  · simp [not_lt.mp hFew]

theorem usedCloses_perm {venues venues' : List Venue} (h : venues.Perm venues')
    (contract : ContractSymbol) (start stop : DateTime) (c : ℚ) :
    c ∈ usedCloses venues contract start stop ↔ c ∈ usedCloses venues' contract start stop := by
  have hCloses : ∀ i, (closesIn venues contract start stop i).Perm
      (closesIn venues' contract start stop i) := fun i => h.filterMap _
  rw [mem_usedCloses, mem_usedCloses]
  refine exists_congr fun i => and_congr_right fun _ => ?_
  rw [(hCloses i).length_eq, (hCloses i).mem_iff]

/-- A valid partition has the mean of the closes used in it. -/
theorem exists_partition_of_value {venues : List Venue} (hIds : (venues.map Venue.sourceId).Nodup)
    {contract : ContractSymbol} {start stop : DateTime} {value : ℚ}
    (h : value ∈ ((List.range numPartitions).map (BRRReconstructor.partitionValue venues
      (.ofList (fetchedBars venues contract start stop)) start)).filterMap id) :
    ∃ closes, closes ≠ [] ∧ value = arithmeticMean closes ∧
      ∀ c ∈ closes, c ∈ usedCloses venues contract start stop := by
  obtain ⟨found, hFound, rfl⟩ := List.mem_filterMap.mp h
  obtain ⟨i, hi, hValue⟩ := List.mem_map.mp hFound
  unfold BRRReconstructor.partitionValue at hValue
  rw [partitionCloses_eq hIds] at hValue
  simp only at hValue
  split_ifs at hValue with hFew
  refine ⟨closesIn venues contract start stop i, ?_, (Option.some.inj hValue).symm, ?_⟩
  · intro hNil
    rw [hNil] at hFew
    exact hFew (by decide)
  · intro c hc
    exact mem_usedCloses.mpr ⟨i, List.mem_range.mp hi, not_lt.mp hFew, hc⟩

theorem exists_bounds {closes : List ℚ} (h : closes ≠ []) :
    ∃ lo ∈ closes, ∃ hi ∈ closes, ∀ c ∈ closes, lo ≤ c ∧ c ≤ hi := by
  obtain ⟨first, rest, rfl⟩ := List.exists_cons_of_ne_nil h
  have hLeast := minBy_spec (fun c : ℚ => c) first rest
  have hGreatest := minBy_spec OrderDual.toDual first rest
  exact ⟨_, hLeast.mem, _, hGreatest.mem, fun c hc => ⟨hLeast.le c hc, hGreatest.le c hc⟩⟩

theorem computed_bounds {sources : List Venue} {london : TimeZone} {contract : ContractSymbol}
    {fixDate : Date} {result : BRRReconstruction} {start stop : DateTime}
    (h : BRRReconstructor.Computed sources london contract fixDate result start stop)
    (hIds : (sources.map Venue.sourceId).Nodup) :
    ∃ lo ∈ usedCloses sources contract start stop, ∃ hi ∈ usedCloses sources contract start stop,
      (∀ c ∈ usedCloses sources contract start stop, lo ≤ c ∧ c ≤ hi) ∧
        lo ≤ result.reconstructedValue ∧ result.reconstructedValue ≤ hi := by
  have hPartitions : ∀ value ∈ result.partitionValues.filterMap id, ∃ closes, closes ≠ [] ∧
      value = arithmeticMean closes ∧ ∀ c ∈ closes, c ∈ usedCloses sources contract start stop := by
    rw [h.partitionValues]
    exact fun value => exists_partition_of_value hIds
  have hUsed : usedCloses sources contract start stop ≠ [] := by
    obtain ⟨value, hValue⟩ := List.exists_mem_of_ne_nil _ h.valid
    obtain ⟨closes, hCloses, -, hMem⟩ := hPartitions value hValue
    obtain ⟨c, hc⟩ := List.exists_mem_of_ne_nil _ hCloses
    exact List.ne_nil_of_mem (hMem c hc)
  obtain ⟨lo, hLo, hi, hHi, hBounds⟩ := exists_bounds hUsed
  refine ⟨lo, hLo, hi, hHi, hBounds, ?_⟩
  rw [h.reconstructedValue]
  -- a mean of means stays within the bounds of what is averaged
  apply arithmeticMean_bounds h.valid
  intro value hValue
  obtain ⟨closes, hCloses, rfl, hMem⟩ := hPartitions value hValue
  exact arithmeticMean_bounds hCloses fun c hc => hBounds c (hMem c hc)

theorem reconstructFrom_ok {venues : List Venue} {sha256 : String → HexDigest} {london : TimeZone}
    {contract : ContractSymbol} {fixDate : Date} {result : BRRReconstruction}
    (h : reconstructFrom venues sha256 london contract fixDate = .ok result) :
    ∃ start stop, BRRReconstructor.Computed (sortBy Venue.sourceId venues) london contract fixDate
      result start stop := by
  obtain ⟨reconstructor, hCreate, hReconstruct⟩ := except_bind_ok_iff.mp h
  unfold BRRReconstructor.create at hCreate
  split_ifs at hCreate
  cases hCreate
  exact BRRReconstructor.reconstruct_ok hReconstruct

/-- The reconstruction is a partitioned average over several venues. -/
theorem reconstructFrom_partitioned {london : TimeZone} (hLondon : SteadyAfternoon london)
    {venues : List Venue} (hIds : (venues.map Venue.sourceId).Nodup)
    (hTimes : ∀ venue ∈ venues, venue.DistinctTimestamps) (sha256 : String → HexDigest)
    (contract : ContractSymbol) (fixDate : Date) :
    (∀ venues', Rearranged contract (londonWindowUtc? london fixDate) venues venues' →
      reconstructFrom venues' sha256 london contract fixDate =
        reconstructFrom venues sha256 london contract fixDate) ∧
    (∀ start stop, londonWindowUtc? london fixDate = some (start, stop) →
      ∀ bar, inWindow start stop bar = true →
        ∃! i, i < numPartitions ∧ inPartition start i bar = true) ∧
    ∀ result, reconstructFrom venues sha256 london contract fixDate = .ok result →
      ∃ start stop, londonWindowUtc? london fixDate = some (start, stop) ∧
        ∃ lo ∈ usedCloses venues contract start stop, ∃ hi ∈ usedCloses venues contract start stop,
          (∀ c ∈ usedCloses venues contract start stop, lo ≤ c ∧ c ≤ hi) ∧
            lo ≤ result.reconstructedValue ∧ result.reconstructedValue ≤ hi := by
  refine ⟨?_, ?_, ?_⟩
  · intro venues' hRearranged
    exact reconstructFrom_rearranged hRearranged hIds hTimes sha256
  · intro start stop hWindow bar hBar
    exact existsUnique_inPartition (londonWindowUtc?_hour hLondon hWindow) hBar
  · intro result hResult
    obtain ⟨start, stop, hComputed⟩ := reconstructFrom_ok hResult
    have hSorted := sortBy_perm_self Venue.sourceId venues
    have hBounds := computed_bounds hComputed ((hSorted.map _).nodup_iff.mpr hIds)
    simp only [usedCloses_perm hSorted] at hBounds
    exact ⟨start, stop, hComputed.window, hBounds⟩

/-! ## Two venues in winter -/

theorem noOffset_lt (date : Date) (micros : ℕ) :
    ((fun _ _ => 0 : Date → ℕ → ℤ) date micros).natAbs < dayMicros := by
  simp [dayMicros]

def winter : TimeZone := ⟨fun _ _ => 0, noOffset_lt⟩

theorem afternoon_lt (minute : Fin 90) : windowStart + 60000000 * minute < dayMicros := by
  simp only [windowStart, dayMicros]
  omega

def afternoon (minute : Fin 90) : DateTime :=
  ⟨.dec8, windowStart + 60000000 * minute, afternoon_lt minute, some 0, DateTime.utc_offset_lt⟩

theorem afternoon_aware (minute : Fin 90) : (afternoon minute).isAware := rfl

theorem no_volume : (0 : ℤ) ≤ 0 := le_rfl

def venueBar (sourceId : String) (minute : Fin 90) (price : ℕ) : DecimalBar where
  contract := "BTCUSD"
  ts := afternoon minute
  resolution := .min5
  openPrice := ⟨false, price, 0⟩
  high := ⟨false, price, 0⟩
  low := ⟨false, price, 0⟩
  close := ⟨false, price, 0⟩
  volume := 0
  oi := none
  sourceId := sourceId
  asOfIso := .utcMidnight .dec8
  contentBytesSha := String.ofList (List.replicate sha256HexLength '0')
  ts_aware := afternoon_aware minute
  as_of_aware := DateTime.utcMidnight_aware .dec8
  low_le_high := le_rfl
  volume_nonneg := no_volume
  oi_nonneg := no_open_interest
  sha_length := length_zeros

instance ninety_neZero : NeZero 90 := ⟨by decide⟩

def quotingVenue (sourceId : String) (bars : List DecimalBar) : Venue :=
  ⟨sourceId, fun _ _ _ _ => .ok bars⟩

/-- Closes on the edges of two partitions, and inside of them. -/
def twoVenues : List Venue := [
  quotingVenue "coinbase" [venueBar "coinbase" 5 100, venueBar "coinbase" 10 102],
  quotingVenue "kraken" [venueBar "kraken" 7 104, venueBar "kraken" 12 106]]

def twoVenuesShuffled : List Venue := [
  quotingVenue "kraken" [venueBar "kraken" 12 106, venueBar "kraken" 75 900, venueBar "kraken" 7 104],
  quotingVenue "coinbase" [venueBar "coinbase" 10 102, venueBar "coinbase" 5 100]]

def BRRReconstruction.rates (result : BRRReconstruction) : ℚ × List (Option ℚ) :=
  (result.reconstructedValue, result.partitionValues)

theorem create_map_rates (contract : ContractSymbol) (fixDate : Date) (reconstructedValue : ℚ)
    (partitionValues : List (Option ℚ)) (numPartitionsValid : ℕ) (venueIds : List String)
    (digest digest' : HexDigest) :
    (BRRReconstruction.create contract fixDate reconstructedValue partitionValues
      numPartitionsValid venueIds digest.text).map (·.rates) =
    (BRRReconstruction.create contract fixDate reconstructedValue partitionValues
      numPartitionsValid venueIds digest'.text).map (·.rates) := by
  unfold BRRReconstruction.create
  simp only [digest.length_eq, digest'.length_eq, dite_true]
  split_ifs <;> rfl

/-- The rates are the same whatever the hash function is. -/
theorem reconstructFrom_map_rates (venues : List Venue) (sha256 sha256' : String → HexDigest)
    (london : TimeZone) (contract : ContractSymbol) (fixDate : Date) :
    (reconstructFrom venues sha256 london contract fixDate).map (·.rates) =
      (reconstructFrom venues sha256' london contract fixDate).map (·.rates) := by
  apply except_map_bind_congr
  intro reconstructor
  unfold BRRReconstructor.reconstruct
  by_cases hContract : contract ∉ supportedContracts
  · rw [if_pos hContract, if_pos hContract]
  · rw [if_neg hContract, if_neg hContract]
    cases londonWindowUtc? london fixDate with
    | none => rfl
    | some window =>
      apply except_map_bind_congr
      intro barsPerVenue
      unfold BRRReconstructor.reconstructBars
      dsimp only
      split_ifs
      · rfl
      · exact create_map_rates ..

theorem zeros_hex : ∀ c ∈ (String.ofList (List.replicate sha256HexLength '0')).toList,
    c ∈ "0123456789abcdef".toList := by
  intro c hc
  rw [String.toList_ofList] at hc
  rw [List.eq_of_mem_replicate hc]
  decide

def zeroDigest : HexDigest :=
  ⟨String.ofList (List.replicate sha256HexLength '0'), length_zeros, zeros_hex⟩

theorem winter_steady : SteadyAfternoon winter := fun _ => rfl

theorem quotingVenue_distinctTimestamps {sourceId : String} {bars : List DecimalBar}
    (h : DistinctTimestamps bars) : (quotingVenue sourceId bars).DistinctTimestamps := by
  intro contract start stop bars' hBars
  cases hBars
  exact h

theorem quotingVenue_same {window : Option (DateTime × DateTime)} {bars bars' : List DecimalBar}
    (h : ∀ start stop, window = some (start, stop) →
      (bars.filter (inWindow start stop)).Perm (bars'.filter (inWindow start stop)))
    (contract : ContractSymbol) (sourceId : String) :
    (quotingVenue sourceId bars).Same contract window (quotingVenue sourceId bars') :=
  ⟨rfl, fun start stop hWindow => .bars (h start stop hWindow)⟩

theorem londonWindowUtc?_winter :
    londonWindowUtc? winter .dec8 = some (afternoon 0, afternoon 60) := by decide +kernel

theorem twoVenues_rearranged :
    Rearranged "BTCUSD" (londonWindowUtc? winter .dec8) twoVenues twoVenuesShuffled := by
  refine ⟨twoVenues.reverse, (List.reverse_perm twoVenues).symm, ?_⟩
  rw [londonWindowUtc?_winter]
  refine .cons (quotingVenue_same ?_ "BTCUSD" "kraken")
    (.cons (quotingVenue_same ?_ "BTCUSD" "coinbase") .nil)
  all_goals
    intro start stop hWindow
    obtain ⟨rfl, rfl⟩ := Prod.mk.inj (Option.some.inj hWindow)
    decide +kernel

theorem twoVenues_distinctTimestamps : ∀ venue ∈ twoVenues, venue.DistinctTimestamps := by
  intro venue hVenue
  rcases List.mem_cons.mp hVenue with rfl | hVenue
  · exact quotingVenue_distinctTimestamps (by decide +kernel)
  · rw [List.mem_singleton.mp hVenue]
    exact quotingVenue_distinctTimestamps (by decide +kernel)

theorem exists_reconstruction {venues : List Venue} {london : TimeZone} {contract : ContractSymbol}
    {fixDate : Date} {rates : ℚ × List (Option ℚ)}
    (h : (reconstructFrom venues (fun _ => zeroDigest) london contract fixDate).map (·.rates) =
      .ok rates) (sha256 : String → HexDigest) :
    ∃ result, reconstructFrom venues sha256 london contract fixDate = .ok result ∧
      result.rates = rates := by
  rw [reconstructFrom_map_rates venues _ sha256] at h
  exact except_map_ok h

theorem reconstructFrom_twoVenues :
    ∃ result, reconstructFrom twoVenues sha256Hexdigest winter "BTCUSD" .dec8 = .ok result ∧
      result.rates = (103, [none, some 102, some 104, none, none, none, none, none, none, none,
        none, none]) :=
  exists_reconstruction (by decide +kernel) sha256Hexdigest

/-- The bars of the two venues, on the edges of partitions and inside them. -/
theorem reconstructFrom_partitioned_twoVenues :
    reconstructFrom twoVenuesShuffled sha256Hexdigest winter "BTCUSD" .dec8 =
      reconstructFrom twoVenues sha256Hexdigest winter "BTCUSD" .dec8 ∧
    (∀ bar, inWindow (afternoon 0) (afternoon 60) bar = true →
      ∃! i, i < numPartitions ∧ inPartition (afternoon 0) i bar = true) ∧
    ∃ result, reconstructFrom twoVenues sha256Hexdigest winter "BTCUSD" .dec8 = .ok result ∧
      result.reconstructedValue = 103 := by
  have hFacts := reconstructFrom_partitioned winter_steady
    (show (twoVenues.map Venue.sourceId).Nodup by decide +kernel) twoVenues_distinctTimestamps
    sha256Hexdigest "BTCUSD" .dec8
  obtain ⟨result, hResult, hRates⟩ := reconstructFrom_twoVenues
  exact ⟨hFacts.1 _ twoVenues_rearranged, hFacts.2.1 _ _ londonWindowUtc?_winter, result, hResult,
    congrArg Prod.fst hRates⟩

end Futur3.Data
