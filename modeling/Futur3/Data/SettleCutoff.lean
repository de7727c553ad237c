import Futur3.Data.IbkrSettle

/-! # Whether the latest settle is of the time asked for

The last of all the returned bars is chosen, so the choice respects the time
exactly when no bar is after it: a plain date of the running day already is,
until its noon.
-/

namespace Futur3.Data

open Prelude Selection Storage

namespace IBKRHistoricalDataSource

section Choice

variable {ν : Type}

def AtOrBefore (numbers : Numbers ν) (asOf : DateTime) (ibBar : IBBar ν) : Prop :=
  ∃ ts, coerceTsToUtc numbers ibBar.date = .ok ts ∧ ts.instant ≤ asOf.instant

/-- What the latest bar with a timestamp at or before a time is, with the bar before it; none,
when there is no such bar. -/
structure PointInTime (numbers : Numbers ν) (asOf : DateTime) (ibBars : List (IBBar ν))
    (chosen : Option (IBBar ν × Option (IBBar ν))) : Prop where
  latest : ∀ ibBar prior, chosen = some (ibBar, prior) → ibBar ∈ ibBars ∧
    ∃ ts, coerceTsToUtc numbers ibBar.date = .ok ts ∧ ts.instant ≤ asOf.instant ∧
      ∀ other ∈ ibBars, ∀ ts', coerceTsToUtc numbers other.date = .ok ts' →
        ts'.instant ≤ asOf.instant → ts'.instant ≤ ts.instant
  absent : (∀ ibBar ∈ ibBars, ¬AtOrBefore numbers asOf ibBar) → chosen = none

theorem keyedBars_ok {numbers : Numbers ν} {ibBars : List (IBBar ν)}
    {keyed : List (DateTime × IBBar ν)} (h : keyedBars numbers ibBars = .ok keyed) :
    keyed.map Prod.snd = ibBars ∧
      ∀ bar ∈ keyed, coerceTsToUtc numbers bar.2.date = .ok bar.1 := by
  unfold keyedBars at h
  rw [except_mapM_ok_iff] at h
  induction ibBars generalizing keyed with
  | nil =>
    cases keyed with
    | nil => exact ⟨rfl, List.forall_mem_nil _⟩
    | cons bar rest => cases h
  | cons ibBar ibBars ih =>
    cases keyed with
    | nil => cases h
    | cons bar rest =>
      obtain ⟨hBar, hRest⟩ := List.cons.inj h
      obtain ⟨ts, hTs, hKeyed⟩ := except_bind_ok_iff.mp hBar
      obtain rfl := except_pure_ok_iff.mp hKeyed
      obtain ⟨hMap, hAll⟩ := ih hRest
      exact ⟨by rw [List.map_cons, hMap], List.forall_mem_cons.mpr ⟨hTs, hAll⟩⟩

theorem latestAndPrior_ok {numbers : Numbers ν} {ibBars : List (IBBar ν)}
    {chosen : Option (IBBar ν × Option (IBBar ν))}
    (h : latestAndPrior numbers ibBars = .ok chosen) :
    (ibBars = [] ∧ chosen = none) ∨
    ∃ latest prior ts, chosen = some (latest, prior) ∧ latest ∈ ibBars ∧
      coerceTsToUtc numbers latest.date = .ok ts ∧
      ∀ other ∈ ibBars, ∃ ts', coerceTsToUtc numbers other.date = .ok ts' ∧
        ts'.instant ≤ ts.instant := by
  obtain ⟨keyed, hKeyed, h⟩ := except_bind_ok_iff.mp h
  obtain ⟨hMap, hCoerced⟩ := keyedBars_ok hKeyed
  have hSorted := List.pairwise_reverse.mpr (pairwise_sortBy (fun bar => bar.1.instant) keyed)
  split at h
  · rename_i hNil
    left
    have hEmpty : keyed = [] := sortBy_eq_nil_iff.mp (List.reverse_eq_nil_iff.mp hNil)
    rw [← hMap, hEmpty]
    exact ⟨rfl, (except_pure_ok_iff.mp h).symm⟩
  · rename_i latest before hCons
    right
    have hMem : ∀ bar, bar ∈ keyed ↔ bar ∈ latest :: before := by
      intro bar
      rw [← hCons, List.mem_reverse, mem_sortBy]
    rw [hCons] at hSorted
    refine ⟨latest.2, before.head?.map Prod.snd, latest.1, (except_pure_ok_iff.mp h).symm, ?_, ?_, ?_⟩
    · rw [← hMap]
      exact List.mem_map_of_mem ((hMem latest).mpr List.mem_cons_self)
    · exact hCoerced latest ((hMem latest).mpr List.mem_cons_self)
    · intro other hOther
      rw [← hMap] at hOther
      obtain ⟨bar, hBar, rfl⟩ := List.mem_map.mp hOther
      refine ⟨bar.1, hCoerced bar hBar, ?_⟩
      rcases List.mem_cons.mp ((hMem bar).mp hBar) with rfl | hBefore
      · exact le_rfl
      · exact List.rel_of_pairwise_cons hSorted hBefore

/-- The choice is of the time asked for exactly when every bar is. -/
theorem pointInTime_iff {numbers : Numbers ν} {asOf : DateTime} {ibBars : List (IBBar ν)}
    {chosen : Option (IBBar ν × Option (IBBar ν))}
    (h : latestAndPrior numbers ibBars = .ok chosen) :
    PointInTime numbers asOf ibBars chosen ↔ ∀ ibBar ∈ ibBars, AtOrBefore numbers asOf ibBar := by
  rcases latestAndPrior_ok h with ⟨rfl, rfl⟩ | ⟨latest, prior, ts, rfl, hMem, hTs, hLast⟩
  · exact iff_of_true ⟨fun _ _ hSome => absurd hSome (Option.some_ne_none _).symm, fun _ => rfl⟩
      (List.forall_mem_nil _)
  · constructor
    · intro hPoint ibBar hBar
      obtain ⟨-, ts', hTs', hCutoff, -⟩ := hPoint.latest latest prior rfl
      obtain rfl := Except.ok.inj (hTs.symm.trans hTs')
      obtain ⟨tsBar, hTsBar, hLe⟩ := hLast ibBar hBar
      exact ⟨tsBar, hTsBar, hLe.trans hCutoff⟩
    · intro hAll
      refine ⟨?_, fun hNone => absurd (hAll latest hMem) (hNone latest hMem)⟩
      intro ibBar prior' hSome
      cases hSome
      obtain ⟨ts', hTs', hCutoff⟩ := hAll latest hMem
      obtain rfl := Except.ok.inj (hTs.symm.trans hTs')
      refine ⟨hMem, ts, hTs, hCutoff, ?_⟩
      intro other hOther tsOther hTsOther _
      obtain ⟨tsOther', hTsOther', hLe⟩ := hLast other hOther
      rwa [Except.ok.inj (hTsOther.symm.trans hTsOther')]

/-! ## The settle of the chosen bar -/

def SettledFrom (numbers : Numbers ν) (sha256 : String → HexDigest) (central : SessionClock)
    (now : DateTime) (contract : ContractSymbol) (asOfUtc : DateTime)
    (chosen : Option (IBBar ν × Option (IBBar ν))) (result : Option DecimalSettle) : Prop :=
  match chosen with
  | none => result = none
  | some (latest, prior) => ∃ settle, result = some settle ∧
      ibBarToSettle numbers sha256 central now latest prior contract asOfUtc = .ok settle

theorem latestSettle_ok {client : IBClient ν} {numbers : Numbers ν} {sha256 : String → HexDigest}
    {central : SessionClock} {useRth : Bool} {now : DateTime} {contract : ContractSymbol}
    {asOf : DateTime} {result : Option DecimalSettle}
    (h : latestSettle client numbers sha256 central useRth now contract asOf = .ok result) :
    ∃ asOfUtc req ibBars chosen, asOf.toUtc? = some asOfUtc ∧
      settleRequest useRth contract asOfUtc = .ok req ∧
      client.reqHistoricalData req = .ok ibBars ∧ latestAndPrior numbers ibBars = .ok chosen ∧
      SettledFrom numbers sha256 central now contract asOfUtc chosen result := by
  obtain ⟨-, h⟩ := except_raise_guard_ok_iff.mp h
  obtain ⟨asOfUtc, hUtc, h⟩ := except_bind_ok_iff.mp h
  obtain ⟨req, hReq, h⟩ := except_bind_ok_iff.mp h
  obtain ⟨-, -, h⟩ := except_bind_ok_iff.mp h
  obtain ⟨ibBars, hRows, h⟩ := except_bind_ok_iff.mp h
  obtain ⟨chosen, hChosen, h⟩ := except_bind_ok_iff.mp h
  refine ⟨asOfUtc, req, ibBars, chosen, toUtc_ok hUtc, hReq, request_ok hRows, hChosen, ?_⟩
  rcases chosen with - | ⟨latest, prior⟩
  · exact (except_pure_ok_iff.mp h).symm
  · obtain ⟨settle, hSettle, h⟩ := except_bind_ok_iff.mp h
    exact ⟨settle, (except_pure_ok_iff.mp h).symm, hSettle⟩

/-- A settle is of the chosen bar, and the choice is the latest at or before the time exactly
when every returned bar is at or before it. -/
theorem latestSettle_pointInTime_iff {client : IBClient ν} {numbers : Numbers ν}
    {sha256 : String → HexDigest} {central : SessionClock} {useRth : Bool} {now : DateTime}
    {contract : ContractSymbol} {asOf : DateTime} {result : Option DecimalSettle}
    (h : latestSettle client numbers sha256 central useRth now contract asOf = .ok result) :
    ∃ asOfUtc req ibBars chosen, asOf.toUtc? = some asOfUtc ∧
      settleRequest useRth contract asOfUtc = .ok req ∧
      client.reqHistoricalData req = .ok ibBars ∧ latestAndPrior numbers ibBars = .ok chosen ∧
      SettledFrom numbers sha256 central now contract asOfUtc chosen result ∧
      (PointInTime numbers asOf ibBars chosen ↔
        ∀ ibBar ∈ ibBars, AtOrBefore numbers asOf ibBar) := by
  obtain ⟨asOfUtc, req, ibBars, chosen, hUtc, hReq, hRows, hChosen, hSettled⟩ := latestSettle_ok h
  exact ⟨asOfUtc, req, ibBars, chosen, hUtc, hReq, hRows, hChosen, hSettled, pointInTime_iff hChosen⟩

end Choice

/-! ## Two daily bars -/

theorem winterCentral_lt : ∀ o ∈ some (-21600000000 : ℤ), o.natAbs < dayMicros := by
  simp [dayMicros]

/-- Chicago's clock in winter, for times from six in the morning of UTC on. -/
def winterCentral : SessionClock := fun t =>
  if 21600000000 ≤ t.micros then
    some ⟨t.date, t.micros - 21600000000, (Nat.sub_le _ _).trans_lt t.micros_lt,
      some (-21600000000), winterCentral_lt⟩
  else none

def dailyBar (day : Date) (close : ℕ) : IBBar ℕ := ⟨.date day, 100, 102, 98, close, some 7⟩

def dailyIB (days : List (Date × ℕ)) : IBClient ℕ :=
  ⟨true, .ok (), fun _ => .ok (days.map fun day => dailyBar day.1 day.2)⟩

def latestOf (days : List (Date × ℕ)) (asOf : DateTime) :
    Except SourceError (Option DecimalSettle) :=
  latestSettle (dailyIB days) wholeNumbers (fun _ => zeroDigest) winterCentral false (afternoon 80)
    "ESZ25" asOf

def tenthThenEleventh : List (Date × ℕ) := [(.dec11, 101), (.dec10, 99)]

/-- At midnight of the twelfth, the bar of the eleventh is the latest, whatever the order. -/
theorem latestSettle_pointInTime_iff_midnight :
    ∃ settle chosen, latestOf tenthThenEleventh (.utcMidnight .dec12) = .ok (some settle) ∧
      settle.asOfDate = .dec11 ∧
      PointInTime wholeNumbers (.utcMidnight .dec12)
        (tenthThenEleventh.map fun day => dailyBar day.1 day.2) chosen := by
  have hDate : (latestOf tenthThenEleventh (.utcMidnight .dec12)).map
      (Option.map DecimalSettle.asOfDate) = .ok (some .dec11) := by
    decide +kernel
  obtain ⟨result, hResult, hSome⟩ := except_map_ok hDate
  obtain ⟨settle, rfl, hSettle⟩ := Option.map_eq_some_iff.mp hSome
  obtain ⟨asOfUtc, req, ibBars, chosen, -, -, hRows, -, -, hIff⟩ :=
    latestSettle_pointInTime_iff hResult
  cases hRows
  refine ⟨settle, chosen, hResult, hSettle, hIff.mpr ?_⟩
  simp only [tenthThenEleventh, List.map_cons, List.map_nil, List.forall_mem_cons]
  refine ⟨⟨_, rfl, by decide +kernel⟩, ⟨_, rfl, by decide +kernel⟩, ?_⟩
  simp

/-- At midnight of the eleventh its own bar, whose noon is to come, is taken before that of the
tenth, and also when it is the only bar. -/
theorem latestSettle_ahead :
    (∃ settle chosen, latestOf tenthThenEleventh (.utcMidnight .dec11) = .ok (some settle) ∧
      settle.asOfDate = .dec11 ∧
      latestAndPrior wholeNumbers (tenthThenEleventh.map fun day => dailyBar day.1 day.2) =
        .ok chosen ∧
      ¬PointInTime wholeNumbers (.utcMidnight .dec11)
        (tenthThenEleventh.map fun day => dailyBar day.1 day.2) chosen) ∧
    ∃ settle, latestOf [(.dec11, 101)] (.utcMidnight .dec11) = .ok (some settle) ∧
      ¬AtOrBefore wholeNumbers (.utcMidnight .dec11) (dailyBar .dec11 101) := by
  have hAhead : ¬AtOrBefore wholeNumbers (.utcMidnight .dec11) (dailyBar .dec11 101) := by
    rintro ⟨ts, hTs, hLe⟩
    cases hTs
    revert hLe
    decide +kernel
  constructor
  · have hDate : (latestOf tenthThenEleventh (.utcMidnight .dec11)).map
        (Option.map DecimalSettle.asOfDate) = .ok (some .dec11) := by
      decide +kernel
    obtain ⟨result, hResult, hSome⟩ := except_map_ok hDate
    obtain ⟨settle, rfl, hSettle⟩ := Option.map_eq_some_iff.mp hSome
    obtain ⟨asOfUtc, req, ibBars, chosen, -, -, hRows, hChosen, -⟩ := latestSettle_ok hResult
    cases hRows
    refine ⟨settle, chosen, hResult, hSettle, hChosen, ?_⟩
    rw [pointInTime_iff hChosen]
    exact fun hAll => hAhead (hAll _ List.mem_cons_self)
  · have hSome : (latestOf [(.dec11, 101)] (.utcMidnight .dec11)).map Option.isSome = .ok true := by
      decide +kernel
    obtain ⟨result, hResult, hIsSome⟩ := except_map_ok hSome
    obtain ⟨settle, rfl⟩ := Option.isSome_iff_exists.mp hIsSome
    exact ⟨settle, hResult, hAhead⟩

end IBKRHistoricalDataSource

end Futur3.Data
