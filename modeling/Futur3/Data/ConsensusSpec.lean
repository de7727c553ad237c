import Futur3.Data.VerifierSpec
import Mathlib.Tactic.Linarith

/-! # What a verified record has in common with its responders

Every settle price is within the band of the emitted one. A bar's fields are
only certain to be under the exact bands, and a settle's date only when all
responders quote the same one.
-/

namespace Futur3.Data

open Prelude Prelude.Method Selection MultiSourceVerifier

variable {ω : Type}

/-! ## The tolerance band -/

/-- The other value is within the band of the emitted one; the median is that of
the compared values. -/
def WithinBand (band : ToleranceBand) (emitted other median : ℚ) : Prop :=
  match band with
  | .tight | .normal => other = emitted
  | .wide => |emitted - other| ≤ wideRelativeTolerance * |emitted| ∨
      |emitted - other| ≤ wideRelativeTolerance * |median|

/-- The bar's four prices are within the band of another's, as two of many bars. -/
def PricesWithin (band : ToleranceBand) (bars : List RawBar)
    (openPrice high low close : ℚ) (b : RawBar) : Prop :=
  WithinBand band openPrice b.openPrice (medianOf (bars.map RawBar.openPrice)) ∧
  WithinBand band high b.high (medianOf (bars.map RawBar.high)) ∧
  WithinBand band low b.low (medianOf (bars.map RawBar.low)) ∧
  WithinBand band close b.close (medianOf (bars.map RawBar.close))

/-- Every responder is counted, and its prices are within the band of the verified bar's. -/
def BarSound (band : ToleranceBand) (responding : List (Responder RawBar)) (vb : VerifiedBar) :
    Prop :=
  vb.nSourcesAgreed = responding.length ∧
  ∀ r ∈ responding, PricesWithin band (responding.map Responder.record) vb.openPrice vb.high
    vb.low vb.close r.record

def SettleSound (band : ToleranceBand) (responding : List (Responder Settle))
    (vs : VerifiedSettle) : Prop :=
  vs.nSourcesAgreed = responding.length ∧
  ∀ r ∈ responding, WithinBand band vs.settle r.record.settle
    (medianOf (responding.map fun r => r.record.settle))

/-- Under the wide band, all prices are within the tolerance of those of the bar
whose source id sorts first. -/
def FirstBarCentral (band : ToleranceBand) (bars : List RawBar) : Prop :=
  band = .wide → ∀ first, LeastFirst RawBar.sourceId bars first →
    ∀ b ∈ bars, PricesWithin .wide bars first.openPrice first.high first.low first.close b

theorem barSound_iff {sha256 : String → HexDigest} {resolved : FieldPolicy}
    {contract : ContractSymbol} {barTs : DateTime} {hAware : barTs.isAware}
    {resolution : BarResolution} {prevHash : Option HashText}
    {responding : List (Responder RawBar)} {vb : VerifiedBar}
    (h : BarVerified sha256 resolved contract barTs hAware resolution prevHash responding vb) :
    BarSound resolved.toleranceBand responding vb ↔
      FirstBarCentral resolved.toleranceBand (responding.map Responder.record) := by
  obtain ⟨-, first, rest, consensus, rfl, hConsensus, hAgreed, rfl⟩ := h
  obtain ⟨hLeast, hExact⟩ := bar_consensus_ok hConsensus
  constructor
  · rintro ⟨-, hWithin⟩ hWide central hCentral b hb
    obtain ⟨r, hr, rfl⟩ := List.mem_map.mp hb
    obtain rfl := hCentral.unique hLeast
    have hPrices := hWithin r hr
    rw [hWide] at hPrices
    exact hPrices
  · intro hCentral
    refine ⟨rfl, ?_⟩
    intro r hr
    have hMem : r.record ∈ (first :: rest).map Responder.record := List.mem_map_of_mem hr
    cases hBand : resolved.toleranceBand with
    | wide =>
      exact hCentral hBand consensus.value hLeast r.record hMem
    | tight | normal =>
      exact hExact (by rw [hBand]; exact nofun) hAgreed r.record hMem

theorem settleSound {sha256 : String → HexDigest} {resolved : FieldPolicy}
    {contract : ContractSymbol} {responding : List (Responder Settle)} {vs : VerifiedSettle}
    (h : SettleVerified sha256 resolved contract responding vs) :
    SettleSound resolved.toleranceBand responding vs := by
  obtain ⟨-, first, rest, stamps, rfl, hAgreed, -, rfl⟩ := h
  refine ⟨rfl, ?_⟩
  intro r hr
  have hMem : r.record ∈ (first :: rest).map Responder.record := List.mem_map_of_mem hr
  change WithinBand _ (checkSettleConsensus ((first :: rest).map Responder.record) resolved).value
    _ _
  cases hBand : resolved.toleranceBand with
  | wide =>
    have hNil : (first :: rest).map Responder.record ≠ [] := List.cons_ne_nil _ _
    obtain ⟨hValue, hIff⟩ := settle_agreed_wide hNil hBand
    have hNear := hIff.mp hAgreed r.record hMem
    rw [abs_sub_comm, List.map_map] at hNear
    rw [List.map_map] at hValue
    apply Or.inr
    rw [hValue]
    exact hNear
  | tight | normal =>
    obtain ⟨hValue, hIff⟩ := settle_agreed_exact first.record (rest.map Responder.record)
      (by rw [hBand]; exact nofun)
    exact (hIff.mp hAgreed r.record hMem).trans hValue.symm

/-- Verified settles are always sound; a verified bar is if and only if the wide
band is not in use or the first bar is within it of all the others. -/
theorem tolerance_sound_iff (sha256 : String → HexDigest) (s : VerifierSession ω)
    (contract : ContractSymbol) (time : DateTime) (resolution : BarResolution) :
    (∀ vb s' responding,
      verifyBar sha256 contract time resolution s = .ok (.verified vb) s' →
      barResponders contract time resolution s = some responding →
      (BarSound (s.verifier.policy.resolveForField fieldOhlc).toleranceBand responding vb ↔
        FirstBarCentral (s.verifier.policy.resolveForField fieldOhlc).toleranceBand
          (responding.map Responder.record))) ∧
    (∀ vs s' responding,
      verifySettle sha256 contract time s = .ok (.verified vs) s' →
      settleResponders contract time s = some responding →
      SettleSound (s.verifier.policy.resolveForField fieldSettle).toleranceBand responding vs) := by
  constructor
  · intro vb s' responding hRun hAsk
    obtain ⟨hAware, responding', hAsk', hVerified, -⟩ := verifyBar_verified hRun
    rw [hAsk] at hAsk'
    cases hAsk'
    exact barSound_iff hVerified
  · intro vs s' responding hRun hAsk
    exact settleSound ((verifySettle_verified_iff hAsk).mp ⟨s', hRun⟩)

def twoOfBand (band : ToleranceBand) : FieldPolicy := ⟨"two_sources", .failClosed, 2, band, true⟩

/-- Two sources agree on the settle; of the bar they agree on everything but the open. -/
def twoSources (openPrice : ℚ) : List (DataSource Unit) :=
  [scriptedSource "a" (some (quotedSettle "a" firstDay 70))
      [quotedBar "a" firstDay 100 110 90 100 quoted_range],
    scriptedSource "b" (some (quotedSettle "b" firstDay 70))
      [quotedBar "b" firstDay openPrice 110 90 100 quoted_range]]

def twoBars (openPrice : ℚ) : List (Responder RawBar) :=
  [⟨"a", .t2Exchange, quotedBar "a" firstDay 100 110 90 100 quoted_range⟩,
    ⟨"b", .t2Exchange, quotedBar "b" firstDay openPrice 110 90 100 quoted_range⟩]

def twoSettles : List (Responder Settle) :=
  [⟨"a", .t2Exchange, quotedSettle "a" firstDay 70⟩,
    ⟨"b", .t2Exchange, quotedSettle "b" firstDay 70⟩]

theorem tolerance_sound_iff_twoSources :
    (∃ vb s', verifyBar sha256Hexdigest "CLF26" (.utcMidnight firstDay) .day1
        (scriptedSession (twoSources 100) (twoOfBand .normal) firstDay) =
          .ok (.verified vb) s' ∧ BarSound .normal (twoBars 100) vb) ∧
    ∃ vs s', verifySettle sha256Hexdigest "CLF26" (.utcMidnight firstDay)
        (scriptedSession (twoSources 100) (twoOfBand .normal) firstDay) =
          .ok (.verified vs) s' ∧ SettleSound .normal twoSettles vs := by
  have hSound := tolerance_sound_iff sha256Hexdigest
    (scriptedSession (twoSources 100) (twoOfBand .normal) firstDay) "CLF26"
    (.utcMidnight firstDay) .day1
  constructor
  · have hReturns : returns
        (verifyBar sha256Hexdigest "CLF26" (.utcMidnight firstDay) .day1)
        (scriptedSession (twoSources 100) (twoOfBand .normal) firstDay)
        (fun outcome _ => outcome.record?.any fun _ => true) = true := by
      decide +kernel
    obtain ⟨vb, s', hRun, -⟩ := exists_verified_of_returns hReturns
    have hAsk : barResponders "CLF26" (.utcMidnight firstDay) .day1
        (scriptedSession (twoSources 100) (twoOfBand .normal) firstDay) =
          some (twoBars 100) := by
      decide +kernel
    exact ⟨vb, s', hRun, (hSound.1 vb s' _ hRun hAsk).mpr fun hWide => nomatch hWide⟩
  · have hReturns : returns
        (verifySettle sha256Hexdigest "CLF26" (.utcMidnight firstDay))
        (scriptedSession (twoSources 100) (twoOfBand .normal) firstDay)
        (fun outcome _ => outcome.record?.any fun _ => true) = true := by
      decide +kernel
    obtain ⟨vs, s', hRun, -⟩ := exists_verified_of_returns hReturns
    have hAsk : settleResponders "CLF26" (.utcMidnight firstDay)
        (scriptedSession (twoSources 100) (twoOfBand .normal) firstDay) = some twoSettles := by
      decide +kernel
    exact ⟨vs, s', hRun, hSound.2 vs s' _ hRun hAsk⟩

/-- The wide band compares closes only: an open of half the emitted one is counted
as agreeing. -/
theorem wide_band_ignores_opens :
    ¬∀ (s : VerifierSession Unit) contract time resolution vb s' responding,
      verifyBar sha256Hexdigest contract time resolution s = .ok (.verified vb) s' →
      barResponders contract time resolution s = some responding →
      BarSound (s.verifier.policy.resolveForField fieldOhlc).toleranceBand responding vb := by
  intro hAlways
  have hReturns : returns
      (verifyBar sha256Hexdigest "CLF26" (.utcMidnight firstDay) .day1)
      (scriptedSession (twoSources 50) (twoOfBand .wide) firstDay)
      (fun outcome _ => outcome.record?.any fun vb => decide (vb.openPrice = 100)) = true := by
    decide +kernel
  obtain ⟨vb, s', hRun, hOpen⟩ := exists_verified_of_returns hReturns
  have hAsk : barResponders "CLF26" (.utcMidnight firstDay) .day1
      (scriptedSession (twoSources 50) (twoOfBand .wide) firstDay) = some (twoBars 50) := by
    decide +kernel
  obtain ⟨-, hWithin⟩ := hAlways _ _ _ _ vb s' _ hRun hAsk
  have hOther := (hWithin _ (List.mem_cons_of_mem _ List.mem_cons_self)).1
  rw [of_decide_eq_true hOpen] at hOther
  have hNear : |(100 : ℚ) - 50| ≤ wideRelativeTolerance * |100| ∨
      |(100 : ℚ) - 50| ≤ wideRelativeTolerance * |medianOf [100, 50]| := hOther
  exact absurd hNear (by decide +kernel)

end Futur3.Data
