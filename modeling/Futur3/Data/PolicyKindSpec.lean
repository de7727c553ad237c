import Futur3.Data.VerifierSpec
import Mathlib.Tactic.NormNum
import Mathlib.Tactic.Push

/-! # What the policy kind promises

Fail-closed wants unanimity, a majority vote wants a most common price with a
quorum behind it, and the highest tier is to be believed against all others.
The verifier compares prices the same way under every kind.
-/

namespace Futur3.Data

open Prelude Prelude.Method MultiSourceVerifier

variable {ω : Type}

def prices (responding : List (Responder Settle)) : List ℚ :=
  responding.map fun r => r.record.settle

def IsMajority (minQuorum : ℤ) (values : List ℚ) (v : ℚ) : Prop :=
  minQuorum ≤ values.count v ∧ ∀ w, w ≠ v → values.count w < values.count v

def EmitsSettle (sha256 : String → HexDigest) (contract : ContractSymbol) (asOf : DateTime)
    (s : VerifierSession ω) (v : ℚ) : Prop :=
  ∃ vs s', verifySettle sha256 contract asOf s = .ok (.verified vs) s' ∧ vs.settle = v

def HonoursKind (resolved : FieldPolicy) (responding : List (Responder Settle))
    (emits : ℚ → Prop) : Prop :=
  match resolved.kind with
  | .failClosed => (∃ v, emits v) ↔ ∀ v ∈ prices responding, ∀ w ∈ prices responding, v = w
  | .majorityVote => ∀ v, emits v ↔ IsMajority resolved.minQuorum (prices responding) v
  | .highestTier =>
    ∃ r ∈ responding, (∀ r' ∈ responding, r.tier.value ≤ r'.tier.value) ∧ emits r.record.settle

/-- There are responders, all with the same price and a retrieval time. -/
def Unanimous (responding : List (Responder Settle)) : Prop :=
  (∃ v, v ∈ prices responding ∧ ∀ w ∈ prices responding, w = v) ∧
    ∀ r ∈ responding, r.record.asOfIso.isSome

/-- The promise of the policy kind is that no settle is verified. -/
def NothingToEmit (resolved : FieldPolicy) (responding : List (Responder Settle)) : Prop :=
  match resolved.kind with
  | .failClosed => ∃ v ∈ prices responding, ∃ w ∈ prices responding, v ≠ w
  | .majorityVote => ∀ v, ¬IsMajority resolved.minQuorum (prices responding) v
  | .highestTier => False

theorem IsMajority.mem {minQuorum : ℤ} {values : List ℚ} {v : ℚ} (hValues : values ≠ [])
    (h : IsMajority minQuorum values v) : v ∈ values := by
  by_contra hAbsent
  obtain ⟨w, rest, rfl⟩ := List.exists_cons_of_ne_nil hValues
  have hNe : w ≠ v := by
    rintro rfl
    exact hAbsent List.mem_cons_self
  have hLess := h.2 w hNe
  rw [List.count_eq_zero_of_not_mem hAbsent] at hLess
  omega

/-- A price that all report is the only possible majority. -/
theorem isMajority_iff_of_const {minQuorum : ℤ} {values : List ℚ} {v w : ℚ}
    (hQuorum : minQuorum ≤ values.length) (hv : v ∈ values) (hConst : ∀ x ∈ values, x = v) :
    IsMajority minQuorum values w ↔ w = v := by
  constructor
  · intro h
    exact hConst w (h.mem (List.ne_nil_of_mem hv))
  · rintro rfl
    have hCount : values.count w = values.length :=
      List.count_eq_length.mpr fun x hx => (hConst x hx).symm
    refine ⟨by rw [hCount]; exact hQuorum, ?_⟩
    intro x hx
    have hZero : values.count x = 0 :=
      List.count_eq_zero_of_not_mem fun hMem => hx (hConst x hMem)
    rw [hZero]
    exact List.count_pos_iff.mpr hv

theorem exists_stamps_iff_asOfIso (responding : List (Responder Settle)) :
    (∃ stamps, responding.mapM settleStamp = .ok stamps) ↔
      ∀ r ∈ responding, r.record.asOfIso.isSome := by
  simp only [exists_stamps_iff, stamp?, Option.isSome_map]

theorem exists_least_tier {responding : List (Responder Settle)} {r₀ : Responder Settle}
    (h : r₀ ∈ responding) :
    ∃ r ∈ responding, ∀ r' ∈ responding, r.tier.value ≤ r'.tier.value := by
  cases responding with
  | nil => cases h
  | cons first rest =>
    have hLeast := Selection.minBy_spec (fun r : Responder Settle => r.tier.value) first rest
    exact ⟨_, hLeast.mem, hLeast.le⟩

theorem emitsSettle_iff_verified (sha256 : String → HexDigest) {contract : ContractSymbol}
    {asOf : DateTime} {s : VerifierSession ω} {responding : List (Responder Settle)}
    (hAsk : settleResponders contract asOf s = some responding) (v : ℚ) :
    EmitsSettle sha256 contract asOf s v ↔ ∃ vs,
      SettleVerified sha256 (s.verifier.policy.resolveForField fieldSettle) contract responding
        vs ∧ vs.settle = v := by
  constructor
  · rintro ⟨vs, s', hRun, hSettle⟩
    exact ⟨vs, (verifySettle_verified_iff hAsk).mp ⟨s', hRun⟩, hSettle⟩
  · rintro ⟨vs, hVerified, hSettle⟩
    obtain ⟨s', hRun⟩ := (verifySettle_verified_iff hAsk).mpr hVerified
    exact ⟨vs, s', hRun, hSettle⟩

/-- Under an exact band a price is emitted if and only if it is unanimous. -/
theorem emitsSettle_iff (sha256 : String → HexDigest) {contract : ContractSymbol}
    {asOf : DateTime} {s : VerifierSession ω} {responding : List (Responder Settle)}
    (hAsk : settleResponders contract asOf s = some responding)
    (hQuorum : (s.verifier.policy.resolveForField fieldSettle).minQuorum ≤ responding.length)
    (hBand : (s.verifier.policy.resolveForField fieldSettle).toleranceBand ≠ .wide) (v : ℚ) :
    EmitsSettle sha256 contract asOf s v ↔
      Unanimous responding ∧ v ∈ prices responding := by
  rw [emitsSettle_iff_verified sha256 hAsk]
  constructor
  · rintro ⟨vs, ⟨-, first, rest, stamps, rfl, hAgreed, hStamps, rfl⟩, rfl⟩
    obtain ⟨hValue, hSame⟩ := settle_agreed_exact first.record (rest.map Responder.record) hBand
    have hPrices : ∀ w ∈ prices (first :: rest), w = first.record.settle := by
      intro w hw
      obtain ⟨r, hr, rfl⟩ := List.mem_map.mp hw
      exact hSame.mp hAgreed r.record (List.mem_map_of_mem hr)
    have hFirst : first.record.settle ∈ prices (first :: rest) := List.mem_cons_self
    refine ⟨⟨⟨_, hFirst, hPrices⟩, (exists_stamps_iff_asOfIso _).mp ⟨stamps, hStamps⟩⟩, ?_⟩
    change (checkSettleConsensus (first.record :: rest.map Responder.record) _).value ∈ _
    rw [hValue]
    exact hFirst
  · rintro ⟨⟨⟨w, -, hPrices⟩, hStamped⟩, hv⟩
    obtain ⟨stamps, hStamps⟩ := (exists_stamps_iff_asOfIso _).mpr hStamped
    cases responding with
    | nil => cases hv
    | cons first rest =>
      obtain ⟨hValue, hSame⟩ := settle_agreed_exact first.record (rest.map Responder.record) hBand
      have hEqual : ∀ r ∈ first :: rest, r.record.settle = w := by
        intro r hr
        exact hPrices _ (List.mem_map_of_mem hr)
      have hAgreed : (checkSettleConsensus ((first :: rest).map Responder.record)
          (s.verifier.policy.resolveForField fieldSettle)).agreed = true := by
        apply hSame.mpr
        intro settle hSettle
        rw [← List.map_cons] at hSettle
        obtain ⟨r, hr, rfl⟩ := List.mem_map.mp hSettle
        rw [hEqual r hr, hEqual first List.mem_cons_self]
      refine ⟨_, ⟨hQuorum, first, rest, stamps, rfl, hAgreed, hStamps, rfl⟩, ?_⟩
      change (checkSettleConsensus (first.record :: rest.map Responder.record) _).value = v
      rw [hValue, hEqual first List.mem_cons_self, hPrices v hv]

section Kinds

variable {responding : List (Responder Settle)}

theorem failClosed_honoured_iff :
    ((∃ v, Unanimous responding ∧ v ∈ prices responding) ↔
        ∀ v ∈ prices responding, ∀ w ∈ prices responding, v = w) ↔
      Unanimous responding ∨ ∃ v ∈ prices responding, ∃ w ∈ prices responding, v ≠ w := by
  constructor
  · intro hHonours
    by_cases hEqual : ∀ v ∈ prices responding, ∀ w ∈ prices responding, v = w
    · obtain ⟨v, hUnanimous, -⟩ := hHonours.mpr hEqual
      exact Or.inl hUnanimous
    · push Not at hEqual
      exact Or.inr hEqual
  · rintro (hUnanimous | ⟨v, hv, w, hw, hNe⟩)
    · obtain ⟨⟨v, hv, hConst⟩, -⟩ := id hUnanimous
      constructor
      · intro _ x hx y hy
        rw [hConst x hx, hConst y hy]
      · intro _
        exact ⟨v, hUnanimous, hv⟩
    · constructor
      · rintro ⟨x, ⟨⟨y, -, hConst⟩, -⟩, -⟩
        exact absurd ((hConst v hv).trans (hConst w hw).symm) hNe
      · intro hEqual
        exact absurd (hEqual v hv w hw) hNe

theorem majorityVote_honoured_iff {minQuorum : ℤ} (hQuorum : minQuorum ≤ responding.length) :
    (∀ v, Unanimous responding ∧ v ∈ prices responding ↔
        IsMajority minQuorum (prices responding) v) ↔
      Unanimous responding ∨ ∀ v, ¬IsMajority minQuorum (prices responding) v := by
  have hLength : minQuorum ≤ (prices responding).length := by
    rw [prices, List.length_map]
    exact hQuorum
  constructor
  · intro hHonours
    by_cases hMajority : ∃ v, IsMajority minQuorum (prices responding) v
    · obtain ⟨v, hv⟩ := hMajority
      exact Or.inl ((hHonours v).mpr hv).1
    · push Not at hMajority
      exact Or.inr hMajority
  · rintro (hUnanimous | hNone) v
    · obtain ⟨⟨w, hw, hConst⟩, -⟩ := id hUnanimous
      rw [isMajority_iff_of_const hLength hw hConst]
      constructor
      · rintro ⟨-, hv⟩
        exact hConst v hv
      · rintro rfl
        exact ⟨hUnanimous, hw⟩
    · constructor
      · rintro ⟨⟨⟨w, hw, hConst⟩, -⟩, hv⟩
        exact absurd ((isMajority_iff_of_const hLength hw hConst).mpr rfl) (hNone w)
      · intro hMajority
        exact absurd hMajority (hNone v)

theorem highestTier_honoured_iff :
    (∃ r ∈ responding, (∀ r' ∈ responding, r.tier.value ≤ r'.tier.value) ∧
        Unanimous responding ∧ r.record.settle ∈ prices responding) ↔ Unanimous responding := by
  constructor
  · rintro ⟨r, -, -, hUnanimous, -⟩
    exact hUnanimous
  · intro hUnanimous
    obtain ⟨⟨v, hv, -⟩, -⟩ := id hUnanimous
    obtain ⟨r₀, hr₀, -⟩ := List.mem_map.mp hv
    obtain ⟨r, hr, hLeast⟩ := exists_least_tier hr₀
    exact ⟨r, hr, hLeast, hUnanimous, List.mem_map_of_mem hr⟩

end Kinds

/-- The exact condition: the responders are unanimous, or the policy kind itself
promises no verified settle. -/
theorem kind_honoured_iff {sha256 : String → HexDigest} {contract : ContractSymbol}
    {asOf : DateTime} {s : VerifierSession ω} {responding : List (Responder Settle)}
    (hAsk : settleResponders contract asOf s = some responding)
    (hQuorum : (s.verifier.policy.resolveForField fieldSettle).minQuorum ≤ responding.length)
    (hBand : (s.verifier.policy.resolveForField fieldSettle).toleranceBand ≠ .wide) :
    HonoursKind (s.verifier.policy.resolveForField fieldSettle) responding
        (EmitsSettle sha256 contract asOf s) ↔
      Unanimous responding ∨
        NothingToEmit (s.verifier.policy.resolveForField fieldSettle) responding := by
  have hEmits := emitsSettle_iff sha256 hAsk hQuorum hBand
  generalize s.verifier.policy.resolveForField fieldSettle = resolved at *
  unfold HonoursKind NothingToEmit
  cases hKind : resolved.kind with
  | failClosed =>
    simp only [hEmits]
    exact failClosed_honoured_iff
  | majorityVote =>
    simp only [hEmits]
    exact majorityVote_honoured_iff hQuorum
  | highestTier =>
    simp only [hEmits, or_false]
    exact highestTier_honoured_iff

/-! ## Three sources -/

def threeQuotes (a b c : ℚ) : List (DataSource Unit) :=
  [scriptedSource "a" (some (quotedSettle "a" firstDay a)) [],
    scriptedSource "b" (some (quotedSettle "b" firstDay b)) [],
    scriptedSource "c" (some (quotedSettle "c" firstDay c)) []]

def majorityOfTwo : FieldPolicy := ⟨"majority_of_two", .majorityVote, 2, .normal, true⟩

def threeResponders (a b c : ℚ) : List (Responder Settle) :=
  [⟨"a", .t2Exchange, quotedSettle "a" firstDay a⟩,
    ⟨"b", .t2Exchange, quotedSettle "b" firstDay b⟩,
    ⟨"c", .t2Exchange, quotedSettle "c" firstDay c⟩]

theorem kind_honoured_iff_threeQuotes :
    HonoursKind majorityOfTwo (threeResponders 70 70 70)
      (EmitsSettle sha256Hexdigest "CLF26" (.utcMidnight firstDay)
        (scriptedSession (threeQuotes 70 70 70) majorityOfTwo firstDay)) := by
  have hAsk : settleResponders "CLF26" (.utcMidnight firstDay)
      (scriptedSession (threeQuotes 70 70 70) majorityOfTwo firstDay) =
        some (threeResponders 70 70 70) := by
    decide +kernel
  refine (kind_honoured_iff hAsk ?_ ?_).mpr (Or.inl ?_)
  · decide
  · decide
  · refine ⟨⟨70, ?_, ?_⟩, ?_⟩
    · simp [prices, threeResponders, quotedSettle]
    · simp [prices, threeResponders, quotedSettle]
    · simp [threeResponders, quotedSettle]

/-- Two sources agree and outvote the third, yet no settle is verified. -/
theorem majority_blocked_by_outlier :
    ¬∀ (s : VerifierSession Unit) contract asOf responding,
      settleResponders contract asOf s = some responding →
      (s.verifier.policy.resolveForField fieldSettle).minQuorum ≤ responding.length →
      (s.verifier.policy.resolveForField fieldSettle).toleranceBand ≠ .wide →
      HonoursKind (s.verifier.policy.resolveForField fieldSettle) responding
        (EmitsSettle sha256Hexdigest contract asOf s) := by
  intro hAlways
  have hAsk : settleResponders "CLF26" (.utcMidnight firstDay)
      (scriptedSession (threeQuotes 70 70 71) majorityOfTwo firstDay) =
        some (threeResponders 70 70 71) := by
    decide +kernel
  have hHonours := hAlways _ _ _ _ hAsk (by decide) (by decide)
  have hMajority : IsMajority 2 [70, 70, 71] 70 := by
    refine ⟨by decide, ?_⟩
    intro w hw
    have hNe : ¬(70 : ℚ) = w := fun e => hw e.symm
    simp only [List.count_cons, List.count_nil, beq_iff_eq, hNe, if_false]
    split <;> decide
  have hEmits := emitsSettle_iff sha256Hexdigest hAsk (by decide) (by decide) 70
  obtain ⟨⟨⟨v, hv, hConst⟩, -⟩, -⟩ := hEmits.mp ((hHonours 70).mpr hMajority)
  have hFirst := hConst 70 (by simp [prices, threeResponders, quotedSettle])
  have hLast := hConst 71 (by simp [prices, threeResponders, quotedSettle])
  exact absurd (hFirst.trans hLast.symm) (by norm_num)

end Futur3.Data
