import Futur3.Data.VerifierSpec
import Futur3.Prelude.HashChain

/-! # The chain of verified bars

Over any sequence of calls the verified bars of one contract and resolution
form a hash chain: only a verified bar moves it on, and the verifier remembers
its tip. The order in which the sources are handed over does not matter.
-/

namespace Futur3.Data

open Prelude Prelude.Method Selection HashChain MultiSourceVerifier

variable {ω : Type}

inductive VerifierCall where
  | settle (contract : ContractSymbol) (asOf : DateTime)
  | bar (contract : ContractSymbol) (barTs : DateTime) (resolution : BarResolution)
deriving DecidableEq

inductive CallResult where
  | settle (result : Except VerifierError (Outcome VerifiedSettle))
  | bar (result : Except VerifierError (Outcome VerifiedBar))

/-- Make a call; the session goes on whether it returns or raises. -/
def performCall (sha256 : String → HexDigest) :
    VerifierCall → Method Empty (VerifierSession ω) CallResult
  | .settle contract asOf => do
    return .settle (← (verifySettle sha256 contract asOf).attempt)
  | .bar contract barTs resolution => do
    return .bar (← (verifyBar sha256 contract barTs resolution).attempt)

def CallResult.barOf? (key : ContractSymbol × BarResolution) : CallResult → Option VerifiedBar
  | bar (.ok (.verified vb)) => if (vb.contract, vb.resolution) = key then some vb else none
  | _ => none

def barsOf (key : ContractSymbol × BarResolution) (results : List CallResult) : List VerifiedBar :=
  results.filterMap (CallResult.barOf? key)

theorem barsOf_concat (key : ContractSymbol × BarResolution) (results : List CallResult)
    (result : CallResult) :
    barsOf key (results ++ [result]) = barsOf key results ++ (result.barOf? key).toList := by
  unfold barsOf
  rw [List.filterMap_append]
  cases h : result.barOf? key <;> simp [h]

/-- The emitted bars are chained, and the verifier remembers the tip of every chain. -/
def TipsRemembered (results : List CallResult) (s : VerifierSession ω) : Prop :=
  ∀ key, Chained VerifiedBar.prevBarHash VerifiedBar.verifierRunHash (barsOf key results) ∧
    (s.verifier.prevBarHash.get? key).map Subtype.val =
      tip VerifiedBar.verifierRunHash (barsOf key results)

theorem TipsRemembered.unchanged {results : List CallResult} {s s' : VerifierSession ω}
    (h : TipsRemembered results s) (hVerifier : s'.verifier = s.verifier) {result : CallResult}
    (hNoBar : ∀ key, result.barOf? key = none) : TipsRemembered (results ++ [result]) s' := by
  intro key
  rw [barsOf_concat, hNoBar, hVerifier, Option.toList_none, List.append_nil]
  exact h key

theorem TipsRemembered.chain {results : List CallResult} {s s' : VerifierSession ω}
    (h : TipsRemembered results s) {vb : VerifiedBar}
    (hPrev : vb.prevBarHash =
      (s.verifier.prevBarHash.get? (vb.contract, vb.resolution)).map Subtype.val)
    (hVerifier : s'.verifier = s.chain (vb.contract, vb.resolution) vb) :
    TipsRemembered (results ++ [.bar (.ok (.verified vb))]) s' := by
  intro key
  obtain ⟨hChained, hTip⟩ := h key
  rw [barsOf_concat, hVerifier, VerifierSession.chain, Dict.get?_set]
  by_cases hKey : (vb.contract, vb.resolution) = key
  · have hBar : (CallResult.bar (.ok (.verified vb))).barOf? key = some vb := if_pos hKey
    rw [hBar, if_pos hKey.symm]
    subst hKey
    refine ⟨hChained.concat (hPrev.trans hTip), ?_⟩
    rw [Option.toList_some, tip_concat]
    rfl
  · have hBar : (CallResult.bar (.ok (.verified vb))).barOf? key = none := if_neg hKey
    rw [hBar, Option.toList_none, List.append_nil, if_neg fun e => hKey e.symm]
    exact ⟨hChained, hTip⟩

/-- A call that emits no verified bar leaves the verifier as it was. -/
theorem verifyBar_unverified {sha256 : String → HexDigest} {contract : ContractSymbol}
    {barTs : DateTime} {resolution : BarResolution} {s s' : VerifierSession ω}
    {outcome : Outcome VerifiedBar}
    (hRun : verifyBar sha256 contract barTs resolution s = .ok outcome s')
    (hOutcome : outcome.record? = none) : s'.verifier = s.verifier := by
  unfold verifyBar at hRun
  split at hRun
  · rename_i hAware
    obtain ⟨-, hRun⟩ := guard_ok_iff.mp hRun
    cases hEnd : barWindowEnd? barTs with
    | none =>
      rw [hEnd] at hRun
      cases hRun
    | some tsEnd =>
      rw [hEnd] at hRun
      simp only [bind_ok_iff, pure_ok_iff] at hRun
      obtain ⟨returned, s₁, hDecide, _, s₂, hChain, rfl, rfl⟩ := hRun
      have hKept := (keeps_decideBar sha256 contract barTs hAware tsEnd resolution).ok hDecide
      cases returned with
      | verified bar => cases hOutcome
      | disagreement event =>
        obtain ⟨-, rfl⟩ := pure_ok_iff.mp hChain
        exact hKept
      | incomplete bar =>
        obtain ⟨-, rfl⟩ := pure_ok_iff.mp hChain
        exact hKept
  · cases hRun

theorem verifyBar_raised {sha256 : String → HexDigest} {contract : ContractSymbol}
    {barTs : DateTime} {resolution : BarResolution} {s s' : VerifierSession ω} {e : VerifierError}
    (hRun : verifyBar sha256 contract barTs resolution s = .error e s') :
    s'.verifier = s.verifier := by
  unfold verifyBar at hRun
  split at hRun
  · rename_i hAware
    split at hRun
    · cases hRun
      rfl
    · cases hEnd : barWindowEnd? barTs with
      | none =>
        rw [hEnd] at hRun
        cases hRun
        rfl
      | some tsEnd =>
        rw [hEnd] at hRun
        rcases bind_error_iff.mp hRun with hDecide | ⟨outcome, s₁, -, hChain⟩
        · exact (keeps_decideBar sha256 contract barTs hAware tsEnd resolution).error hDecide
        · -- recording the hash of an outcome never raises
          cases outcome <;> cases hChain
  · cases hRun
    rfl

theorem performCall_remembers {sha256 : String → HexDigest} {results : List CallResult}
    {s s' : VerifierSession ω} (h : TipsRemembered results s) {call : VerifierCall}
    {result : CallResult} (hRun : performCall sha256 call s = .ok result s') :
    TipsRemembered (results ++ [result]) s' := by
  cases call with
  | settle contract asOf =>
    simp only [performCall, bind_ok_iff, pure_ok_iff, attempt_ok_iff] at hRun
    obtain ⟨_, _, ⟨outcome, rfl, hCall⟩ | ⟨e, rfl, hCall⟩, rfl, rfl⟩ := hRun
    · exact h.unchanged ((keeps_verifySettle sha256 contract asOf).ok hCall) fun _ => rfl
    · exact h.unchanged ((keeps_verifySettle sha256 contract asOf).error hCall) fun _ => rfl
  | bar contract barTs resolution =>
    simp only [performCall, bind_ok_iff, pure_ok_iff, attempt_ok_iff] at hRun
    obtain ⟨_, _, ⟨outcome, rfl, hCall⟩ | ⟨e, rfl, hCall⟩, rfl, rfl⟩ := hRun
    · cases outcome with
      | verified vb =>
        obtain ⟨hAware, responding, -, hVerified, hVerifier⟩ := verifyBar_verified hCall
        obtain ⟨-, first, rest, consensus, -, -, -, rfl⟩ := hVerified
        exact h.chain rfl hVerifier
      | disagreement event => exact h.unchanged (verifyBar_unverified hCall rfl) fun _ => rfl
      | incomplete bar => exact h.unchanged (verifyBar_unverified hCall rfl) fun _ => rfl
    · exact h.unchanged (verifyBar_raised hCall) fun _ => rfl

theorem create_ok {sources : List (DataSource ω)} {policy : VerifierPolicy}
    {clock : ω → DateTime × ω} {verifier : MultiSourceVerifier ω}
    (h : create sources policy clock = .ok verifier) :
    sources ≠ [] ∧ verifier = ⟨sortBy DataSource.sourceId sources, policy, clock, .empty⟩ := by
  obtain ⟨hSources, h⟩ := except_guard_ok_iff.mp h
  cases h
  exact ⟨fun hNil => hSources (by rw [hNil]; rfl), rfl⟩

theorem create_perm {sources sources' : List (DataSource ω)} {policy : VerifierPolicy}
    {clock : ω → DateTime × ω} {verifier : MultiSourceVerifier ω}
    (h : create sources policy clock = .ok verifier)
    (hIds : (sources.map DataSource.sourceId).Nodup) (hPerm : sources'.Perm sources) :
    create sources' policy clock = .ok verifier := by
  obtain ⟨hSources, rfl⟩ := create_ok h
  have hSources' : ¬sources'.isEmpty := by
    intro hEmpty
    rw [List.isEmpty_iff.mp hEmpty] at hPerm
    exact hSources hPerm.nil_eq.symm
  rw [create, if_neg hSources', sortBy_eq_of_perm hPerm.symm hIds]
  rfl

/-- In every run from a new verifier the bars of each key are chained; the run is
the same for every order of the source list. -/
theorem bars_chained_in_any_order {sha256 : String → HexDigest} {sources : List (DataSource ω)}
    {policy : VerifierPolicy} {clock : ω → DateTime × ω} {verifier : MultiSourceVerifier ω}
    {world : ω} {calls : List VerifierCall} {results : List CallResult} {s' : VerifierSession ω}
    (hCreate : create sources policy clock = .ok verifier)
    (hRun : each (performCall sha256) calls ⟨verifier, world⟩ = .ok results s') :
    (∀ key, Chained VerifiedBar.prevBarHash VerifiedBar.verifierRunHash (barsOf key results)) ∧
    ((sources.map DataSource.sourceId).Nodup → ∀ sources', sources'.Perm sources →
      ∃ verifier', create sources' policy clock = .ok verifier' ∧
        each (performCall sha256) calls ⟨verifier', world⟩ = .ok results s') := by
  constructor
  · have hStart : TipsRemembered [] (⟨verifier, world⟩ : VerifierSession ω) := by
      obtain ⟨-, rfl⟩ := create_ok hCreate
      intro key
      exact ⟨trivial, rfl⟩
    have hEnd : TipsRemembered results s' := by
      refine each_rule (fun _ log s => TipsRemembered log s) ?_ hStart hRun
      rintro done call rest log result s t - hLog hStep
      exact performCall_remembers hLog hStep
    intro key
    exact (hEnd key).1
  · intro hIds sources' hPerm
    exact ⟨verifier, create_perm hCreate hIds hPerm, hRun⟩

def twoDays (sourceId : String) : DataSource Unit :=
  scriptedSource sourceId none
    [quotedBar sourceId firstDay 100 110 90 105 quoted_range,
      quotedBar sourceId secondDay 105 115 95 110 (by decide +kernel)]

/-- Between the two bars come a settle nobody has and a resolution that is refused. -/
def twoDayCalls : List VerifierCall :=
  [.bar "CLF26" (.utcMidnight firstDay) .day1, .settle "CLF26" (.utcMidnight firstDay),
    .bar "CLF26" (.utcMidnight firstDay) .settle, .bar "CLF26" (.utcMidnight secondDay) .day1]

def twoSourcePolicy : VerifierPolicy := ⟨⟨"two_sources", .failClosed, 2, .normal, true⟩, .empty⟩

def secondDayClock (world : Unit) : DateTime × Unit := (.utcMidnight secondDay, world)

theorem bars_chained_in_any_order_twoDays : ∃ verifier results s',
    create [twoDays "b", twoDays "a"] twoSourcePolicy secondDayClock = .ok verifier ∧
    each (performCall sha256Hexdigest) twoDayCalls ⟨verifier, ()⟩ = .ok results s' ∧
    (barsOf ("CLF26", .day1) results).length = 2 ∧
    Chained VerifiedBar.prevBarHash VerifiedBar.verifierRunHash
      (barsOf ("CLF26", .day1) results) ∧
    ∃ verifier',
      create [twoDays "a", twoDays "b"] twoSourcePolicy secondDayClock = .ok verifier' ∧
      each (performCall sha256Hexdigest) twoDayCalls ⟨verifier', ()⟩ = .ok results s' := by
  have hCreate : create [twoDays "b", twoDays "a"] twoSourcePolicy secondDayClock =
      .ok ⟨sortBy DataSource.sourceId [twoDays "b", twoDays "a"], twoSourcePolicy, secondDayClock,
        .empty⟩ := rfl
  have hReturns : returns (each (performCall sha256Hexdigest) twoDayCalls)
      (⟨⟨sortBy DataSource.sourceId [twoDays "b", twoDays "a"], twoSourcePolicy, secondDayClock,
        .empty⟩, ()⟩ : VerifierSession Unit)
      (fun results _ => decide ((barsOf ("CLF26", .day1) results).length = 2)) = true := by
    decide +kernel
  obtain ⟨results, s', hRun, hLength⟩ := exists_ok_of_returns hReturns
  obtain ⟨hChained, hOrder⟩ := bars_chained_in_any_order hCreate hRun
  exact ⟨_, results, s', hCreate, hRun, of_decide_eq_true hLength, hChained _,
    hOrder (by decide) _ (List.Perm.swap _ _ _)⟩

end Futur3.Data
