import Futur3.Data.VerifierSpec
import Futur3.Prelude.Delimited

/-! # What the run hash commits to

The hashed text is read back from its end: resolution, moment and contract, then
the digest of the policy, then the policy's name and the sorted digests of the
responders. As long as no two of the texts involved share a digest, the run
hash determines all of it.
-/

namespace Futur3.Data

open Prelude Prelude.Method MultiSourceVerifier Delimited

structure StampText where
  sourceId : String
  asOfIso : String
  contentBytesSha : String
deriving DecidableEq

def SourceStamp.text (stamp : SourceStamp) : StampText :=
  ⟨stamp.sourceId, stamp.asOfIso.isoformat, stamp.contentBytesSha⟩

def StampText.payload (text : StampText) : String :=
  separator.intercalate [text.sourceId, text.asOfIso, text.contentBytesSha]

structure Commitment where
  policy : FieldPolicy
  contract : ContractSymbol
  moment : String
  resolution : BarResolution
  stamps : List SourceStamp

/-- The same policy, contract, moment and resolution, and the same responders in any order. -/
structure SameCommitment (c d : Commitment) : Prop where
  policy : c.policy = d.policy
  contract : c.contract = d.contract
  moment : c.moment = d.moment
  resolution : c.resolution = d.resolution
  stamps : (c.stamps.map SourceStamp.text).Perm (d.stamps.map SourceStamp.text)

/-- Neither the contract nor a source id contains the separator. -/
structure Commitment.Plain (c : Commitment) : Prop where
  contract : NoPair '|' c.contract.toList
  sourceIds : ∀ stamp ∈ c.stamps, NoPair '|' stamp.sourceId.toList

section Hashing

variable (sha256 : String → HexDigest)

def Commitment.provenance (c : Commitment) : List HexDigest :=
  c.stamps.map (sourceProvenanceHash sha256)

def Commitment.runText (c : Commitment) : String :=
  runPayload sha256 c.policy (c.provenance sha256)
    (barIdentifier c.contract c.moment c.resolution)

/-- Every text that is hashed on the way to the run hash. -/
def Commitment.hashedTexts (c : Commitment) : List String :=
  c.runText sha256 :: policyJson c.policy :: c.stamps.map SourceStamp.payload

end Hashing

/-! ## One responder -/

theorem toList_separator : separator.toList = ['|', '|'] := rfl

theorem payload_toList (stamp : SourceStamp) :
    stamp.payload.toList = stamp.sourceId.toList ++ '|' :: '|' ::
      (stamp.asOfIso.isoformatChars ++ '|' :: '|' :: stamp.contentBytesSha.toList) := by
  simp [SourceStamp.payload, DateTime.isoformat, toList_separator]

theorem mark_not_mem_isoformat (t : DateTime) : '|' ∉ t.isoformatChars :=
  not_mem_isoformat (by decide) (by decide) t

theorem text_eq_of_payload_eq {a b : SourceStamp} (ha : NoPair '|' a.sourceId.toList)
    (hb : NoPair '|' b.sourceId.toList) (h : a.payload = b.payload) : a.text = b.text := by
  have hChars := congrArg String.toList h
  rw [payload_toList, payload_toList] at hChars
  have hHead : ∀ (t : DateTime) rest, '|' ∉ (t.isoformatChars ++ rest).head? := by
    intro t rest
    obtain ⟨c, cs, hIso, hDigit⟩ := isoformat_head t
    rw [hIso, List.cons_append, List.head?_cons, Option.mem_some_iff]
    rintro rfl
    exact absurd hDigit (by decide)
  obtain ⟨hId, hRest⟩ := split_first_pair ha hb (hHead _ _) (hHead _ _) hChars
  obtain ⟨hIso, hSha⟩ := split_first (mark_not_mem_isoformat _) (mark_not_mem_isoformat _) hRest
  unfold SourceStamp.text DateTime.isoformat
  rw [String.toList_inj.mp hId, hIso, String.toList_inj.mp (List.cons.inj hSha).2]

/-! ## The policy -/

theorem PolicyKind.text_injective : Function.Injective PolicyKind.text := by
  intro a b h
  revert h
  cases a <;> cases b <;> decide

theorem ToleranceBand.text_injective : Function.Injective ToleranceBand.text := by
  intro a b h
  revert h
  cases a <;> cases b <;> decide

theorem comma_not_mem_intText (n : ℤ) : ',' ∉ JsonText.intText n := by
  intro h
  rcases JsonText.isDigit_of_mem_intText h with hDash | hDigit
  · exact absurd hDash (by decide)
  · exact absurd hDigit (by decide)

theorem comma_not_mem_boolText (b : Bool) : ',' ∉ JsonText.boolText b := by
  cases b <;> decide

theorem policyJson_injective : Function.Injective policyJson := by
  intro p q h
  have hMembers := List.append_cancel_right (List.cons.inj (String.ofList_injective h)).2
  simp only [JsonText.members, List.append_assoc, List.cons_append, List.append_cancel_left_eq,
    List.cons.injEq, true_and] at hMembers
  obtain ⟨hKind, hMembers⟩ := JsonText.quote_append_inj hMembers
  simp only [List.cons.injEq, true_and, List.append_cancel_left_eq] at hMembers
  obtain ⟨hQuorum, hMembers⟩ :=
    split_first (comma_not_mem_intText _) (comma_not_mem_intText _) hMembers
  simp only [List.cons.injEq, true_and, List.append_cancel_left_eq] at hMembers
  obtain ⟨hId, hMembers⟩ := JsonText.quote_append_inj hMembers
  simp only [List.cons.injEq, true_and, List.append_cancel_left_eq] at hMembers
  obtain ⟨hTier, hMembers⟩ :=
    split_first (comma_not_mem_boolText _) (comma_not_mem_boolText _) hMembers
  simp only [List.cons.injEq, true_and, List.append_cancel_left_eq] at hMembers
  have hBand := (JsonText.quote_append_inj (congrArg (· ++ []) hMembers)).1
  cases p
  cases q
  simp only [FieldPolicy.mk.injEq]
  exact ⟨String.toList_inj.mp hId, PolicyKind.text_injective (String.toList_inj.mp hKind),
    JsonText.intText_injective hQuorum,
    ToleranceBand.text_injective (String.toList_inj.mp hBand),
    JsonText.boolText_injective hTier⟩

/-! ## The run text -/

theorem mark_not_mem_hex (digest : HexDigest) : '|' ∉ digest.text.toList := by
  intro h
  exact absurd (digest.hex '|' h) (by decide)

theorem hex_ne_nil (digest : HexDigest) : digest.text.toList ≠ [] := by
  intro h
  have hLength := digest.length_eq
  rw [← String.length_toList, h] at hLength
  cases hLength

theorem HexDigest.text_injective : Function.Injective HexDigest.text := by
  rintro ⟨a, _, _⟩ ⟨b, _, _⟩ h
  cases h
  rfl

theorem mark_not_mem_resolution (resolution : BarResolution) :
    '|' ∉ resolution.value.toList := by
  cases resolution <;> decide

def Commitment.sortedProvenance (sha256 : String → HexDigest) (c : Commitment) : List String :=
  ((c.provenance sha256).map HexDigest.text).insertionSort (· ≤ ·)

theorem runText_toList (sha256 : String → HexDigest) (c : Commitment) :
    (c.runText sha256).toList =
      ((((c.policy.policyId.toList ++ '|' :: '|' ::
        ['|', '|'].intercalate ((c.sortedProvenance sha256).map String.toList)) ++ '|' :: '|' ::
          (toleranceSignature sha256 c.policy).text.toList) ++ '|' :: '|' ::
            c.contract.toList) ++ '|' :: '|' :: c.moment.toList) ++ '|' :: '|' ::
              c.resolution.value.toList := by
  simp [Commitment.runText, Commitment.sortedProvenance, runPayload, barIdentifier,
    toList_separator]

/-- The parts of the run text, read from its end. -/
theorem runText_parts {sha256 : String → HexDigest} {c d : Commitment}
    (hc : NoPair '|' c.contract.toList) (hd : NoPair '|' d.contract.toList)
    (hcMoment : '|' ∉ c.moment.toList) (hdMoment : '|' ∉ d.moment.toList)
    (h : c.runText sha256 = d.runText sha256) :
    c.resolution = d.resolution ∧ c.moment = d.moment ∧ c.contract = d.contract ∧
      toleranceSignature sha256 c.policy = toleranceSignature sha256 d.policy ∧
      c.policy.policyId.toList ++ '|' :: '|' ::
          ['|', '|'].intercalate ((c.sortedProvenance sha256).map String.toList) =
        d.policy.policyId.toList ++ '|' :: '|' ::
          ['|', '|'].intercalate ((d.sortedProvenance sha256).map String.toList) := by
  have hChars := congrArg String.toList h
  rw [runText_toList, runText_toList] at hChars
  obtain ⟨hChars, hResolution⟩ :=
    split_last_double (mark_not_mem_resolution _) (mark_not_mem_resolution _) hChars
  obtain ⟨hChars, hMoment⟩ := split_last_double hcMoment hdMoment hChars
  -- a contract may begin with a single mark, but the digest before it ends with none
  have hLast : ∀ (r : List Char) (digest : HexDigest),
      '|' ∉ (r ++ '|' :: '|' :: digest.text.toList).getLast? := by
    intro r digest hMark
    have hCons : '|' :: '|' :: digest.text.toList = ['|', '|'] ++ digest.text.toList := rfl
    rw [hCons, ← List.append_assoc, List.getLast?_append_of_ne_nil _ (hex_ne_nil digest)] at hMark
    exact mark_not_mem_hex digest (List.mem_of_getLast? hMark)
  obtain ⟨hChars, hContract⟩ := split_last_pair hc hd (hLast _ _) (hLast _ _) hChars
  obtain ⟨hChars, hTolerance⟩ :=
    split_last_double (mark_not_mem_hex _) (mark_not_mem_hex _) hChars
  exact ⟨BarResolution.value_injective (String.toList_inj.mp hResolution),
    String.toList_inj.mp hMoment, String.toList_inj.mp hContract,
    HexDigest.text_injective (String.toList_inj.mp hTolerance), hChars⟩

theorem provenance_perm {sha256 : String → HexDigest} {c d : Commitment}
    (h : ['|', '|'].intercalate ((c.sortedProvenance sha256).map String.toList) =
      ['|', '|'].intercalate ((d.sortedProvenance sha256).map String.toList)) :
    (c.provenance sha256).Perm (d.provenance sha256) := by
  have hParts : ∀ e : Commitment, ∀ cs ∈ (e.sortedProvenance sha256).map String.toList,
      '|' ∉ cs ∧ cs ≠ [] := by
    intro e cs hcs
    obtain ⟨text, hText, rfl⟩ := List.mem_map.mp hcs
    obtain ⟨digest, -, rfl⟩ := List.mem_map.mp ((List.mem_insertionSort _).mp hText)
    exact ⟨mark_not_mem_hex digest, hex_ne_nil digest⟩
  have hSorted := List.map_injective_iff.mpr (fun _ _ => String.toList_injective)
    (intercalate_inj (hParts c) (hParts d) h)
  have hTexts : ((c.provenance sha256).map HexDigest.text).Perm
      ((d.provenance sha256).map HexDigest.text) :=
    (List.perm_insertionSort _ _).symm.trans
      ((List.Perm.of_eq hSorted).trans (List.perm_insertionSort _ _))
  exact perm_of_map_perm HexDigest.text_injective.injOn hTexts

theorem texts_perm {c d : Commitment} (hc : c.Plain) (hd : d.Plain)
    (h : (c.stamps.map SourceStamp.payload).Perm (d.stamps.map SourceStamp.payload)) :
    (c.stamps.map SourceStamp.text).Perm (d.stamps.map SourceStamp.text) := by
  have hPlain : ∀ text, text ∈ c.stamps.map SourceStamp.text ∨
      text ∈ d.stamps.map SourceStamp.text →
      ∃ stamp : SourceStamp, NoPair '|' stamp.sourceId.toList ∧ stamp.text = text := by
    rintro text (hText | hText)
    · obtain ⟨stamp, hStamp, rfl⟩ := List.mem_map.mp hText
      exact ⟨stamp, hc.sourceIds stamp hStamp, rfl⟩
    · obtain ⟨stamp, hStamp, rfl⟩ := List.mem_map.mp hText
      exact ⟨stamp, hd.sourceIds stamp hStamp, rfl⟩
  apply perm_of_map_perm (f := StampText.payload)
  · intro a ha b hb hPayload
    obtain ⟨x, hx, rfl⟩ := hPlain a ha
    obtain ⟨y, hy, rfl⟩ := hPlain b hb
    exact text_eq_of_payload_eq hx hy hPayload
  · rw [List.map_map, List.map_map]
    exact h

/-- Two commitments with the same run hash are the same, unless two of the texts
hashed on the way collide. -/
theorem sameCommitment_of_runHash {sha256 : String → HexDigest} {c d : Commitment}
    (hCollision : Set.InjOn sha256 {t | t ∈ c.hashedTexts sha256 ∨ t ∈ d.hashedTexts sha256})
    (hc : c.Plain) (hd : d.Plain) (hcMoment : '|' ∉ c.moment.toList)
    (hdMoment : '|' ∉ d.moment.toList)
    (h : sha256 (c.runText sha256) = sha256 (d.runText sha256)) : SameCommitment c d := by
  have hText := hCollision (Or.inl List.mem_cons_self) (Or.inr List.mem_cons_self) h
  obtain ⟨hResolution, hMoment, hContract, hTolerance, hNames⟩ :=
    runText_parts hc.contract hd.contract hcMoment hdMoment hText
  have hPolicy : c.policy = d.policy := by
    apply policyJson_injective
    apply hCollision (Or.inl (List.mem_cons_of_mem _ List.mem_cons_self))
      (Or.inr (List.mem_cons_of_mem _ List.mem_cons_self))
    exact hTolerance
  rw [hPolicy] at hNames
  have hJoined := (List.cons.inj (List.cons.inj (List.append_cancel_left hNames)).2).2
  have hDigests := provenance_perm hJoined
  have hPayloads : (c.stamps.map SourceStamp.payload).Perm (d.stamps.map SourceStamp.payload) := by
    apply perm_of_map_perm (hCollision.mono ?_)
    · rw [List.map_map, List.map_map]
      exact hDigests
    · rintro t (ht | ht)
      · exact Or.inl (List.mem_cons_of_mem _ (List.mem_cons_of_mem _ ht))
      · exact Or.inr (List.mem_cons_of_mem _ (List.mem_cons_of_mem _ ht))
  exact ⟨hPolicy, hContract, hMoment, hResolution, texts_perm hc hd hPayloads⟩

theorem runText_eq_of_same (sha256 : String → HexDigest) {c d : Commitment}
    (h : SameCommitment c d) : c.runText sha256 = d.runText sha256 := by
  have hProvenance : (c.provenance sha256).Perm (d.provenance sha256) := by
    have hDigests := h.stamps.map fun text => sha256 text.payload
    rw [List.map_map, List.map_map] at hDigests
    exact hDigests
  unfold Commitment.runText
  rw [runPayload_perm sha256 c.policy hProvenance, h.policy, h.contract, h.moment, h.resolution]

/-! ## Emitted hashes -/

/-- The hash of a verified record emitted in some session, with what it was hashed from. -/
inductive Emits (sha256 : String → HexDigest) : String → Commitment → Prop
  | bar {ω : Type} {s s' : VerifierSession ω} {contract : ContractSymbol} {barTs : DateTime}
      {resolution : BarResolution} {vb : VerifiedBar} {responding : List (Responder RawBar)}
      (hRun : verifyBar sha256 contract barTs resolution s = .ok (.verified vb) s')
      (hAsk : barResponders contract barTs resolution s = some responding) :
      Emits sha256 vb.verifierRunHash
        ⟨s.verifier.policy.resolveForField fieldOhlc, vb.contract, vb.ts.isoformat,
          vb.resolution, responding.map barStamp⟩
  | settle {ω : Type} {s s' : VerifierSession ω} {contract : ContractSymbol} {asOf : DateTime}
      {vs : VerifiedSettle} {responding : List (Responder Settle)} {stamps : List SourceStamp}
      (hRun : verifySettle sha256 contract asOf s = .ok (.verified vs) s')
      (hAsk : settleResponders contract asOf s = some responding)
      (hStamps : responding.mapM settleStamp = .ok stamps) :
      Emits sha256 vs.verifierRunHash
        ⟨s.verifier.policy.resolveForField fieldSettle, vs.contract, vs.asOfDate.isoformat,
          .settle, stamps⟩

theorem Emits.runHash {sha256 : String → HexDigest} {hash : String} {c : Commitment}
    (h : Emits sha256 hash c) :
    hash = (sha256 (c.runText sha256)).text ∧ '|' ∉ c.moment.toList := by
  cases h with
  | bar hRun hAsk =>
    obtain ⟨hAware, responding, hAsk', hVerified, -⟩ := verifyBar_verified hRun
    rw [hAsk] at hAsk'
    cases hAsk'
    obtain ⟨-, first, rest, consensus, rfl, -, -, rfl⟩ := hVerified
    refine ⟨rfl, ?_⟩
    rw [DateTime.isoformat, String.toList_ofList]
    exact mark_not_mem_isoformat _
  | settle hRun hAsk hStamps =>
    have hVerified := (verifySettle_verified_iff hAsk).mp ⟨_, hRun⟩
    obtain ⟨-, first, rest, stamps', rfl, -, hStamps', rfl⟩ := hVerified
    rw [hStamps] at hStamps'
    cases hStamps'
    refine ⟨rfl, ?_⟩
    rw [Date.isoformat, String.toList_ofList]
    exact not_mem_date_isoformat (by decide) (by decide) _

/-- Of any two verified records, an equal run hash means equal contents unless texts
collide, and equal contents, whatever the order of the responders, an equal hash. -/
theorem run_hash_binding {sha256 : String → HexDigest} {hash hash' : String} {c d : Commitment}
    (hc : Emits sha256 hash c) (hd : Emits sha256 hash' d) :
    (Set.InjOn sha256 {t | t ∈ c.hashedTexts sha256 ∨ t ∈ d.hashedTexts sha256} →
      c.Plain → d.Plain → hash = hash' → SameCommitment c d) ∧
    (SameCommitment c d → hash = hash') := by
  obtain ⟨rfl, hcMoment⟩ := hc.runHash
  obtain ⟨rfl, hdMoment⟩ := hd.runHash
  constructor
  · intro hCollision hcPlain hdPlain hHash
    exact sameCommitment_of_runHash hCollision hcPlain hdPlain hcMoment hdMoment
      (HexDigest.text_injective hHash)
  · intro hSame
    rw [runText_eq_of_same sha256 hSame]

/-! ## The same responses under other source names -/

def twoOfTwo : FieldPolicy := ⟨"two_of_two", .failClosed, 2, .tight, true⟩

def stampsOf (recordIds : List String) : List SourceStamp :=
  recordIds.map fun recordId => ⟨recordId, .utcMidnight firstDay, ""⟩

def settleCommitment (recordIds : List String) : Commitment :=
  ⟨twoOfTwo, "CLF26", firstDay.isoformat, .settle, stampsOf recordIds⟩

def renamedSession (names : List (String × String)) : VerifierSession Unit :=
  scriptedSession
    (names.map fun p => scriptedSource p.1 (some (quotedSettle p.2 firstDay 70)) [])
    twoOfTwo firstDay

theorem emits_renamed (names : List (String × String)) {recordIds : List String}
    (responding : List (Responder Settle))
    (hAsk : settleResponders "CLF26" (.utcMidnight firstDay) (renamedSession names) =
      some responding)
    (hStamps : responding.mapM settleStamp = .ok (stampsOf recordIds))
    (hReturns : returns (verifySettle sha256Hexdigest "CLF26" (.utcMidnight firstDay))
      (renamedSession names) (fun outcome _ => outcome.record?.any fun vs =>
        decide (vs.contract = "CLF26" ∧ vs.asOfDate = firstDay)) = true) :
    ∃ hash, Emits sha256Hexdigest hash (settleCommitment recordIds) := by
  obtain ⟨vs, s', hRun, hTest⟩ := exists_verified_of_returns hReturns
  obtain ⟨hContract, hDate⟩ := of_decide_eq_true hTest
  have hEmits := Emits.settle hRun hAsk hStamps
  rw [hContract, hDate] at hEmits
  exact ⟨_, hEmits⟩

theorem run_hash_binding_renamed : ∃ hash hash',
    Emits sha256Hexdigest hash (settleCommitment ["a", "b"]) ∧
    Emits sha256Hexdigest hash' (settleCommitment ["b", "a"]) ∧
    hash = hash' ∧ SameCommitment (settleCommitment ["a", "b"]) (settleCommitment ["b", "a"]) := by
  obtain ⟨hash, hc⟩ : ∃ hash, Emits sha256Hexdigest hash (settleCommitment ["a", "b"]) := by
    refine emits_renamed [("a", "a"), ("b", "b")]
      [⟨"a", .t2Exchange, quotedSettle "a" firstDay 70⟩,
        ⟨"b", .t2Exchange, quotedSettle "b" firstDay 70⟩] ?_ ?_ ?_
    · decide +kernel
    · rfl
    · decide +kernel
  obtain ⟨hash', hd⟩ : ∃ hash, Emits sha256Hexdigest hash (settleCommitment ["b", "a"]) := by
    refine emits_renamed [("z", "a"), ("b", "b")]
      [⟨"b", .t2Exchange, quotedSettle "b" firstDay 70⟩,
        ⟨"z", .t2Exchange, quotedSettle "a" firstDay 70⟩] ?_ ?_ ?_
    · decide +kernel
    · rfl
    · decide +kernel
  have hSame : SameCommitment (settleCommitment ["a", "b"]) (settleCommitment ["b", "a"]) :=
    ⟨rfl, rfl, rfl, rfl, List.Perm.swap _ _ _⟩
  have hHash := (run_hash_binding hc hd).2 hSame
  refine ⟨hash, hash', hc, hd, hHash, (run_hash_binding hc hd).1 ?_ ?_ ?_ hHash⟩
  · -- both commitments hash the same four texts, whose digests differ
    have hNodup : (((settleCommitment ["a", "b"]).hashedTexts sha256Hexdigest).map
        sha256Hexdigest).Nodup := by
      decide +kernel
    have hMem : ∀ t, t ∈ (settleCommitment ["a", "b"]).hashedTexts sha256Hexdigest ∨
        t ∈ (settleCommitment ["b", "a"]).hashedTexts sha256Hexdigest →
        t ∈ (settleCommitment ["a", "b"]).hashedTexts sha256Hexdigest := by
      rintro t (ht | ht)
      · exact ht
      · have hText := runText_eq_of_same sha256Hexdigest hSame
        unfold Commitment.hashedTexts at ht ⊢
        rw [hText]
        have hSwap : ((settleCommitment ["b", "a"]).stamps.map SourceStamp.payload).Perm
            ((settleCommitment ["a", "b"]).stamps.map SourceStamp.payload) :=
          List.Perm.swap _ _ _
        exact ((hSwap.cons _).cons _).subset ht
    intro x hx y hy hxy
    exact List.inj_on_of_nodup_map hNodup (hMem x hx) (hMem y hy) hxy
  · exact ⟨NoPair.of_not_mem (by decide), by
      simp [settleCommitment, stampsOf, NoPair.of_not_mem]⟩
  · exact ⟨NoPair.of_not_mem (by decide), by
      simp [settleCommitment, stampsOf, NoPair.of_not_mem]⟩

end Futur3.Data
