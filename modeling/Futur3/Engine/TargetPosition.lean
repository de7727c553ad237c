import Futur3.Engine.BacktestSpec

/-! # The target is the total exposure

In target-position mode the sized count of a signal is meant as the whole position.
The committed position follows the last sized count through fills, flat exits and
refused orders. It loses track in one place: a signal that is capped to zero leaves
the position it finds.
-/

namespace Futur3.Engine

open Data Execution Prelude Method
open MockBroker (OpenOrder Consistent MarketOnly Idle)

variable {σ ρ : Type}

/-- The count the sizing gate returned on this bar for a signal in this contract. -/
def BarOutcome.gate (outcome : BarOutcome) (c : ContractSymbol) : Option ℤ :=
  outcome.sized.bind fun sized => if sized.1.contract = c then some sized.2.contracts else none

/-- The count the gate returned for the most recent sized signal, zero before the first. -/
def lastGate (c : ContractSymbol) (records : List BarRecord) : ℤ :=
  (records.filterMap fun r => r.outcome.gate c).getLast?.getD 0

/-- After every advance the position is within the last count of the gate. -/
def ExposureBounded (c : ContractSymbol) (records : List BarRecord) : Prop :=
  ∀ (k : ℕ) r, records[k]? = some r → |r.advanced.net c| ≤ lastGate c (records.take k)

def CappedFlat (c : ContractSymbol) (records : List BarRecord) : Prop :=
  ∀ r ∈ records, ∀ signal decision, r.outcome = .cappedToZero signal decision →
    signal.contract = c → r.processed.net c = 0

theorem lastGate_concat (c : ContractSymbol) (records : List BarRecord) (r : BarRecord) :
    lastGate c (records ++ [r]) = (r.outcome.gate c).getD (lastGate c records) := by
  unfold lastGate
  cases hGate : r.outcome.gate c with
  | none => simp [List.filterMap_append, hGate]
  | some n => simp [List.filterMap_append, hGate]

theorem exposureBounded_concat (c : ContractSymbol) (records : List BarRecord) (r : BarRecord) :
    ExposureBounded c (records ++ [r]) ↔
      ExposureBounded c records ∧ |r.advanced.net c| ≤ lastGate c records := by
  constructor
  · intro h
    refine ⟨fun k r' hGet => ?_, ?_⟩
    · have hk := index_lt hGet
      have := h k r' (getElem?_concat_of_some hGet)
      rwa [List.take_append_of_le_length hk.le] at this
    · simpa using h records.length r (by simp)
  · rintro ⟨hOld, hNew⟩ k r' hGet
    rcases getElem?_concat_cases hGet with hGet | ⟨rfl, rfl⟩
    · rw [List.take_append_of_le_length (index_lt hGet).le]
      exact hOld k r' hGet
    · simpa using hNew

theorem cappedFlat_concat (c : ContractSymbol) (records : List BarRecord) (r : BarRecord) :
    CappedFlat c (records ++ [r]) ↔ CappedFlat c records ∧ CappedFlat c [r] := by
  simp only [CappedFlat, List.forall_mem_append]

/-! ## One pass -/

theorem Ordered.committed {b b' : MockBroker} {contract : ContractSymbol} {side : Side} {quantity : ℤ}
    {id : BrokerOrderId} (h : Ordered b b' contract side quantity id) (hConsistent : Consistent b)
    (c : ContractSymbol) :
    b'.committed c = b.committed c + if contract = c then side.signed quantity else 0 := by
  obtain ⟨order, rfl, rfl, rfl, -, hPlaced⟩ := h
  exact hPlaced.committed hConsistent c

theorem closeSide_signed (net : ℤ) : (closeSide net).signed |net| = -net := Side.signed_close net

/-- In target-position mode an order leads to a target of the sized magnitude. -/
theorem resolveOrder_some {e : BacktestEngine σ ρ} {decision : SizingDecision} {signal : Signal}
    {positions : List Position} {side : Side} {quantity : ℤ} (hTarget : e.targetPosition = true)
    (h : e.resolveOrder decision signal positions = some (side, quantity)) :
    0 < quantity ∧
      |netPosition positions signal.contract + side.signed quantity| = decision.contracts := by
  have hNonneg := decision.contracts_nonneg
  simp only [BacktestEngine.resolveOrder, hTarget, if_true, Option.ite_none_left_eq_some,
    Option.some.injEq, Prod.mk.injEq] at h
  obtain ⟨hDelta, rfl, rfl⟩ := h
  generalize netPosition positions signal.contract = net at *
  refine ⟨abs_pos.mpr hDelta, ?_⟩
  rw [Side.signed_reopen, add_sub_cancel]
  split
  · exact abs_of_nonneg hNonneg
  · rw [abs_neg, abs_of_nonneg hNonneg]

theorem resolveOrder_none {e : BacktestEngine σ ρ} {decision : SizingDecision} {signal : Signal}
    {positions : List Position} (hTarget : e.targetPosition = true)
    (h : e.resolveOrder decision signal positions = none) :
    |netPosition positions signal.contract| = decision.contracts := by
  have hNonneg := decision.contracts_nonneg
  simp only [BacktestEngine.resolveOrder, hTarget, if_true, ite_eq_left_iff, reduceCtorEq,
    imp_false, not_not, sub_eq_zero] at h
  rw [← h]
  split
  · exact abs_of_nonneg hNonneg
  · rw [abs_neg, abs_of_nonneg hNonneg]

theorem Permitted.not_blocked {e : BacktestEngine σ ρ} {b : MockBroker} {contract : ContractSymbol}
    {side : Side} {quantity : ℤ} (h : Permitted e b contract side quantity) :
    b.config.blockAllTrades = false := by
  obtain ⟨r, hNone⟩ := h
  by_contra hAll
  exact e.guard.all_blocked b contract side quantity r (Bool.not_eq_false _ ▸ hAll) hNone

/-- A refused order would not have shrunk the position. -/
theorem Refused.increases {e : BacktestEngine σ ρ} {b : MockBroker} {contract : ContractSymbol}
    {side : Side} {quantity : ℤ} (h : Refused e b contract side quantity) (hPos : 0 < quantity)
    (hBlocked : b.config.blockAllTrades = true → b.net contract = 0) :
    |b.net contract| ≤ |b.net contract + side.signed quantity| := by
  cases hAll : b.config.blockAllTrades with
  | true =>
    rw [hBlocked hAll, abs_zero]
    exact abs_nonneg _
  | false =>
    obtain ⟨r, hSome⟩ := h
    by_contra hReduces
    exact hSome (e.guard.reducing_allowed b contract side quantity r hPos hAll (not_le.mp hReduces))

/-- What a pass leaves committed is within the gate's count of this bar, or within the bound that
held before when nothing was sized. -/
theorem Acted.bounded {e : BacktestEngine σ ρ} {bar : VerifiedBar} {history : List VerifiedBar}
    {b b' : MockBroker} {outcome : BarOutcome} {c : ContractSymbol} {bound : ℤ}
    (h : Acted e bar history b outcome b') (hTarget : e.targetPosition = true)
    (hNoStop : e.stopLossPct = none) (hConsistent : Consistent b) (hNet : b.committed c = b.net c)
    (hBound : |b.net c| ≤ bound) (hBlocked : b.config.blockAllTrades = true → b.net c = 0)
    (hCapped : ∀ signal decision, outcome = .cappedToZero signal decision → signal.contract = c →
      b.net c = 0) :
    |b'.committed c| ≤ (outcome.gate c).getD bound := by
  have hPosition := netPosition_getPositions hConsistent.keyed
  cases h with
  | ruined => exact hNet ▸ hBound
  | stopLoss hPct => rw [hNoStop] at hPct; cases hPct
  | noSignal => exact hNet ▸ hBound
  | kept => exact hNet ▸ hBound
  | @closed signal id b' _ _ _ hOrdered =>
    change _ ≤ bound
    rw [hOrdered.committed hConsistent, hNet, closeSide_signed, hPosition]
    by_cases hc : signal.contract = c
    · rw [if_pos hc, hc, add_neg_cancel, abs_zero]
      exact (abs_nonneg _).trans hBound
    · rwa [if_neg hc, add_zero]
  | @cappedToZero signal decision _ _ _ _ =>
    rw [hNet]
    by_cases hc : signal.contract = c
    · have hZero := hCapped signal decision rfl hc
      simpa [BarOutcome.gate, BarOutcome.sized, hc, hZero] using decision.contracts_nonneg
    · simpa [BarOutcome.gate, BarOutcome.sized, hc] using hBound
  | @onTarget signal decision _ _ _ _ hResolved =>
    rw [hNet]
    by_cases hc : signal.contract = c
    · have := resolveOrder_none hTarget hResolved
      rw [hPosition, hc] at this
      simp [BarOutcome.gate, BarOutcome.sized, hc, this]
    · simpa [BarOutcome.gate, BarOutcome.sized, hc] using hBound
  | @blocked signal decision side quantity _ _ _ _ hResolved hRefused =>
    rw [hNet]
    by_cases hc : signal.contract = c
    · obtain ⟨hPos, hMagnitude⟩ := resolveOrder_some hTarget hResolved
      rw [hPosition, hc] at hMagnitude
      have := (hc ▸ hRefused).increases hPos hBlocked
      simpa [BarOutcome.gate, BarOutcome.sized, hc, hMagnitude] using this
    · simpa [BarOutcome.gate, BarOutcome.sized, hc] using hBound
  | @ordered signal decision side quantity id b' _ _ _ _ hResolved _ hOrdered =>
    rw [hOrdered.committed hConsistent, hNet]
    by_cases hc : signal.contract = c
    · obtain ⟨-, hMagnitude⟩ := resolveOrder_some hTarget hResolved
      rw [hPosition, hc] at hMagnitude
      simp [BarOutcome.gate, BarOutcome.sized, hc, hMagnitude]
    · simpa [BarOutcome.gate, BarOutcome.sized, hc] using hBound

/-- A broker that blocks all trades never takes on a commitment. -/
theorem Acted.blocked_committed {e : BacktestEngine σ ρ} {bar : VerifiedBar}
    {history : List VerifiedBar} {b b' : MockBroker} {outcome : BarOutcome}
    (h : Acted e bar history b outcome b') (hNoStop : e.stopLossPct = none)
    (hAll : b.config.blockAllTrades = true) : b' = b := by
  cases h with
  | stopLoss hPct => rw [hNoStop] at hPct; cases hPct
  | closed _ _ hPermitted => rw [hPermitted.not_blocked] at hAll; cases hAll
  | ordered _ _ _ _ _ hPermitted => rw [hPermitted.not_blocked] at hAll; cases hAll
  | _ => rfl

/-- No roll event brings another contract's position into this one. -/
def NoRollInto (e : BacktestEngine σ ρ) (c : ContractSymbol) : Prop :=
  ∀ event ∈ e.rollEvents, event.newContract = c → event.oldContract = c

theorem RollStep.net_le {e : BacktestEngine σ ρ} {bar : VerifiedBar} {b b' : MockBroker}
    {c : ContractSymbol} (h : RollStep e bar b b') (hConsistent : Consistent b)
    (hRolls : NoRollInto e c) : |b'.net c| ≤ |b.net c| := by
  rw [h.net hConsistent]
  cases hEvent : e.rollByDate.get? bar.ts.date with
  | none => exact le_rfl
  | some event =>
    rw [Option.elim_some]
    by_cases hNew : event.newContract = c
    · have hOld := hRolls event (BacktestEngine.mem_rollEvents hEvent).1 hNew
      simp [hNew, hOld]
    · by_cases hOld : event.oldContract = c
      · simp [hOld, Ne.symm hNew]
      · simp [Ne.symm hOld, Ne.symm hNew]

/-- A pass over a bar of the contract: the fills settle everything committed, and the position
that the decision sees is at most what was filled. -/
theorem BarStep.settled {e : BacktestEngine σ ρ} {bar : VerifiedBar} {s s' : LoopState σ ρ}
    {r : BarRecord} (h : BarStep e bar s s' r) (hConsistent : Consistent s.broker)
    (hMarket : MarketOnly s.broker) (hRolls : NoRollInto e bar.contract) :
    r.advanced.net bar.contract = s.broker.committed bar.contract ∧
      ∃ b, Consistent b ∧ b.committed bar.contract = b.net bar.contract ∧
        |b.net bar.contract| ≤ |r.advanced.net bar.contract| ∧ b.config = s.broker.config ∧
        Acted e bar (s.history ++ [bar]) b r.outcome r.processed := by
  obtain ⟨b, hRoll, hActed⟩ := h.acted
  have hAdvanced := h.advanced.consistent hConsistent
  have hOpen : ∀ id order filled, OpenOrder r.advanced id order filled →
      order.contract ≠ bar.contract := fun id order filled => h.advanced.open_other hMarket
  refine ⟨?_, b, hRoll.consistent hAdvanced, ?_, hRoll.net_le hAdvanced hRolls,
    hRoll.sameBook.config.trans h.advanced.config, hActed⟩
  · rw [← h.advanced.committed, MockBroker.committed_eq_net hAdvanced hOpen]
  · refine MockBroker.committed_eq_net (hRoll.consistent hAdvanced) fun id order filled hOrder => ?_
    exact hOpen id order filled ((hRoll.open_iff id order filled).mp hOrder)

/-! ## Runs -/

/-- What holds between two bars of a single-contract run in target-position mode. -/
structure Exposed (c : ContractSymbol) (records : List BarRecord) (b : MockBroker) : Prop where
  consistent : Consistent b
  market : MarketOnly b
  blocked : b.config.blockAllTrades = true → b.committed c = 0
  bounded : CappedFlat c records → |b.committed c| ≤ lastGate c records
  exposure : ExposureBounded c records ↔ CappedFlat c records.dropLast
  capped : ∀ r signal decision, records.getLast? = some r →
    r.outcome = .cappedToZero signal decision → signal.contract = c →
    lastGate c records ≤ 0 ∧ b.committed c = r.processed.net c

theorem Exposed.start {c : ContractSymbol} {b : MockBroker} (hIdle : Idle b) (hFlat : b.net c = 0) :
    Exposed c [] b := by
  have hZero : b.committed c = 0 := by
    rw [MockBroker.committed_eq_net hIdle.toConsistent
      fun id order filled h => absurd h (hIdle.none_open id order filled), hFlat]
  refine ⟨hIdle.toConsistent, hIdle.marketOnly, fun _ => hZero, fun _ => ?_, ?_, ?_⟩
  · rw [hZero, abs_zero]
    exact le_rfl
  · simp [ExposureBounded, CappedFlat]
  · intro r signal decision h
    simp at h

/-- The bound at the next advance holds exactly when the last pass was not capped while holding. -/
theorem Exposed.next {c : ContractSymbol} {records : List BarRecord} {b : MockBroker}
    (h : Exposed c records b) {r : BarRecord} (hNet : r.advanced.net c = b.committed c) :
    ExposureBounded c (records ++ [r]) ↔ CappedFlat c (records ++ [r]).dropLast := by
  rw [exposureBounded_concat, List.dropLast_concat, h.exposure, hNet]
  constructor
  · rintro ⟨hBefore, hNow⟩
    rcases List.eq_nil_or_concat records with rfl | ⟨front, last, rfl⟩
    · intro r' hMem
      cases hMem
    · rw [List.concat_eq_append, List.dropLast_concat] at hBefore
      rw [List.concat_eq_append] at hNow ⊢
      refine (cappedFlat_concat c front last).mpr ⟨hBefore, ?_⟩
      intro r' hMem signal decision hOutcome hContract
      obtain rfl := List.mem_singleton.mp hMem
      obtain ⟨hZero, hSame⟩ := h.capped r' signal decision (by simp) hOutcome hContract
      rw [List.concat_eq_append] at hZero
      exact abs_eq_zero.mp (le_antisymm ((hSame ▸ hNow).trans hZero) (abs_nonneg _))
  · intro hFlat
    exact ⟨fun r' hMem => hFlat r' (List.dropLast_subset _ hMem), h.bounded hFlat⟩

theorem Exposed.step {e : BacktestEngine σ ρ} {bar : VerifiedBar} {records : List BarRecord}
    {s s' : LoopState σ ρ} {r : BarRecord} (h : Exposed bar.contract records s.broker)
    (hStep : BarStep e bar s s' r) (hTarget : e.targetPosition = true)
    (hNoStop : e.stopLossPct = none) (hRolls : NoRollInto e bar.contract) :
    Exposed bar.contract (records ++ [r]) s'.broker := by
  obtain ⟨hNet, b, hConsistent, hCommitted, hLe, hConfig, hActed⟩ :=
    hStep.settled h.consistent h.market hRolls
  have hBlocked : b.config.blockAllTrades = true → b.net bar.contract = 0 := by
    intro hAll
    rw [hNet, h.blocked (hConfig ▸ hAll), abs_zero] at hLe
    exact abs_eq_zero.mp (le_antisymm hLe (abs_nonneg _))
  have hBook := hStep.book
  rw [hStep.processed] at hBook ⊢
  refine ⟨hBook.consistent h.consistent, hBook.marketOnly h.consistent h.market, ?_, ?_, h.next hNet, ?_⟩
  · intro hAll
    have hAllBefore : b.config.blockAllTrades = true := by
      rcases hActed.placed_cases with ⟨-, hSame⟩ | ⟨_, _, _, _, -, ⟨order, -, -, -, -, hPlaced⟩, -⟩
      · exact hSame ▸ hAll
      · rwa [hPlaced.config] at hAll
    rw [hActed.blocked_committed hNoStop hAllBefore, hCommitted, hBlocked hAllBefore]
  · intro hFlat
    obtain ⟨hBefore, hNow⟩ := (cappedFlat_concat bar.contract records r).mp hFlat
    rw [lastGate_concat]
    refine hActed.bounded hTarget hNoStop hConsistent hCommitted
      (hLe.trans (hNet ▸ h.bounded hBefore)) hBlocked fun signal decision hOutcome hContract => ?_
    have hSame := hNow r (List.mem_singleton_self r) signal decision hOutcome hContract
    rw [hOutcome] at hActed
    cases hActed
    exact hSame
  · intro r' signal decision hLast hOutcome hContract
    obtain rfl : r = r' := by simpa using hLast
    rw [hOutcome] at hActed
    have hGate : r.outcome.gate bar.contract = some decision.contracts := by
      simp [hOutcome, BarOutcome.gate, BarOutcome.sized, hContract]
    rw [lastGate_concat, hGate, Option.getD_some]
    cases hActed with
    | cappedToZero _ _ _ hCapped => exact ⟨hCapped, hCommitted⟩

/-- On every single-contract run in target-position mode without a stop-loss, the position after
each advance is within the last count of the gate exactly when no signal before the last bar was
capped to zero while a position was held. -/
theorem exposure_bounded_iff {e : BacktestEngine σ ρ} {c : ContractSymbol} {broker : MockBroker}
    {guard : ρ} {strategy : σ} {bars : List VerifiedBar} {result : RunResult}
    {records : List BarRecord} {s' : LoopState σ ρ} (hTarget : e.targetPosition = true)
    (hNoStop : e.stopLossPct = none) (hSingle : ∀ bar ∈ bars, bar.contract = c)
    (hRolls : NoRollInto e c) (hIdle : Idle broker) (hFlat : broker.net c = 0)
    (hRun : e.run bars (.start broker guard strategy) = .ok (result, records) s') :
    ExposureBounded c records ↔ CappedFlat c records.dropLast := by
  have hStep : ∀ done bar rest log r (s s' : LoopState σ ρ), bars = done ++ bar :: rest →
      Exposed c log s.broker → BarStep e bar s s' r → Exposed c (log ++ [r]) s'.broker := by
    rintro done bar rest log r s s' rfl hInv hStep
    obtain rfl : bar.contract = c := hSingle bar (by simp)
    exact hInv.step hStep hTarget hNoStop hRolls
  obtain ⟨s₁, hInv, -⟩ := run_rule (fun _ log s => Exposed c log s.broker) hStep
    (.start hIdle hFlat) hRun
  exact hInv.exposure

def threeDays : List VerifiedBar :=
  [dailyBar "MESZ25" .dec10 5000, dailyBar "MESZ25" .dec11 5000,
    dailyBar "MESZ25" .dec12 5000]

def edgeThenNone : List (ℤ × ℚ) := [(1, 2), (1, 0)]

theorem exposure_bounded_iff_threeDays : ∃ result records s',
    (scriptedEngine true []).run threeDays (.start freshBroker () edgeThenNone) =
        .ok (result, records) s' ∧
      (ExposureBounded "MESZ25" records ↔ CappedFlat "MESZ25" records.dropLast) := by
  have hReturns : returns ((scriptedEngine true []).run threeDays)
      (.start freshBroker () edgeThenNone) (fun _ _ => true) = true := by decide +kernel
  obtain ⟨⟨result, records⟩, s', hRun, -⟩ := exists_ok_of_returns hReturns
  have hSingle : ∀ bar ∈ threeDays, bar.contract = "MESZ25" := by simp [threeDays, dailyBar]
  exact ⟨result, records, s', hRun, exposure_bounded_iff rfl rfl hSingle
    (by simp [NoRollInto, scriptedEngine]) (MockBroker.fresh_idle _) rfl hRun⟩

/-- The gate returns zero on the second day and the position of the first day stays. -/
theorem capped_signal_keeps_position : ∃ result records s',
    (scriptedEngine true []).run threeDays (.start freshBroker () edgeThenNone) =
        .ok (result, records) s' ∧ ¬ExposureBounded "MESZ25" records := by
  have hReturns : returns ((scriptedEngine true []).run threeDays)
      (.start freshBroker () edgeThenNone) (fun out _ => out.2[2]?.any fun r =>
        lastGate "MESZ25" (out.2.take 2) < |r.advanced.net "MESZ25"|) = true := by decide +kernel
  obtain ⟨⟨result, records⟩, s', hRun, hTest⟩ := exists_ok_of_returns hReturns
  refine ⟨result, records, s', hRun, fun hBounded => ?_⟩
  cases hGet : records[2]? with
  | none => simp [hGet] at hTest
  | some r =>
    have hLess : lastGate "MESZ25" (records.take 2) < |r.advanced.net "MESZ25"| := by
      simpa [hGet] using hTest
    exact absurd (hBounded 2 r hGet) (not_le.mpr hLess)

end Futur3.Engine
