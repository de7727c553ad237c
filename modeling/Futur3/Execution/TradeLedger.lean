import Futur3.Execution.BrokerReach

/-! # The per-trade ledger

Every realized cent is booked in `trade_pnls` or tallied on the bet it belongs to,
and a flat contract carries no tally. A roll moves the tally with the position; the
one roll that breaks this ends in a back month that held the exact opposite.
-/

namespace Futur3.Execution

open Data Prelude Method

namespace MockBroker

def ledgerGap (b : MockBroker) : ℚ :=
  b.realizedPnlToday - (b.tradePnls.sum + b.openTradePnl.total fun _ tally => tally)

/-- Every realized cent is booked or tallied, and tallies belong to open positions. -/
structure Reconciled (b : MockBroker) : Prop where
  balance : b.tradePnls.sum + (b.openTradePnl.total fun _ tally => tally) = b.realizedPnlToday
  flat : ∀ c, b.net c = 0 → b.openTradePnl.get? c = none

/-- The rolls that return and do not end in a back month that held the exact opposite. -/
def KeepsLedger (b : MockBroker) : BrokerOp → Prop
  | .roll front back frontFill backFill =>
    (BrokerOp.roll front back frontFill backFill).perform.raised b = none ∧
      (b.net front = 0 ∨ back = front ∨ b.net back ≠ -b.net front)
  | _ => True

instance (b : MockBroker) : DecidablePred b.KeepsLedger
  | .place _ => inferInstanceAs (Decidable True)
  | .cancel _ => inferInstanceAs (Decidable True)
  | .modify .. => inferInstanceAs (Decidable True)
  | .fill .. => inferInstanceAs (Decidable True)
  | .advance .. => inferInstanceAs (Decidable True)
  | .roll .. => inferInstanceAs (Decidable (_ ∧ _))

/-! ## One position update -/

structure Tallied (b b' : MockBroker) (c : ContractSymbol) (isRoll : Bool) : Prop where
  gap : b'.ledgerGap = b.ledgerGap
  others : ∀ c', c' ≠ c → b'.openTradePnl.get? c' = b.openTradePnl.get? c'
  closed : isRoll = false → b'.net c = 0 → b'.openTradePnl.get? c = none

section Update

variable {b b' : MockBroker} {c : ContractSymbol} {isRoll : Bool}

theorem getD_eq_elim (tally : Option ℚ) : tally.getD 0 = tally.elim 0 fun t => t := by
  cases tally <;> rfl

theorem Tallied.realize (b : MockBroker) (c : ContractSymbol) (gained : ℚ) :
    ledgerGap { b with
      realizedPnlToday := b.realizedPnlToday + gained
      openTradePnl := b.openTradePnl.set c ((b.openTradePnl.get? c).getD 0 + gained) } =
        b.ledgerGap := by
  simp only [ledgerGap, Dict.total_set, ← getD_eq_elim]
  ring

theorem bookTrade_gap {u : PUnit} (h : bookTrade c b = .ok u b') :
    b'.ledgerGap = b.ledgerGap ∧ b'.openTradePnl = b.openTradePnl.erase c := by
  rw [bookTrade, modify_ok_iff] at h
  subst h
  refine ⟨?_, rfl⟩
  simp only [ledgerGap, Dict.total_erase, List.sum_append, List.sum_singleton, ← getD_eq_elim]
  ring

theorem closeAgainst_tallied {existing : Position} {delta : ℤ} {price : ℚ} {u : PUnit}
    (h : closeAgainst c existing delta price isRoll b = .ok u b') : Tallied b b' c isRoll := by
  simp only [closeAgainst, bind_ok_iff, liftExcept_ok_iff, mapError_ok_iff, modify_ok_iff,
    ite_ok_iff, setPosition_ok_iff] at h
  obtain ⟨mult, b₁, ⟨-, rfl⟩, _, b₂, hb₂, h⟩ := h
  have hGap : b₂.ledgerGap = b.ledgerGap := hb₂ ▸ Tallied.realize b c _
  have hOthers : ∀ c', c' ≠ c → b₂.openTradePnl.get? c' = b.openTradePnl.get? c' :=
    fun c' hc => hb₂ ▸ Dict.get?_set_of_ne _ _ hc
  have hBooked : ∀ s : MockBroker, s.ledgerGap = b₂.ledgerGap →
      s.openTradePnl = b₂.openTradePnl.erase c → ∀ positions, Tallied b
        { s with positions := positions } c isRoll := by
    intro s hBookGap hErase positions
    refine ⟨hBookGap.trans hGap, fun c' hc => ?_, fun _ _ => ?_⟩
    · exact (congrArg (Dict.get? · c') hErase).trans
        ((Dict.get?_erase ..).trans ((if_neg hc).trans (hOthers c' hc)))
    · exact (congrArg (Dict.get? · c) hErase).trans ((Dict.get?_erase ..).trans (if_pos rfl))
  rcases h with ⟨hFlat, hClose⟩ |
    ⟨hNotFlat, ⟨hFlip, _, s, hBook, p, hCreate, rfl⟩ | ⟨hKeep, p, hCreate, rfl⟩⟩
  · rcases hClose with ⟨hRoll, p, hCreate, rfl⟩ | ⟨hRoll, _, s, hBook, p, hCreate, rfl⟩
    · exact ⟨hGap, hOthers, fun hNot => absurd hRoll (by simp [hNot])⟩
    · obtain ⟨hBookGap, hErase⟩ := bookTrade_gap hBook
      exact hBooked s hBookGap hErase _
  · obtain ⟨hBookGap, hErase⟩ := bookTrade_gap hBook
    exact hBooked s hBookGap hErase _
  · have hOpen : p.quantity ≠ 0 := by rwa [(Position.create_ok hCreate).2.1]
    exact ⟨hGap, hOthers, fun _ hFlat => absurd (by simpa [net] using hFlat) hOpen⟩

theorem applyFill_tallied {side : Side} {quantity : ℤ} {price : ℚ} {u : PUnit}
    (hQuantity : 0 < quantity)
    (h : applyFillToPosition c side quantity price isRoll b = .ok u b') : Tallied b b' c isRoll := by
  have hFilled := applyFillToPosition_ok hQuantity h
  have hDelta : side.signed quantity ≠ 0 := by
    cases side <;> simp <;> omega
  -- unless the fill closes, no tally moves and the position is left open
  have hAdds : b'.ledgerGap = b.ledgerGap → b'.openTradePnl = b.openTradePnl →
      b'.net c ≠ 0 → Tallied b b' c isRoll := fun hGap hTallies hOpen =>
    ⟨hGap, fun _ _ => by rw [hTallies], fun _ hFlat => absurd hFlat hOpen⟩
  have hNet := hFilled.booked.net c
  rw [if_pos rfl] at hNet
  simp only [applyFillToPosition, bind_ok_iff, get_ok_iff] at h
  obtain ⟨_, _, ⟨rfl, rfl⟩, h⟩ := h
  cases hExisting : b.positions.get? c with
  | none =>
    simp only [hExisting, setPosition_ok_iff] at h
    obtain ⟨p, -, rfl⟩ := h
    have hFlat : b.net c = 0 := by simp [net, hExisting]
    exact hAdds rfl rfl (by rwa [hNet, hFlat, zero_add])
  | some existing =>
    simp only [hExisting, ite_ok_iff, setPosition_ok_iff] at h
    have hOld : b.net c = existing.quantity := by simp [net, hExisting]
    rcases h with ⟨hFlat, p, -, rfl⟩ | ⟨-, ⟨hSameSide, p, -, rfl⟩ | ⟨-, h⟩⟩
    · exact hAdds rfl rfl (by rwa [hNet, hOld, hFlat, zero_add])
    · refine hAdds rfl rfl ?_
      rw [hNet, hOld]
      rcases hSameSide with ⟨_, _⟩ | ⟨_, _⟩ <;> omega
    · exact closeAgainst_tallied h

end Update

/-! ## Each call -/

section Calls

variable {b b' : MockBroker}

theorem Reconciled.gap (h : Reconciled b) : b.ledgerGap = 0 := sub_eq_zero.mpr h.balance.symm

theorem reconciled_of_gap (hGap : b.ledgerGap = 0)
    (hFlat : ∀ c, b.net c = 0 → b.openTradePnl.get? c = none) : Reconciled b :=
  ⟨(sub_eq_zero.mp hGap).symm, hFlat⟩

theorem Reconciled.congr (h : Reconciled b) (hPositions : b'.positions = b.positions)
    (hTotal : b'.realizedPnlToday = b.realizedPnlToday) (hTrades : b'.tradePnls = b.tradePnls)
    (hTallies : b'.openTradePnl = b.openTradePnl) : Reconciled b' where
  balance := by rw [hTrades, hTallies, hTotal, h.balance]
  flat c hNet := by
    rw [net, hPositions] at hNet
    rw [hTallies]
    exact h.flat c hNet

theorem Reconciled.of_core (h : Reconciled b) (hCore : b'.core = b.core) : Reconciled b' := by
  have hSame := sameCore hCore
  exact h.congr hSame.positions hSame.realizedPnlToday hSame.tradePnls hSame.openTradePnl

theorem Reconciled.fill (h : Reconciled b) {c : ContractSymbol} {delta : ℤ} {price : ℚ}
    (hFilled : Filled b b' c delta price) (hTallied : Tallied b b' c false) : Reconciled b' := by
  refine reconciled_of_gap (hTallied.gap.trans h.gap) fun c' hFlat => ?_
  by_cases hc : c' = c
  · subst hc
    exact hTallied.closed rfl hFlat
  · rw [hFilled.booked.net, if_neg hc, add_zero] at hFlat
    rw [hTallied.others c' hc]
    exact h.flat c' hFlat

theorem fillOrder_reconciled (h : Reconciled b) (id : BrokerOrderId) (price : ℚ)
    (quantity : Option ℤ) : Reconciled ((fillOrder id price quantity).after b) := by
  cases hAccepted : b.acceptedFill id price quantity with
  | none =>
    obtain ⟨e, hError⟩ := fillOrder_refused hAccepted
    rwa [after_of_error hError]
  | some accepted =>
    obtain ⟨order, filled, actual⟩ := accepted
    obtain ⟨-, -, -, -, -, hPos, -⟩ := acceptedFill_eq_some.mp hAccepted
    obtain ⟨s, hCore, hApply⟩ := fillOrder_after_apply hAccepted
    have hCounted : Reconciled (b.withFilled id (filled + actual)) := ⟨h.balance, h.flat⟩
    refine Reconciled.of_core ?_ hCore
    rcases hApply with rfl | hApply
    · exact hCounted
    · exact hCounted.fill (applyFillToPosition_ok hPos hApply) (applyFill_tallied hPos hApply)

/-- Carrying the tally of a roll books nothing and leaves the front month without one. -/
theorem carryTally_gap (b : MockBroker) (front back : ContractSymbol) :
    ((carryTally front back).after b).ledgerGap = b.ledgerGap := by
  rw [carryTally, after_modify]
  dsimp only [ledgerGap]
  split
  · rename_i hZero
    rw [Dict.total_erase, ← getD_eq_elim, hZero, sub_zero]
  · rw [Dict.total_set, Dict.total_erase, ← getD_eq_elim, ← getD_eq_elim]
    ring

theorem carryTally_get (b : MockBroker) {front back c : ContractSymbol} (hBack : c ≠ back) :
    ((carryTally front back).after b).openTradePnl.get? c =
      if c = front then none else b.openTradePnl.get? c := by
  rw [carryTally, after_modify]
  dsimp only
  split
  · exact Dict.get?_erase ..
  · exact (Dict.get?_set_of_ne _ _ hBack).trans (Dict.get?_erase ..)

theorem rollPosition_reconciled (h : Reconciled b) {front back : ContractSymbol}
    {frontFill backFill : ℚ} (hKeeps : b.KeepsLedger (.roll front back frontFill backFill)) :
    Reconciled ((rollPosition front back frontFill backFill).after b) := by
  obtain ⟨hReturns, hOpposite⟩ := hKeeps
  rw [BrokerOp.perform, raised_forget] at hReturns
  by_cases hFlat : b.net front = 0
  · rwa [after_of_ok (rollPosition_flat hFlat)]
  have hOther := hOpposite.resolve_left hFlat
  by_cases hMult : (multiplierFor front).isOk
  · have hAbs : 0 < |b.net front| := abs_pos.mpr hFlat
    obtain ⟨s, hFrontApply, hFront, hRun⟩ := rollPosition_front back frontFill
      backFill hFlat hMult
    by_cases hTakes : s.TakesFill back (b.net front) backFill
    · obtain ⟨s', hBackApply, hBack⟩ := rollPosition_back front hFlat hTakes
      have hFrontTallied := applyFill_tallied hAbs hFrontApply
      have hBackTallied := applyFill_tallied hAbs hBackApply
      have hBackNet := (applyFillToPosition_ok hAbs hBackApply).booked.net
      rw [Side.signed_reopen] at hBackNet
      rw [after_of_ok (hRun.trans hBack)]
      refine reconciled_of_gap ?_ fun c hNet => ?_
      · rw [carryTally_gap, hBackTallied.gap, hFrontTallied.gap, h.gap]
      have hNet : s'.net c = 0 := hNet
      rw [hBackNet, hFront.booked.net] at hNet
      have hNotBack : c ≠ back := by
        rintro rfl
        rw [if_pos rfl] at hNet
        rcases hOther with hSame | hNotOpposite
        · rw [if_pos hSame, hSame] at hNet
          omega
        · split at hNet
          · rename_i hSame
            rw [hSame] at hNet
            omega
          · omega
      rw [carryTally_get s' hNotBack]
      split
      · rfl
      · rename_i hNotFront
        rw [if_neg hNotBack, if_neg hNotFront, add_zero, add_zero] at hNet
        rw [hBackTallied.others c hNotBack, hFrontTallied.others c hNotFront]
        exact h.flat c hNet
    · obtain ⟨e, s', -, hError⟩ := rollPosition_back_refused front hFlat hTakes
      rw [raised_of_error (hRun.trans hError)] at hReturns
      cases hReturns
  · obtain ⟨e, hError⟩ := rollPosition_refused back frontFill
      backFill hFlat hMult
    rwa [after_of_error hError]

theorem perform_reconciled (hConsistent : Consistent b) (h : Reconciled b) {op : BrokerOp}
    (hKeeps : b.KeepsLedger op) : Reconciled (op.perform.after b) := by
  cases op with
  | place order =>
    rw [BrokerOp.perform, after_forget]
    refine Reconciled.of_core ?_ (placeOrder_after order)
    split
    · exact ⟨h.balance, h.flat⟩
    · exact h
  | cancel id =>
    rw [BrokerOp.perform]
    rcases cancelOrder_cases hConsistent id with hSame | ⟨-, -, -, hCore⟩
    · rwa [hSame]
    · have hSame := sameCore hCore
      exact h.congr hSame.positions hSame.realizedPnlToday hSame.tradePnls hSame.openTradePnl
  | modify id limitPrice stopPrice quantity =>
    rw [BrokerOp.perform]
    rcases modifyOrder_cases hConsistent id limitPrice stopPrice quantity with
      hSame | ⟨-, newOrder, -, hCore⟩
    · rwa [hSame]
    · have hSame := sameCore hCore
      exact h.congr hSame.positions hSame.realizedPnlToday hSame.tradePnls hSame.openTradePnl
  | fill id price quantity =>
    rw [BrokerOp.perform, after_forget]
    exact fillOrder_reconciled h id price quantity
  | advance bar slippage =>
    rw [BrokerOp.perform, after_forget]
    exact advance_invariant Reconciled (fun id price s hs => fillOrder_reconciled hs id price none) h
  | roll front back frontFill backFill =>
    rw [BrokerOp.perform, after_forget]
    exact rollPosition_reconciled h hKeeps

end Calls

/-- With every contract flat, the booked trades are the whole realized result. -/
theorem Reconciled.all_booked {b : MockBroker} (h : Reconciled b) (hFlat : ∀ c, b.net c = 0) :
    b.tradePnls.sum = b.realizedPnlToday := by
  have hNone : ∀ c, b.openTradePnl.get? c = none := fun c => h.flat c (hFlat c)
  rw [← h.balance, Dict.total_of_empty hNone, add_zero]

/-- In every run whose rolls return and never end in a back month that held the exact opposite,
booked trades and open tallies are the realized result, and a flat contract has no tally. -/
theorem ledger_reconciles {config : BrokerConfig} {ops : List BrokerOp}
    (h : Follows BrokerOp.perform KeepsLedger (fresh config) ops) :
    let b := runAll BrokerOp.perform (fresh config) ops
    (b.tradePnls.sum + (b.openTradePnl.total fun _ tally => tally) = b.realizedPnlToday) ∧
      (∀ c, b.net c = 0 → b.openTradePnl.get? c = none) ∧
      ((∀ c, b.net c = 0) → b.tradePnls.sum = b.realizedPnlToday) := by
  intro b
  have hStart : Reconciled (fresh config) := by
    refine ⟨?_, fun c _ => rfl⟩
    simp [fresh]
  have hBoth : Consistent b ∧ Reconciled b :=
    follows_rule (fun s => Consistent s ∧ Reconciled s)
      (fun s op hs hKeeps => ⟨perform_consistent hs.1 op, perform_reconciled hs.1 hs.2 hKeeps⟩)
      ⟨(fresh_idle config).toConsistent, hStart⟩ h
  exact ⟨hBoth.2.balance, hBoth.2.flat, hBoth.2.all_booked⟩

def rolledBet : List BrokerOp :=
  [.place (.atMarket "ESM26" .buy 2 two_contracts (some "entry")), .fill ⟨1⟩ 5000 none,
    .place (.atMarket "ESM26" .sell 1 Int.one_pos (some "part")), .fill ⟨2⟩ 5004 none,
    .roll "ESM26" "ESU26" 5010 5030,
    .place (.atMarket "ESU26" .sell 1 Int.one_pos (some "exit")), .fill ⟨3⟩ 5025 none]

theorem ledger_reconciles_rolled_bet :
    let b := runAll BrokerOp.perform (fresh .steady) rolledBet
    b.tradePnls = [450] ∧
      b.tradePnls.sum + (b.openTradePnl.total fun _ tally => tally) = b.realizedPnlToday := by
  have hKeeps : Follows BrokerOp.perform KeepsLedger (fresh .steady) rolledBet := by decide +kernel
  exact ⟨by decide +kernel, (ledger_reconciles hKeeps).1⟩

/-- One contract bought, one of the next month sold, and the first rolled into the second. -/
def rolledFlat : List BrokerOp :=
  [.place (.atMarket "ESM26" .buy 1 Int.one_pos (some "near")), .fill ⟨1⟩ 5000 none,
    .place (.atMarket "ESU26" .sell 1 Int.one_pos (some "far")), .fill ⟨2⟩ 5005 none,
    .roll "ESM26" "ESU26" 5010 5010]

/-- A roll that ends flat leaves its result in a tally that is never booked. -/
theorem rolled_flat_unbooked :
    ¬∀ (config : BrokerConfig) (ops : List BrokerOp),
      Follows BrokerOp.perform (fun s op => op.perform.raised s = none) (fresh config) ops →
      let b := runAll BrokerOp.perform (fresh config) ops
      (b.tradePnls.sum + (b.openTradePnl.total fun _ tally => tally) = b.realizedPnlToday) ∧
        (∀ c, b.net c = 0 → b.openTradePnl.get? c = none) ∧
        ((∀ c, b.net c = 0) → b.tradePnls.sum = b.realizedPnlToday) := by
  intro hClaim
  obtain ⟨-, hFlat, -⟩ := hClaim .steady rolledFlat (by decide +kernel)
  have hNone := hFlat "ESU26" (by decide +kernel)
  have hTally : (runAll BrokerOp.perform (fresh .steady) rolledFlat).openTradePnl.get? "ESU26" =
      some 250 := by decide +kernel
  rw [hTally] at hNone
  cases hNone

end MockBroker

end Futur3.Execution
