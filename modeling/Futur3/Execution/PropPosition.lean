import Futur3.Execution.OpenQuantity
import Futur3.Execution.PropBroker

/-! # The positions of a prop account

Checked orders against the position cap, and the positions of a halted account. The
check reads the filled position only, so what it promises holds with the orders that
are still open counted in.
-/

namespace Futur3.Execution

open Data Prelude Method
open MockBroker (Covered OpenOrder)

namespace PropAwareMockBroker

/-- An order is placed when the check allows it. -/
def Gated (limits : PropLimits) (s : PropAwareMockBroker) : PropOp → Prop
  | .trade (.place order) =>
    (propTradeAllowed limits s.broker order.contract order.side order.quantity s.guard).1 = none
  | _ => True

abbrev capBound (limits : PropLimits) : ContractSymbol → Side → ℤ := fun _ _ => limits.maxContracts

/-- With the open orders of its side counted in, what the call adds stays within the cap. -/
def FitsCap (limits : PropLimits) (s : PropAwareMockBroker) : PropOp → Prop
  | .trade (.place order) =>
    s.broker.openQuantity order.contract order.side = 0 ∨
      s.broker.StaysCovered (capBound limits) (.place order)
  | .trade op => s.broker.StaysCovered (capBound limits) op
  | _ => True

instance (limits : PropLimits) (s : PropAwareMockBroker) : DecidablePred (s.Gated limits)
  | .trade (.place _) => inferInstanceAs (Decidable (_ = _))
  | .trade (.cancel _) => inferInstanceAs (Decidable True)
  | .trade (.modify ..) => inferInstanceAs (Decidable True)
  | .trade (.fill ..) => inferInstanceAs (Decidable True)
  | .trade (.advance ..) => inferInstanceAs (Decidable True)
  | .trade (.roll ..) => inferInstanceAs (Decidable True)
  | .poll => inferInstanceAs (Decidable True)
  | .check .. => inferInstanceAs (Decidable True)

instance (limits : PropLimits) (s : PropAwareMockBroker) : DecidablePred (s.FitsCap limits)
  | .trade (.place order) =>
    inferInstanceAs (Decidable (_ ∨ s.broker.StaysCovered (capBound limits) (.place order)))
  | .trade (.cancel id) =>
    inferInstanceAs (Decidable (s.broker.StaysCovered (capBound limits) (.cancel id)))
  | .trade (.modify id limitPrice stopPrice quantity) =>
    inferInstanceAs (Decidable (s.broker.StaysCovered (capBound limits)
      (.modify id limitPrice stopPrice quantity)))
  | .trade (.fill id price quantity) =>
    inferInstanceAs (Decidable (s.broker.StaysCovered (capBound limits) (.fill id price quantity)))
  | .trade (.advance bar slippage) =>
    inferInstanceAs (Decidable (s.broker.StaysCovered (capBound limits) (.advance bar slippage)))
  | .trade (.roll front back frontFill backFill) =>
    inferInstanceAs (Decidable (s.broker.StaysCovered (capBound limits)
      (.roll front back frontFill backFill)))
  | .poll => inferInstanceAs (Decidable True)
  | .check .. => inferInstanceAs (Decidable True)

section Check

variable {limits : PropLimits} {s : PropAwareMockBroker} {contract : ContractSymbol} {side : Side}
  {quantity : ℤ}

theorem allowed_within
    (h : (propTradeAllowed limits s.broker contract side quantity s.guard).1 = none) :
    s.broker.Reduces contract side quantity ∨
      |s.broker.net contract + side.signed quantity| ≤ limits.maxContracts := by
  by_contra hNot
  rw [not_or, not_le] at hNot
  obtain ⟨hIncreases, hOver⟩ := hNot
  revert h
  unfold propTradeAllowed
  cases s.broker.isTradeAllowed quantity with
  | some block => simp
  | none =>
    simp only [hIncreases, if_false, increasingBlockReason]
    cases s.guard.halted with
    | some halt => simp
    | none => simp [hOver]

theorem signed_add_le_abs (n : ℤ) : side.signed n + quantity ≤ |n + side.signed quantity| := by
  cases side with
  | buy => exact le_abs_self _
  | sell =>
    simp only [Side.signed_sell]
    have := neg_le_abs (n + -quantity)
    omega

end Check

/-! ## The position cap -/

theorem covered_perform {limits : PropLimits} {config : BrokerConfig}
    {s : PropAwareMockBroker} {op : PropOp} (hSettled : Settled config s)
    (h : Covered (capBound limits) s.broker) (hGated : s.Gated limits op)
    (hFits : s.FitsCap limits op) :
    Covered (capBound limits) ((op.perform limits).after s).broker := by
  cases op with
  | trade op =>
    rw [after_trade]
    refine MockBroker.Covered.perform h hSettled.consistent ?_
    cases op with
    | place order =>
      rcases hFits with hNone | hStays
      · right
        rw [MockBroker.exposure, hNone, add_zero]
        refine (signed_add_le_abs _).trans ?_
        rcases allowed_within hGated with hReduces | hWithin
        · exact hReduces.le.trans (MockBroker.abs_net_le (h order.contract))
        · exact hWithin
      · exact hStays
    | cancel id => exact hFits
    | modify id limitPrice stopPrice quantity => exact hFits
    | fill id price quantity => exact hFits
    | advance bar slippage => exact hFits
    | roll front back frontFill backFill => exact hFits
  | poll =>
    rw [after_poll]
    exact h
  | check contract side quantity =>
    rw [after_check]
    exact h

/-- In every run of checked orders where what is placed, raised by a modification or rolled fits
the cap together with the open orders of its side, every position stays within the cap. -/
theorem position_within_cap {setup : PropConfig} {ops : List PropOp}
    (h : Follows (PropOp.perform setup.limits)
      (fun s op => s.Gated setup.limits op ∧ s.FitsCap setup.limits op) (fresh setup) ops) :
    ∀ c, |(runAll (PropOp.perform setup.limits) (fresh setup) ops).broker.net c| ≤
      setup.limits.maxContracts := by
  have hStart : Covered (capBound setup.limits) (fresh setup).broker := by
    intro c side
    have hZero : (fresh setup).broker.exposure c side = 0 := by
      cases side <;> rfl
    rw [hZero]
    exact (zero_lt_one.trans_le setup.limits.max_pos).le
  have hBoth := follows_rule
    (fun s => Settled setup.config s ∧ Covered (capBound setup.limits) s.broker)
    (fun s op hs hOp => ⟨hs.1.perform op, covered_perform hs.1 hs.2 hOp.1 hOp.2⟩)
    ⟨fresh_settled setup, hStart⟩ h
  exact fun c => MockBroker.abs_net_le (hBoth.2 c)

def withinCap : List PropOp :=
  [.trade (.place (.atMarket "ESM26" .buy 2 two_contracts (some "in"))),
    .trade (.place (.atMarket "ESM26" .sell 1 Int.one_pos (some "hedge"))),
    .trade (.fill ⟨1⟩ 5000 (some 1)), .trade (.fill ⟨2⟩ 5004 none), .trade (.fill ⟨1⟩ 5001 none),
    .trade (.place (.atMarket "ESM26" .buy 1 Int.one_pos (some "more"))),
    .trade (.fill ⟨3⟩ 5002 none)]

theorem position_within_cap_two :
    let s := runAll (PropOp.perform smallAccount.limits) (fresh smallAccount) withinCap
    s.broker.net "ESM26" = 2 ∧ |s.broker.net "ESM26"| ≤ smallAccount.limits.maxContracts := by
  have hFits : Follows (PropOp.perform smallAccount.limits)
      (fun s op => s.Gated smallAccount.limits op ∧ s.FitsCap smallAccount.limits op)
      (fresh smallAccount) withinCap := by decide +kernel
  exact ⟨by decide +kernel, position_within_cap hFits "ESM26"⟩

/-- Two orders of two contracts each, both allowed before either is filled. -/
def stacked : List PropOp :=
  [.trade (.place (.atMarket "ESM26" .buy 2 two_contracts (some "one"))),
    .trade (.place (.atMarket "ESM26" .buy 2 two_contracts (some "two"))),
    .trade (.fill ⟨1⟩ 5000 none), .trade (.fill ⟨2⟩ 5000 none)]

/-- Orders that each fit the cap exceed it together. -/
theorem stacked_over_cap :
    ¬∀ (setup : PropConfig) (ops : List PropOp),
      Follows (PropOp.perform setup.limits) (fun s op => s.Gated setup.limits op) (fresh setup) ops →
      ∀ c, |(runAll (PropOp.perform setup.limits) (fresh setup) ops).broker.net c| ≤
        setup.limits.maxContracts := by
  intro hClaim
  have hOver : ¬|(runAll (PropOp.perform smallAccount.limits) (fresh smallAccount) stacked).broker.net
      "ESM26"| ≤ smallAccount.limits.maxContracts := by decide +kernel
  exact hOver (hClaim smallAccount stacked (by decide +kernel) "ESM26")

/-! ## Winding down -/

/-- A position shrinks towards zero and does not cross it. -/
def Shrinks (n n' : ℤ) : Prop := (0 ≤ n' ∧ n' ≤ n) ∨ (n ≤ n' ∧ n' ≤ 0)

instance (n n' : ℤ) : Decidable (Shrinks n n') := inferInstanceAs (Decidable (_ ∨ _))

theorem Shrinks.refl (n : ℤ) : Shrinks n n := by
  unfold Shrinks
  omega

theorem Shrinks.trans {n n' n'' : ℤ} (h : Shrinks n n') (h' : Shrinks n' n'') : Shrinks n n'' := by
  unfold Shrinks at *
  omega

/-- Checked placements, each while nothing of its contract is open, and fills. -/
def WindsDown (limits : PropLimits) (s : PropAwareMockBroker) : PropOp → Prop
  | .trade (.place order) =>
    (propTradeAllowed limits s.broker order.contract order.side order.quantity s.guard).1 = none ∧
      ∀ side ∈ [Side.buy, .sell], s.broker.openQuantity order.contract side = 0
  | .trade (.fill ..) => True
  | .trade (.advance ..) => True
  | .trade _ => False
  | _ => True

def FitsPosition (c : ContractSymbol) (s : PropAwareMockBroker) : PropOp → Prop
  | .trade (.place order) => order.contract = c → order.quantity ≤ |s.broker.net c|
  | _ => True

instance (limits : PropLimits) (s : PropAwareMockBroker) : DecidablePred (s.WindsDown limits)
  | .trade (.place _) => inferInstanceAs (Decidable (_ ∧ ∀ side ∈ _, _))
  | .trade (.cancel _) => inferInstanceAs (Decidable False)
  | .trade (.modify ..) => inferInstanceAs (Decidable False)
  | .trade (.fill ..) => inferInstanceAs (Decidable True)
  | .trade (.advance ..) => inferInstanceAs (Decidable True)
  | .trade (.roll ..) => inferInstanceAs (Decidable False)
  | .poll => inferInstanceAs (Decidable True)
  | .check .. => inferInstanceAs (Decidable True)

instance (c : ContractSymbol) (s : PropAwareMockBroker) : DecidablePred (s.FitsPosition c)
  | .trade (.place _) => inferInstanceAs (Decidable (_ → _))
  | .trade (.cancel _) => inferInstanceAs (Decidable True)
  | .trade (.modify ..) => inferInstanceAs (Decidable True)
  | .trade (.fill ..) => inferInstanceAs (Decidable True)
  | .trade (.advance ..) => inferInstanceAs (Decidable True)
  | .trade (.roll ..) => inferInstanceAs (Decidable True)
  | .poll => inferInstanceAs (Decidable True)
  | .check .. => inferInstanceAs (Decidable True)

/-- The open orders of a contract do not exceed the position they close. -/
def Closing (b : MockBroker) (c : ContractSymbol) : Prop :=
  ∀ side, b.openQuantity c side ≤ max 0 (-side.signed (b.net c))

section WindDown

variable {b b' : MockBroker} {c : ContractSymbol}

theorem Closing.move (h : Closing b c) {c' : ContractSymbol} {side : Side} {counted moved : ℤ}
    (hMove : MockBroker.FillMove b b' c' side counted moved) :
    Closing b' c ∧ Shrinks (b.net c) (b'.net c) := by
  have hNet := hMove.net c
  by_cases hc : c = c'
  · subst hc
    have hBuy := h .buy
    have hSell := h .sell
    have hBuy' := hMove.quantity c .buy
    have hSell' := hMove.quantity c .sell
    have hBuyNonneg := MockBroker.openQuantity_nonneg b' c .buy
    have hSellNonneg := MockBroker.openQuantity_nonneg b' c .sell
    have hNonneg := hMove.nonneg
    have hMoved := hMove.moved_eq
    simp only [if_true] at hNet
    rw [Side.signed_buy] at hBuy
    rw [Side.signed_sell] at hSell
    constructor
    · intro side'
      cases side <;> cases side' <;> simp at hNet hBuy' hSell' hSell ⊢ <;> omega
    · unfold Shrinks
      cases side <;> simp at hNet hBuy' hSell' hSell <;> omega
  · rw [if_neg hc, add_zero] at hNet
    refine ⟨fun side' => ?_, hNet ▸ Shrinks.refl _⟩
    rw [hMove.quantity, hNet, if_neg fun hBoth => hc hBoth.1, sub_zero]
    exact h side'

variable {limits : PropLimits} {config : BrokerConfig} {s : PropAwareMockBroker} {op : PropOp}

theorem Closing.advance (h : Closing b c) (bar : VerifiedBar) (slippage : Option SlippageModel) :
    Closing ((MockBroker.advance bar slippage).after b) c ∧
      Shrinks (b.net c) (((MockBroker.advance bar slippage).after b).net c) :=
  MockBroker.advance_invariant (fun t => Closing t c ∧ Shrinks (b.net c) (t.net c))
    (fun id price t ht => by
      obtain ⟨c', side, counted, moved, hMove⟩ := MockBroker.fillOrder_move (b := t) id price none
      obtain ⟨hClosing, hShrinks⟩ := ht.1.move hMove
      exact ⟨hClosing, ht.2.trans hShrinks⟩) ⟨h, Shrinks.refl _⟩

theorem halted_reduces {contract : ContractSymbol} {side : Side} {quantity : ℤ}
    (hHalted : s.guard.halted.isSome)
    (hAllowed : (propTradeAllowed limits s.broker contract side quantity s.guard).1 = none) :
    s.broker.Reduces contract side quantity := by
  by_contra hIncreases
  obtain ⟨halt, hHalt⟩ := Option.isSome_iff_exists.mp hHalted
  exact halted_blocks_increasing hHalt hIncreases hAllowed

theorem halted_after (hHalted : s.guard.halted.isSome) (op : PropOp) :
    ((op.perform limits).after s).guard.halted.isSome := by
  obtain ⟨halt, hHalt⟩ := Option.isSome_iff_exists.mp hHalted
  exact Option.isSome_iff_exists.mpr ⟨halt, halted_perform hHalt op⟩

/-- Whatever the size of the orders, no position grows beyond what it was. -/
theorem winds_down_covered {bound : ContractSymbol → ℤ} (hSettled : Settled config s)
    (hHalted : s.guard.halted.isSome) (h : Covered (fun c _ => bound c) s.broker)
    (hWinds : s.WindsDown limits op) :
    Covered (fun c _ => bound c) ((op.perform limits).after s).broker := by
  cases op with
  | trade op =>
    rw [after_trade]
    refine MockBroker.Covered.perform h hSettled.consistent ?_
    cases op with
    | place order =>
      obtain ⟨hAllowed, hNone⟩ := hWinds
      have hReduces := halted_reduces hHalted hAllowed
      right
      rw [MockBroker.exposure, hNone order.side (by cases order.side <;> simp), add_zero]
      exact (signed_add_le_abs _).trans
        (hReduces.le.trans (MockBroker.abs_net_le (h order.contract)))
    | fill => trivial
    | advance => trivial
    | cancel => exact hWinds.elim
    | modify => exact hWinds.elim
    | roll => exact hWinds.elim
  | poll =>
    rw [after_poll]
    exact h
  | check contract side quantity =>
    rw [after_check]
    exact h

/-- With orders no larger than the position they meet, the position only shrinks. -/
theorem winds_down_closing (hSettled : Settled config s) (hHalted : s.guard.halted.isSome)
    (h : Closing s.broker c) (hWinds : s.WindsDown limits op) (hFits : s.FitsPosition c op) :
    Closing ((op.perform limits).after s).broker c ∧
      Shrinks (s.broker.net c) (((op.perform limits).after s).broker.net c) := by
  cases op with
  | trade op =>
    rw [after_trade]
    cases op with
    | place order =>
      obtain ⟨hAllowed, hNone⟩ := hWinds
      have hReduces : |s.broker.net order.contract + order.side.signed order.quantity| <
        |s.broker.net order.contract| := halted_reduces hHalted hAllowed
      have hNet : ((BrokerOp.place order).perform.after s.broker).net c = s.broker.net c := by
        rw [BrokerOp.perform, after_forget, MockBroker.net_place]
      refine ⟨fun side => ?_, hNet ▸ Shrinks.refl _⟩
      rw [hNet, BrokerOp.perform, after_forget,
        MockBroker.openQuantity_place hSettled.consistent]
      split
      · rename_i hOwn
        obtain ⟨-, rfl, rfl⟩ := hOwn
        have hQuantity := hFits rfl
        have hPos := order.quantity_pos
        rw [hNone order.side (by cases order.side <;> simp), zero_add]
        cases hSide : order.side <;> simp only [hSide, Side.signed_buy, Side.signed_sell] at hReduces ⊢ <;>
          rcases abs_cases (s.broker.net order.contract) with ⟨hAbs, _⟩ | ⟨hAbs, _⟩ <;>
          rw [hAbs] at hReduces hQuantity <;> rw [abs_lt] at hReduces <;> omega
      · rw [add_zero]
        exact h side
    | fill id price quantity =>
      rw [BrokerOp.perform, after_forget]
      obtain ⟨c', side, counted, moved, hMove⟩ := MockBroker.fillOrder_move id price quantity
      exact h.move hMove
    | advance bar slippage =>
      rw [BrokerOp.perform, after_forget]
      exact h.advance bar slippage
    | cancel => exact hWinds.elim
    | modify => exact hWinds.elim
    | roll => exact hWinds.elim
  | poll =>
    rw [after_poll]
    exact ⟨h, Shrinks.refl _⟩
  | check contract side quantity =>
    rw [after_check]
    exact ⟨h, Shrinks.refl _⟩

end WindDown

/-- From every reachable halted state without open orders, however checked orders (each placed while
nothing of its contract is open) are filled: no position grows beyond what it was, and one that
meets no order larger than itself only shrinks, without crossing zero. -/
theorem halted_winds_down {setup : PropConfig} {history ops : List PropOp}
    {s : PropAwareMockBroker} (hs : s = runAll (PropOp.perform setup.limits) (fresh setup) history)
    (hHalted : s.guard.halted.isSome)
    (hIdle : ∀ id order filled, ¬OpenOrder s.broker id order filled)
    (h : Follows (PropOp.perform setup.limits) (WindsDown setup.limits) s ops) (c : ContractSymbol) :
    |(runAll (PropOp.perform setup.limits) s ops).broker.net c| ≤ |s.broker.net c| ∧
      (Follows (PropOp.perform setup.limits) (FitsPosition c) s ops →
        ∀ before after, ops = before ++ after →
          Shrinks ((runAll (PropOp.perform setup.limits) s before).broker.net c)
            ((runAll (PropOp.perform setup.limits) s ops).broker.net c)) := by
  have hSettled : Settled setup.config s := hs ▸ (fresh_settled setup).run setup.limits history
  have hNone : ∀ c side, s.broker.openQuantity c side = 0 := fun c side =>
    MockBroker.openQuantity_none hSettled.consistent
      fun id order filled hOpen => absurd hOpen (hIdle id order filled)
  constructor
  · have hStart : Covered (fun c _ => |s.broker.net c|) s.broker := by
      intro c side
      rw [MockBroker.exposure, hNone, add_zero]
      cases side with
      | buy => exact le_abs_self _
      | sell => exact neg_le_abs _
    have hEnd := follows_rule (fun t => Settled setup.config t ∧ t.guard.halted.isSome ∧
        Covered (fun c _ => |s.broker.net c|) t.broker)
      (fun t op ht hOp => ⟨ht.1.perform op, halted_after ht.2.1 op,
        winds_down_covered ht.1 ht.2.1 ht.2.2 hOp⟩) ⟨hSettled, hHalted, hStart⟩ h
    exact MockBroker.abs_net_le (hEnd.2.2 c)
  · rintro hFits before after rfl
    obtain ⟨hBefore, hAfter⟩ := (follows_append _ _ _).mp (h.both hFits)
    have hStart : Closing s.broker c := fun side => by
      rw [hNone]
      exact le_max_left _ _
    have hStep : ∀ n t op, (Settled setup.config t ∧ t.guard.halted.isSome ∧ Closing t.broker c ∧
        Shrinks n (t.broker.net c)) → (t.WindsDown setup.limits op ∧ t.FitsPosition c op) →
        let t' := (op.perform setup.limits).after t
        Settled setup.config t' ∧ t'.guard.halted.isSome ∧ Closing t'.broker c ∧
          Shrinks n (t'.broker.net c) := by
      rintro n t op ⟨htSettled, htHalted, htClosing, htShrinks⟩ ⟨hOp, hOpFits⟩
      obtain ⟨hClosing, hShrinks⟩ := winds_down_closing htSettled htHalted htClosing hOp hOpFits
      exact ⟨htSettled.perform op, halted_after htHalted op, hClosing, htShrinks.trans hShrinks⟩
    have hMid := follows_rule _ (hStep (s.broker.net c))
      ⟨hSettled, hHalted, hStart, Shrinks.refl _⟩ hBefore
    have hEnd := follows_rule _ (hStep _)
      ⟨hMid.1, hMid.2.1, hMid.2.2.1, Shrinks.refl _⟩ hAfter
    rw [runAll_append]
    exact hEnd.2.2.2

/-- A position of two, and a day's loss of 500 in another contract that halts the account. -/
def haltedHolding : List PropOp :=
  [.trade (.place (.atMarket "ESM26" .buy 2 two_contracts (some "hold"))), .trade (.fill ⟨1⟩ 5000 none),
    .trade (.place (.atMarket "ESU26" .buy 1 Int.one_pos (some "in"))), .trade (.fill ⟨2⟩ 5000 none),
    .trade (.place (.atMarket "ESU26" .sell 1 Int.one_pos (some "out"))),
    .trade (.fill ⟨3⟩ 4990 none), .check "ESU26" .buy 1]

def soldOut : List PropOp :=
  [.trade (.place (.atMarket "ESM26" .sell 2 two_contracts (some "exit"))),
    .trade (.fill ⟨4⟩ 5000 (some 1)), .trade (.fill ⟨4⟩ 5000 none)]

theorem haltedHolding_idle (id : BrokerOrderId) (order : Order) (filled : ℤ) :
    ¬OpenOrder (runAll (PropOp.perform smallAccount.limits) (fresh smallAccount)
      haltedHolding).broker id order filled := by
  rintro ⟨hOrder, -, hFilled, hLess⟩
  have hKeys : ∀ id' ∈ (runAll (PropOp.perform smallAccount.limits) (fresh smallAccount)
      haltedHolding).broker.orders.keys, ∀ order' ∈ (runAll (PropOp.perform smallAccount.limits)
      (fresh smallAccount) haltedHolding).broker.orders.get? id', ∀ filled' ∈ (runAll (PropOp.perform
      smallAccount.limits) (fresh smallAccount) haltedHolding).broker.filledQty.get? id',
      ¬filled' < order'.quantity := by decide +kernel
  exact hKeys id ((Dict.mem_keys_iff _ _).mpr ⟨order, hOrder⟩) order hOrder filled hFilled hLess

theorem halted_winds_down_sold_out :
    let s := runAll (PropOp.perform smallAccount.limits) (fresh smallAccount) haltedHolding
    s.broker.net "ESM26" = 2 ∧
      Shrinks (s.broker.net "ESM26")
        ((runAll (PropOp.perform smallAccount.limits) s soldOut).broker.net "ESM26") := by
  intro s
  have hWinds : Follows (PropOp.perform smallAccount.limits) (WindsDown smallAccount.limits) s
      soldOut := by decide +kernel
  have hFits : Follows (PropOp.perform smallAccount.limits) (FitsPosition "ESM26") s soldOut := by
    decide +kernel
  have hStart : s = runAll (PropOp.perform smallAccount.limits) (fresh smallAccount)
      haltedHolding := rfl
  exact ⟨by decide +kernel, (halted_winds_down hStart (by decide +kernel) haltedHolding_idle hWinds
    "ESM26").2 hFits [] soldOut rfl⟩

def PlacesOrFills (limits : PropLimits) (s : PropAwareMockBroker) : PropOp → Prop
  | .trade (.place order) =>
    (propTradeAllowed limits s.broker order.contract order.side order.quantity s.guard).1 = none
  | .trade (.fill ..) => True
  | _ => False

instance (limits : PropLimits) (s : PropAwareMockBroker) : DecidablePred (s.PlacesOrFills limits)
  | .trade (.place _) => inferInstanceAs (Decidable (_ = _))
  | .trade (.cancel _) => inferInstanceAs (Decidable False)
  | .trade (.modify ..) => inferInstanceAs (Decidable False)
  | .trade (.fill ..) => inferInstanceAs (Decidable True)
  | .trade (.advance ..) => inferInstanceAs (Decidable False)
  | .trade (.roll ..) => inferInstanceAs (Decidable False)
  | .poll => inferInstanceAs (Decidable False)
  | .check .. => inferInstanceAs (Decidable False)

def oversold : List PropOp :=
  [.trade (.place (.atMarket "ESM26" .sell 3 three_contracts (some "exit"))),
    .trade (.fill ⟨4⟩ 5000 none)]

/-- An order that shrinks the position by crossing zero is allowed on a halted account. -/
theorem oversold_crosses :
    ¬∀ (setup : PropConfig) (history ops : List PropOp),
      let s := runAll (PropOp.perform setup.limits) (fresh setup) history
      s.guard.halted.isSome → (∀ id order filled, ¬OpenOrder s.broker id order filled) →
      Follows (PropOp.perform setup.limits) (PlacesOrFills setup.limits) s ops → ∀ c before after,
        ops = before ++ after →
          Shrinks ((runAll (PropOp.perform setup.limits) s before).broker.net c)
            ((runAll (PropOp.perform setup.limits) s ops).broker.net c) := by
  intro hClaim
  have hCrossed : ¬Shrinks ((runAll (PropOp.perform smallAccount.limits) (fresh smallAccount)
      haltedHolding).broker.net "ESM26") ((runAll (PropOp.perform smallAccount.limits)
      (runAll (PropOp.perform smallAccount.limits) (fresh smallAccount) haltedHolding)
      oversold).broker.net "ESM26") := by decide +kernel
  exact hCrossed (hClaim smallAccount haltedHolding oversold (by decide +kernel) haltedHolding_idle
    (by decide +kernel) "ESM26" [] oversold rfl)

end PropAwareMockBroker

end Futur3.Execution
