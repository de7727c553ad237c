import Futur3.Execution.Atomicity
import Futur3.Execution.FixedSize
import Futur3.Execution.PropBroker
import Futur3.Execution.SizingOptimum
import Futur3.Prelude.Outcomes

/-! # Configured contracts

For a contract with a margin and a multiplier the sizers refuse a price only when it
is not positive, and so do the haircut and the fill of a market order.
-/

namespace Futur3.Execution

open Data Prelude Method

structure Configured (margins : MarginSource) (contract : ContractSymbol) : Prop where
  margin : ∃ root margin, contractRoot contract = .ok root ∧
    margins.initialMargin root = some margin ∧ 0 < margin
  multiplier : ∃ multiplier, multiplierFor contract = .ok multiplier

theorem Configured.isOk {margins : MarginSource} {contract : ContractSymbol}
    (h : Configured margins contract) : (multiplierFor contract).isOk :=
  MockBroker.isOk_iff.mpr h.multiplier

/-! ## Sizing -/

section Sizing

variable {params : RiskParams} {margins : MarginSource} {bootstrap : SurvivalBootstrap}

/-- A sizer that refuses a configured contract only for a price that is not positive. -/
structure RiskManager.Answers (risk : RiskManager) (margins : MarginSource) : Prop where
  sizes : ∀ contract fullKellyFraction accountEquity price returns seed,
    Configured margins contract → 0 < accountEquity → 0 < price →
    ∃ decision, risk.sizePosition contract fullKellyFraction accountEquity price returns seed =
      .ok decision
  refuses : ∀ contract fullKellyFraction accountEquity price returns seed,
    0 < accountEquity → price ≤ 0 →
    risk.sizePosition contract fullKellyFraction accountEquity price returns seed =
      .error (.price price)

theorem floorToInt_nonneg {value : ℚ} (h : 0 ≤ value) : 0 ≤ floorToInt value := by
  rw [floorToInt_of_nonneg h]
  exact Int.floor_nonneg.mpr h

theorem le_survivalSearch (survives : ℤ → Bool) (lo hi : ℤ) : lo ≤ survivalSearch survives lo hi := by
  induction lo, hi using survivalSearch.induct survives with
  | case1 lo hi hWide hMid ih =>
    rw [survivalSearch, if_pos hWide, if_pos hMid]
    omega
  | case2 lo hi hWide hMid ih =>
    rw [survivalSearch, if_pos hWide, if_neg hMid]
    exact ih
  | case3 lo hi hNarrow => rw [survivalSearch, if_neg hNarrow]

theorem survivalCap_nonneg {base : ℤ} (hBase : 0 ≤ base) (returns : List ℚ)
    (notional accountEquity : ℚ) (seed : Option ℤ) :
    0 ≤ survivalCap params bootstrap returns base notional accountEquity seed := by
  unfold survivalCap
  split
  · exact hBase
  · extract_lets survives
    split
    · exact hBase
    · exact le_survivalSearch survives 0 base

theorem survivalContracts_nonneg (base : ℤ) (notional accountEquity : ℚ)
    (returns : Option (List ℚ)) (seed : Option ℤ) :
    ∀ n ∈ survivalContracts params bootstrap base notional accountEquity returns seed, 0 ≤ n := by
  intro n hn
  unfold survivalContracts at hn
  split at hn
  · rename_i hBase
    obtain ⟨rs, -, rfl⟩ := Option.mem_map.mp hn
    exact survivalCap_nonneg hBase.le rs notional accountEquity seed
  · cases hn

/-- The candidates of a decision, as the sizers combine them. -/
structure SizingDecision.Nonneg (decision : SizingDecision) : Prop where
  margin : 0 ≤ decision.marginContracts
  leverage : 0 ≤ decision.leverageContracts
  survival : ∀ n ∈ decision.survivalContracts, 0 ≤ n

theorem SizingDecision.create_returns {contracts : ℤ} (h : 0 ≤ contracts)
    (constraint : BindingConstraint) (kelly margin leverage : ℤ) (notional marginPer : ℚ)
    (survival : Option ℤ) :
    ∃ decision, SizingDecision.create contracts constraint kelly margin leverage notional marginPer
        survival = .ok decision ∧
      decision.marginContracts = margin ∧ decision.leverageContracts = leverage ∧
      decision.survivalContracts = survival := by
  unfold SizingDecision.create
  rw [dif_neg (not_lt.mpr h)]
  exact ⟨_, rfl, rfl, rfl, rfl⟩

theorem min_elim_nonneg {m : ℤ} {survival : Option ℤ} (hm : 0 ≤ m) (h : ∀ n ∈ survival, 0 ≤ n) :
    0 ≤ survival.elim m (min m) := by
  cases survival with
  | none => exact hm
  | some n => exact le_min hm (h n rfl)

/-- The gate on inputs it accepts, without an edge. -/
theorem sizePosition_noEdge {contract : ContractSymbol} {root : String}
    {margin multiplier fullKellyFraction accountEquity price : ℚ}
    (hRoot : contractRoot contract = .ok root) (hMargin : margins.initialMargin root = some margin)
    (hMultiplier : multiplierFor contract = .ok multiplier) (hMarginPos : 0 < margin)
    (hEquity : 0 < accountEquity) (hPrice : 0 < price) (hKelly : fullKellyFraction ≤ 0)
    (returns : Option (List ℚ)) (seed : Option ℤ) :
    (RiskManager.base params margins bootstrap).sizePosition contract fullKellyFraction
        accountEquity price returns seed =
      SizingDecision.create 0 .noEdge 0
        (floorToInt (accountEquity * params.marginBudgetPct / margin))
        (floorToInt (accountEquity * params.leverageCap / (price * multiplier)))
        (price * multiplier) margin none := by
  simp only [RiskManager.base, not_le.mpr hEquity, not_le.mpr hPrice, if_false, hRoot, hMultiplier,
    bind, Except.bind, hMargin, Option.elim_some, pure, Except.pure, hMarginPos.ne', hKelly, if_true]

theorem base_sizes {contract : ContractSymbol} {accountEquity price : ℚ}
    (h : Configured margins contract) (hEquity : 0 < accountEquity) (hPrice : 0 < price)
    (fullKellyFraction : ℚ) (returns : Option (List ℚ)) (seed : Option ℤ) :
    ∃ decision, (RiskManager.base params margins bootstrap).sizePosition contract fullKellyFraction
      accountEquity price returns seed = .ok decision ∧ decision.Nonneg := by
  obtain ⟨root, margin, hRoot, hMargin, hMarginPos⟩ := h.margin
  obtain ⟨multiplier, hMultiplier⟩ := h.multiplier
  have hNotional : 0 < price * multiplier := mul_pos hPrice (multiplierFor_pos hMultiplier)
  have hByMargin : 0 ≤ floorToInt (accountEquity * params.marginBudgetPct / margin) :=
    floorToInt_nonneg (div_nonneg (mul_pos hEquity params.margin_pos).le hMarginPos.le)
  have hLeverage : 0 ≤ floorToInt (accountEquity * params.leverageCap / (price * multiplier)) :=
    floorToInt_nonneg (div_nonneg (mul_pos hEquity params.leverage_pos).le hNotional.le)
  by_cases hKelly : 0 < fullKellyFraction
  · have hRun := sizePosition_eq params bootstrap hRoot hMargin hMultiplier hMarginPos hEquity hPrice
      hKelly returns seed
    extract_lets notional kelly byMargin leverage survival at hRun
    have hKellyCap : 0 ≤ kelly := floorToInt_nonneg
      (div_nonneg (mul_pos (mul_pos hKelly params.kelly_pos) hEquity).le hNotional.le)
    have hSurvival : ∀ n ∈ survival, 0 ≤ n := survivalContracts_nonneg _ notional accountEquity
      returns seed
    have hSmallest : 0 ≤ smallest kelly byMargin leverage survival :=
      min_elim_nonneg (le_min (le_min hKellyCap hByMargin) hLeverage) hSurvival
    obtain ⟨decision, hCreate, hM, hL, hS⟩ := SizingDecision.create_returns hSmallest
      (binding kelly byMargin leverage survival) kelly byMargin leverage notional margin survival
    rw [hRun]
    exact ⟨decision, hCreate, hM ▸ hByMargin, hL ▸ hLeverage, hS ▸ hSurvival⟩
  · rw [sizePosition_noEdge hRoot hMargin hMultiplier hMarginPos hEquity hPrice (not_lt.mp hKelly)]
    obtain ⟨decision, hCreate, hM, hL, hS⟩ := SizingDecision.create_returns le_rfl .noEdge 0 _ _ _ _
      none
    refine ⟨decision, hCreate, hM ▸ hByMargin, hL ▸ hLeverage, ?_⟩
    rw [hS]
    simp

theorem base_answers : (RiskManager.base params margins bootstrap).Answers margins where
  sizes contract fullKellyFraction accountEquity price returns seed hContract hEquity hPrice := by
    obtain ⟨decision, hSized, -⟩ := base_sizes hContract hEquity hPrice fullKellyFraction returns seed
    exact ⟨decision, hSized⟩
  refuses contract fullKellyFraction accountEquity price returns seed hEquity hPrice := by
    simp only [RiskManager.base, not_le.mpr hEquity, if_false, hPrice, if_true]
    rfl

theorem fixedSize_answers (fixed : FixedSize) :
    (RiskManager.fixedSize fixed params margins bootstrap).Answers margins where
  sizes contract fullKellyFraction accountEquity price returns seed hContract hEquity hPrice := by
    obtain ⟨base, hSized, hNonneg⟩ := @base_sizes params margins bootstrap contract accountEquity price
      hContract hEquity hPrice fullKellyFraction returns seed
    simp only [RiskManager.fixedSize, hSized, bind, Except.bind]
    split
    · exact ⟨base, rfl⟩
    · have hFixed : 0 ≤ fixed.contracts := zero_le_one.trans fixed.contracts_pos
      have hAffordable := min_elim_nonneg (le_min hNonneg.margin hNonneg.leverage) hNonneg.survival
      obtain ⟨decision, hCreate, -⟩ := SizingDecision.create_returns (le_min hFixed hAffordable)
        base.bindingConstraint base.kellyContracts base.marginContracts base.leverageContracts
        base.notionalPerContract base.marginPerContract base.survivalContracts
      exact ⟨decision, hCreate⟩
  refuses contract fullKellyFraction accountEquity price returns seed hEquity hPrice := by
    simp only [RiskManager.fixedSize, base_answers.refuses contract fullKellyFraction accountEquity
      price returns seed hEquity hPrice]
    rfl

end Sizing

/-! ## Slippage -/

def haircut (band : Option SlippageBand) (contract : ContractSymbol) : ℚ :=
  match band, tickSizeFor contract with
  | some band, .ok tick => tick * band.ticksPerSide
  | _, _ => 0

theorem SlippageBand.ticksPerSide_nonneg (band : SlippageBand) : 0 ≤ band.ticksPerSide := by
  cases band <;> norm_num [ticksPerSide]

theorem tickSizeFor_pos {contract : ContractSymbol} {tick : ℚ} (h : tickSizeFor contract = .ok tick) :
    0 < tick := by
  have hTable : ∀ row ∈ contractTickSize, 0 < row.2 := by
    simp [contractTickSize]
  unfold tickSizeFor at h
  split at h
  · cases h
  · split at h
    · rename_i root _ value hLookup
      cases h
      exact lookup_pos hTable hLookup
    · cases h

theorem haircut_nonneg (band : Option SlippageBand) (contract : ContractSymbol) :
    0 ≤ haircut band contract := by
  unfold haircut
  split
  · rename_i band tick hTick
    exact mul_nonneg (tickSizeFor_pos hTick).le band.ticksPerSide_nonneg
  · exact le_rfl

/-- Every root with a multiplier has a tick size. -/
theorem tickSizeFor_of_multiplier {contract : ContractSymbol} {multiplier : ℚ}
    (h : multiplierFor contract = .ok multiplier) : ∃ tick, tickSizeFor contract = .ok tick := by
  have hTables : ∀ row ∈ contractMultiplier, (Dict.lookup row.1 contractTickSize).isSome := by
    decide +kernel
  unfold multiplierFor contractRoot at h
  unfold tickSizeFor
  cases hRoot : symbolRoot? contract with
  | none => simp [hRoot, except_bind_ok_iff, except_throw_ok_iff] at h
  | some root =>
    cases hLookup : Dict.lookup root contractMultiplier with
    | none => simp [hRoot, hLookup, except_throw_ok_iff] at h
    | some value =>
      obtain ⟨tick, hTick⟩ := Option.isSome_iff_exists.mp
        (hTables (root, value) (Dict.mem_of_lookup hLookup))
      simp only [hTick]
      exact ⟨tick, rfl⟩

namespace MockBroker

/-- A market order at the open: the haircut refuses an open that is not positive, and the executed
price is positive or the open less the haircut. -/
theorem slipped_open {margins : MarginSource} (band : Option SlippageBand) {order : Order}
    (bar : VerifiedBar) (hType : order.orderType = .mkt) (h : Configured margins order.contract) :
    (bar.openPrice ≤ 0 ∧ slipped (band.map .tickHaircut) order bar bar.openPrice =
        .error (.intendedPrice bar.openPrice)) ∨
      ∃ price, slipped (band.map .tickHaircut) order bar bar.openPrice = .ok price ∧
        (0 < price ∨ price = bar.openPrice - haircut band order.contract) := by
  cases band with
  | none =>
    have hHaircut : haircut none order.contract = 0 := by simp [haircut]
    exact .inr ⟨bar.openPrice, rfl, .inr (by rw [hHaircut, sub_zero])⟩
  | some band =>
    obtain ⟨multiplier, hMultiplier⟩ := h.multiplier
    obtain ⟨tick, hTick⟩ := tickSizeFor_of_multiplier hMultiplier
    have hHaircut : haircut (some band) order.contract = tick * band.ticksPerSide := by
      simp only [haircut, hTick]
    have hNonneg := haircut_nonneg (some band) order.contract
    by_cases hOpen : bar.openPrice ≤ 0
    · refine .inl ⟨hOpen, ?_⟩
      simp only [slipped, Option.map_some, hType, SlippageModel.tickHaircut, hOpen, if_true, true_or]
      rfl
    · have hRun : slipped ((some band).map .tickHaircut) order bar bar.openPrice =
          .ok (if order.side = .buy then bar.openPrice + tick * band.ticksPerSide
            else bar.openPrice - tick * band.ticksPerSide) := by
        simp only [slipped, Option.map_some, hType, SlippageModel.tickHaircut, hOpen, if_true,
          true_or, if_false, not_le.mpr order.quantity_pos, bar.ts_aware, hTick]
        rfl
      refine .inr ⟨_, hRun, ?_⟩
      rw [hHaircut] at hNonneg ⊢
      split
      · exact .inl (add_pos_of_pos_of_nonneg (not_le.mp hOpen) hNonneg)
      · exact .inr rfl

/-! ## A broker of configured contracts -/

structure ServesMarket (config : BrokerConfig) : Prop where
  clock : ∀ read, (config.clockNow read).utcoffset = some 0
  supported : .mkt ∈ config.restrictSupportedTo.getD OrderType.all

/-- Every order is a market order, and orders and positions are of configured contracts. -/
structure Ready (margins : MarginSource) (b : MockBroker) : Prop extends Consistent b where
  serves : ServesMarket b.config
  ordered : ∀ id order, b.orders.get? id = some order →
    order.orderType = .mkt ∧ Configured margins order.contract
  counted : b.Counted
  held : ∀ c p, b.positions.get? c = some p → Configured margins c

section Ready

variable {margins : MarginSource} {b b' : MockBroker}

theorem fresh_ready {config : BrokerConfig} (margins : MarginSource) (h : ServesMarket config) :
    Ready margins (fresh config) where
  toConsistent := (fresh_idle config).toConsistent
  serves := h
  ordered id order h := by simp [fresh] at h
  counted := by simp [Counted, fresh]
  held c p h := by simp [fresh] at h

theorem held_book {c : ContractSymbol} {delta : ℤ} {price : ℚ}
    (h : ∀ c p, b.positions.get? c = some p → Configured margins c) (hContract : Configured margins c)
    (hBook : BookedFill b b' c delta price) :
    ∀ c p, b'.positions.get? c = some p → Configured margins c := by
  obtain ⟨p, gained, hSet, -⟩ := hBook
  intro c' p' hGet
  rw [hSet, Dict.get?_set] at hGet
  split at hGet
  · rename_i hc
    exact hc ▸ hContract
  · exact h c' p' hGet

theorem Ready.place {order : Order} {id : BrokerOrderId} (h : Ready margins b)
    (hPlaced : Placed b b' order id) (hType : order.orderType = .mkt)
    (hContract : Configured margins order.contract) : Ready margins b' where
  toConsistent := h.toConsistent.place hPlaced
  serves := hPlaced.config ▸ h.serves
  ordered id' order' hGet := by
    rw [hPlaced.orders, Dict.get?_set] at hGet
    split at hGet
    · cases hGet
      exact ⟨hType, hContract⟩
    · exact h.ordered id' order' hGet
  counted := h.counted.set le_rfl hPlaced.filledQty
  held := hPlaced.positions ▸ h.held

theorem Ready.fill {id : BrokerOrderId} {order : Order} {filled actual : ℤ} {price : ℚ}
    {e : OrderEvent} (h : Ready margins b) (hFill : FillStep b b' id order filled actual price e) :
    Ready margins b' where
  toConsistent := h.toConsistent.fill hFill
  serves := hFill.config ▸ h.serves
  ordered := hFill.orders ▸ h.ordered
  counted := h.counted.set
    (add_nonneg (h.counted id filled hFill.filled_found) hFill.actual_pos.le) hFill.filledQty
  held := held_book h.held (h.ordered id order hFill.order_found).2 hFill.booked

theorem Ready.roll {front back : ContractSymbol} {frontFill backFill : ℚ} (h : Ready margins b)
    (hRolled : Rolled b b' front back frontFill backFill) (hFront : Configured margins front)
    (hBack : Configured margins back) : Ready margins b' where
  toConsistent := h.toConsistent.roll hRolled
  serves := hRolled.config ▸ h.serves
  ordered := hRolled.orders ▸ h.ordered
  counted := by
    intro id filled hGet
    exact h.counted id filled (hRolled.filledQty ▸ hGet)
  held := by
    obtain ⟨b₁, hFirst, hSecond⟩ := hRolled.legs
    exact held_book (held_book h.held hFront hFirst) hBack hSecond

/-- What a position is held in is configured. -/
theorem Ready.configured_of_net (h : Ready margins b) {c : ContractSymbol} (hNet : b.net c ≠ 0) :
    Configured margins c := by
  cases hGet : b.positions.get? c with
  | none => exact absurd (by simp [net, hGet]) hNet
  | some p => exact h.held c p hGet

theorem Ready.clockUtc (h : Ready margins b) (read : ℕ) : b.ClockUtc read := h.serves.clock _

/-! ### Orders and rolls return -/

theorem placeOrder_returns {order : Order} (hSupported : order.orderType ∈ b.supportedOrderTypes)
    (hClock : ∀ read, (b.config.clockNow read).utcoffset = some 0) :
    ∃ id b', placeOrder order b = .ok id b' := by
  have hQuantity := order.quantity_pos.le
  obtain ⟨submitted, hSubmitted, -⟩ := @emitEvent_utc (b.withOrder order) ⟨b.nextOrderIdSeq + 1⟩
    (clientId order (anonymousId (b.nextOrderIdSeq + 1))) order.contract .submitted none none 0
    order.quantity (hClock _) le_rfl hQuantity (by simp)
  have hAck := fun s (hs : s.ClockUtc 0) => @emitEvent_utc s ⟨b.nextOrderIdSeq + 1⟩
    (clientId order (anonymousId (b.nextOrderIdSeq + 1))) order.contract .ack none none 0
    order.quantity hs le_rfl hQuantity (by simp)
  obtain ⟨ack, hAck, -⟩ := hAck
    { b.withOrder order with
        clockReads := (b.withOrder order).clockReads + 1
        events := (b.withOrder order).events ++ [submitted] } (hClock _)
  rw [placeOrder_accepted hSupported]
  dsimp only
  rw [bind_of_ok hSubmitted, bind_of_ok hAck]
  exact ⟨_, _, rfl⟩

theorem ends_placeOrder {order : Order} {F : Raised → Prop} (h : Ready margins b)
    (hType : order.orderType = .mkt) (hContract : Configured margins order.contract) :
    Ends (placeOrder order) b (fun _ b' => Ready margins b') F := by
  obtain ⟨id, b', hRun⟩ := placeOrder_returns (hType ▸ h.serves.supported) h.serves.clock
  exact .of_ok hRun (h.place (placeOrder_ok hRun) hType hContract)

theorem ends_rollPosition {front back : ContractSymbol} {backFill : ℚ} {F : Raised → Prop}
    (h : Ready margins b) (hBack : Configured margins back) (hPrice : 0 < backFill)
    (frontFill : ℚ) :
    Ends (rollPosition front back frontFill backFill) b (fun _ b' => Ready margins b') F := by
  by_cases hFlat : b.net front = 0
  · exact .of_ok (rollPosition_flat hFlat) h
  have hFront := h.configured_of_net hFlat
  obtain ⟨s, -, -, hFirst⟩ := rollPosition_front back frontFill backFill hFlat hFront.isOk
  have hTakes : s.TakesFill back (b.net front) backFill :=
    (takesFill_of_pos hFlat hPrice).mpr (.inl hBack.isOk)
  obtain ⟨s', -, hSecond⟩ := rollPosition_back front hFlat hTakes
  have hRun := hFirst.trans hSecond
  rcases (rollPosition_ok hRun).2 with ⟨hZero, -⟩ | ⟨-, hRolled⟩
  · exact absurd hZero hFlat
  · exact .of_ok hRun (h.roll hRolled hFront hBack)

/-! ### The fills of a bar -/

inductive OpenRefused (band : Option SlippageBand) (bar : VerifiedBar) : Raised → Prop
  | intended (h : bar.openPrice ≤ 0) :
      OpenRefused band bar (.slippage (.intendedPrice bar.openPrice))
  | fill (h : bar.openPrice - haircut band bar.contract ≤ 0) :
      OpenRefused band bar (.broker (.fillPrice (bar.openPrice - haircut band bar.contract)))

theorem fillOrder_price {id : BrokerOrderId} {order : Order} {price : ℚ}
    (hOrder : b.orders.get? id = some order) (hOpen : id ∉ b.cancelled) (hPrice : price ≤ 0)
    (quantity : Option ℤ) : fillOrder id price quantity b = .error (.broker (.fillPrice price)) b := by
  rw [fillOrder, bind_of_ok (lookupOrder_ok_iff.mpr ⟨hOrder, rfl⟩), get_bind, if_neg hOpen]
  dsimp only
  rw [guard_raises hPrice]

/-- A turn of the bar loop over the orders of a ready broker. -/
theorem ends_advanceOrder {band : Option SlippageBand} {bar : VerifiedBar} {id : BrokerOrderId}
    {order : Order} (h : Ready margins b) (hOrder : b.orders.get? id = some order) :
    Ends (advanceOrder bar (band.map .tickHaircut) id) b
      (fun _ b' => Ready margins b' ∧ b'.orders = b.orders) (OpenRefused band bar) := by
  obtain ⟨filled, hFilled⟩ := h.tracked id order hOrder
  cases hDue : b.dueFill bar id with
  | none => exact .of_ok (advanceOrder_idle _ hOrder hFilled hDue) ⟨h, rfl⟩
  | some due =>
    obtain ⟨order', remaining, intended⟩ := due
    obtain ⟨hOrder', -, hOpen, hContract, -, hIntended⟩ := dueFill_eq_some.mp hDue
    obtain ⟨hType, hConfigured⟩ := h.ordered id order' hOrder'
    -- a market order is due at the open
    obtain rfl : bar.openPrice = intended := by
      simpa [backtestFillPrice, hType, except_pure_ok_iff] using hIntended
    rcases slipped_open band bar hType hConfigured with ⟨hLow, hSlipped⟩ | ⟨price, hSlipped, hPrice⟩
    · have hTurn : advanceOrder bar (band.map .tickHaircut) id b =
          .error (.slippage (.intendedPrice bar.openPrice)) b := by
        rw [advanceOrder_due hDue, hSlipped]
        rfl
      exact .of_error hTurn (.intended hLow)
    have hTurn : advanceOrder bar (band.map .tickHaircut) id b =
        (fillOrder id price none >>= fun event => pure [event] : BrokerM (List OrderEvent)) b := by
      rw [advanceOrder_due hDue, hSlipped]
      rfl
    by_cases hPos : 0 < price
    · have hAccepted := acceptedFill_due hDue hPos
      obtain ⟨e, s, -, -, hFill⟩ := fillOrder_returns hAccepted
        (h.counted id _ (dueFill_eq_some.mp hDue).2.1) (h.clockUtc 0) (.inl hConfigured.isOk)
      have hStep := fillOrder_step hAccepted hFill
      exact .of_ok (hTurn.trans (bind_of_ok hFill)) ⟨h.fill hStep, hStep.orders⟩
    · obtain rfl := hPrice.resolve_left hPos
      have hRefused := fillOrder_price hOrder' hOpen (not_lt.mp hPos) none
      refine .of_error (hTurn.trans (bind_of_error hRefused)) ?_
      rw [hContract] at hPos ⊢
      exact .fill (not_lt.mp hPos)

/-- The fills of a bar go through, or a price guard refuses the open. -/
theorem ends_advance (h : Ready margins b) (band : Option SlippageBand) (bar : VerifiedBar) :
    Ends (advance bar (band.map .tickHaircut)) b (fun _ b' => Ready margins b')
      (OpenRefused band bar) := by
  apply ends_get_bind
  have hLoop : Ends (each (advanceOrder bar (band.map .tickHaircut)) b.orders.keys) b
      (fun _ s => Ready margins s ∧ s.orders = b.orders)
      (fun e => ∃ id ∈ b.orders.keys, OpenRefused band bar e) := by
    refine ends_each ?_ ⟨h, rfl⟩
    rintro id hKey s ⟨hs, hOrders⟩
    obtain ⟨order, hOrder⟩ := (Dict.mem_keys_iff _ _).mp hKey
    rw [← hOrders] at hOrder ⊢
    exact ends_advanceOrder hs hOrder
  have hLoop := hLoop.weaken fun e ⟨_, _, he⟩ => he
  apply ends_bind hLoop
  rintro fills s ⟨hs, -⟩
  exact ends_pure hs

end Ready

end MockBroker

end Futur3.Execution
