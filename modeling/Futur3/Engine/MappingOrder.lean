import Futur3.Engine.PortfolioTarget
import Futur3.Prelude.StableSort
import Futur3.Prelude.TwoRuns

/-! # The order of the mappings

Neither the order of the streams in the histories nor that of the legs in the
signals is seen by a portfolio run. Two runs are walked side by side: their states
differ in the order of the history at most, and they place the same legs in the
same order.
-/

namespace Futur3.Engine

open Data Execution Prelude Method Selection

/-! ## The date axis -/

/-- The entries of a dictionary that count for one key are its entry of that key. -/
theorem flatMap_items_of_key {κ ν α : Type} [DecidableEq κ] {f : κ × ν → List α} {k : κ}
    (h : ∀ p : κ × ν, p.1 ≠ k → f p = []) (d : Dict κ ν) :
    d.items.flatMap f = (d.get? k).elim [] fun v => f (k, v) := by
  obtain ⟨items, hKeys⟩ := d
  change items.flatMap f = (Dict.lookup k items).elim [] fun v => f (k, v)
  induction items with
  | nil => rfl
  | cons p rest ih =>
    obtain ⟨hp, hRest⟩ := List.nodup_cons.mp hKeys
    rw [List.flatMap_cons, Dict.lookup]
    by_cases hk : p.1 = k
    · -- no later entry has this key
      have hLater : rest.flatMap f = [] := by
        apply List.flatMap_eq_nil_iff.mpr
        intro q hq
        apply h
        intro hEq
        exact hp (List.mem_map.mpr ⟨q, hq, hEq.trans hk.symm⟩)
      rw [if_pos hk, hLater, List.append_nil, Option.elim_some, ← hk]
    · rw [if_neg hk, h p hk, List.nil_append, ih hRest]

theorem indexed_reordered {histories histories' : Dict ContractSymbol (List VerifiedBar)}
    (h : histories.Reordered histories') : indexed histories = indexed histories' := by
  unfold indexed
  rw [sortBy_eq_iff]
  intro k
  have hOther : ∀ p : ContractSymbol × List VerifiedBar, p.1 ≠ (ofLex k).2 →
      ofKey (fun q : StreamBar => toLex (q.2.ts.date, q.1)) k (p.2.map fun bar => (p.1, bar)) = [] := by
    intro p hp
    apply List.eq_nil_iff_forall_not_mem.mpr
    intro q hq
    obtain ⟨hMem, rfl⟩ := mem_ofKey.mp hq
    obtain ⟨bar, -, rfl⟩ := List.mem_map.mp hMem
    exact hp rfl
  rw [ofKey_flatMap, ofKey_flatMap, flatMap_items_of_key hOther, flatMap_items_of_key hOther,
    h.get?_eq]

/-! ## The legs -/

/-- Strategies that see no order: from the same histories in any order, the same signals in any
order, for contracts that are all different. -/
structure OrderFree {σ : Type} (st st' : CrossSectionalStrategy σ) : Prop where
  alike : ∀ history history' memory, history.Reordered history' →
    BothExcept (fun out out' => out.1.Reordered out'.1 ∧ out.2 = out'.2)
      (st.generateSignals history memory) (st'.generateSignals history' memory)
  distinct : ∀ history memory signals memory',
    st.generateSignals history memory = .ok (signals, memory') →
    (signals.values.map Signal.contract).Nodup

theorem distinct_of_keyed {signals : Dict ContractSymbol Signal}
    (h : ∀ key signal, signals.get? key = some signal → signal.contract = key) :
    (signals.values.map Signal.contract).Nodup := by
  have hKeys : signals.values.map Signal.contract = signals.keys := by
    rw [Dict.values, Dict.keys, List.map_map]
    apply List.map_congr_left
    intro p hp
    exact h p.1 p.2 ((signals.mem_items_iff p.1 p.2).mp hp)
  rw [hKeys]
  exact signals.keys_nodup

theorem legs_reordered {signals signals' : Dict ContractSymbol Signal}
    (h : signals.Reordered signals') (hDistinct : (signals.values.map Signal.contract).Nodup) :
    legs signals = legs signals' := by
  apply sortBy_eq_of_perm h
  rw [Dict.values, List.map_map] at hDistinct
  exact hDistinct

namespace PortfolioBacktestEngine

variable {σ ρ : Type} {e : PortfolioBacktestEngine σ ρ}

def SameWeights (weights weights' : Option (Dict ContractSymbol ℚ)) : Prop :=
  Option.Rel Dict.Reordered weights weights'

theorem legReturns_reordered {history history' : Dict ContractSymbol (List VerifiedBar)}
    (h : history.Reordered history') : e.legReturns history = e.legReturns history' := by
  funext key
  unfold legReturns
  rw [h.get?_eq]

theorem map_fst_of_legReturns {history : Dict ContractSymbol (List VerifiedBar)}
    {keys : List ContractSymbol} {returns : List (ContractSymbol × List ℚ)}
    (h : keys.mapM (e.legReturns history) = .ok returns) : returns.map Prod.fst = keys := by
  have hKey : ∀ key leg, e.legReturns history key = .ok leg → leg.1 = key := by
    intro key leg hLeg
    unfold legReturns at hLeg
    split at hLeg
    · cases hLeg
    · simp only [except_bind_ok_iff, except_pure_ok_iff] at hLeg
      obtain ⟨_, -, rfl⟩ := hLeg
      rfl
  rw [except_mapM_ok_iff] at h
  induction keys generalizing returns with
  | nil =>
    rw [List.map_nil, eq_comm, List.map_eq_nil_iff] at h
    rw [h]
    rfl
  | cons key rest ih =>
    cases returns with
    | nil => cases h
    | cons leg others =>
      obtain ⟨hLeg, hRest⟩ := List.cons.inj h
      rw [List.map_cons, hKey key leg hLeg, ih hRest]

theorem legWeights_reordered {signals signals' : Dict ContractSymbol Signal}
    {history history' : Dict ContractSymbol (List VerifiedBar)} (hs : signals.Reordered signals')
    (hh : history.Reordered history') :
    BothExcept SameWeights (e.legWeights signals history) (e.legWeights signals' history') := by
  unfold legWeights
  split
  · exact .ok .none
  · rw [← legReturns_reordered hh]
    -- the returns are keyed by the legs, which are all different
    have hReturns := (BothExcept.mapM_perm (f := e.legReturns history) hs.keys).with_left
      fun returns hMap => map_fst_of_legReturns hMap
    apply hReturns.bind
    rintro returns returns' ⟨hPerm, hKeys⟩
    apply BothExcept.ok
    apply Option.Rel.some
    apply inverseVolWeights_reordered
    apply Dict.reordered_ofList hPerm
    rw [hKeys]
    exact signals.keys_nodup

/-! ## Two runs side by side -/

def SameButHistory (s s' : PortfolioState σ ρ) : Prop :=
  ∃ history, s.history.Reordered history ∧ s' = { s with history := history }

theorem alike_onBroker {α : Type} (x : BrokerM α) :
    Agree SameButHistory Eq (onBroker x : PortfolioM σ ρ α) (onBroker x) := by
  rintro s _ ⟨history, hHistory, rfl⟩
  unfold onBroker
  cases x s.broker with
  | ok a b => exact .ok rfl ⟨history, hHistory, rfl⟩
  | error failure b => exact .error

theorem alike_isTradeAllowed (contract : ContractSymbol) (side : Side) (quantity : ℤ) :
    Agree SameButHistory Eq (e.isTradeAllowed contract side quantity)
      (e.isTradeAllowed contract side quantity) := by
  rintro s _ ⟨history, hHistory, rfl⟩
  exact .ok rfl ⟨history, hHistory, rfl⟩

theorem alike_placeMarket (contract : ContractSymbol) (side : Side) (quantity : ℤ) (tag : String) :
    Agree SameButHistory Eq (placeMarket contract side quantity tag : PortfolioM σ ρ BrokerOrderId)
      (placeMarket contract side quantity tag) := by
  apply leads_bind (leads_liftExcept (.refl _))
  rintro order _ rfl
  apply leads_bind (alike_onBroker _)
  rintro id _ rfl
  refine leads_bind (agree_modify ?_) fun _ _ _ => leads_pure rfl
  rintro s _ ⟨history, hHistory, rfl⟩
  exact ⟨history, hHistory, rfl⟩

theorem alike_takeBar (p : StreamBar) :
    Agree SameButHistory Eq (e.takeBar p) (e.takeBar p) := by
  apply leads_bind (alike_onBroker _)
  rintro filled _ rfl
  refine leads_bind (agree_modify ?_) fun _ _ _ => ?_
  · rintro s _ ⟨history, hHistory, rfl⟩
    refine ⟨_, hHistory.set p.1 ((s.history.get? p.1).getD [] ++ [p.2]), ?_⟩
    rw [hHistory.get?_eq]
  · apply leads_get_bind
    rintro s _ ⟨history, hHistory, rfl⟩
    exact leads_pure rfl

theorem alike_executeRoll (event : RollEvent) :
    Agree SameButHistory Eq (executeRoll event : PortfolioM σ ρ PUnit) (executeRoll event) := by
  apply leads_bind (alike_onBroker _)
  rintro rolled _ rfl
  apply leads_ite Iff.rfl
  · intro _
    exact leads_pure rfl
  · intro _
    apply leads_bind (leads_liftExcept (.refl _))
    rintro mult _ rfl
    apply agree_modify
    rintro s _ ⟨history, hHistory, rfl⟩
    exact ⟨history, hHistory, rfl⟩

theorem alike_accountEquity : Agree SameButHistory Eq e.accountEquity e.accountEquity := by
  apply leads_get_bind
  rintro s _ ⟨history, hHistory, rfl⟩
  apply leads_bind (leads_liftExcept (.refl _))
  rintro metrics _ rfl
  refine leads_bind (agree_modify ?_) fun _ _ _ => leads_pure rfl
  rintro t _ ⟨history, hHistory, rfl⟩
  exact ⟨history, hHistory, rfl⟩

theorem alike_mark : Agree SameButHistory Eq e.mark e.mark := by
  apply leads_bind alike_accountEquity
  rintro equity _ rfl
  apply leads_get_bind
  rintro s _ ⟨history, hHistory, rfl⟩
  apply leads_bind (leads_liftExcept (.refl _))
  rintro mtmEquity _ rfl
  refine leads_bind (agree_modify ?_) fun _ _ _ => leads_pure rfl
  rintro t _ ⟨history, hHistory, rfl⟩
  exact ⟨history, hHistory, rfl⟩

theorem alike_checked {α : Type} (contract : ContractSymbol) (side : Side) (quantity : ℤ)
    (tag : String) (refused : α) (placed : BrokerOrderId → α) :
    let checked : PortfolioM σ ρ α := do
      let block ← e.isTradeAllowed contract side quantity
      if block ≠ none then pure refused
      else
        let id ← placeMarket contract side quantity tag
        pure (placed id)
    Agree SameButHistory Eq checked checked := by
  apply leads_bind (alike_isTradeAllowed contract side quantity)
  rintro block _ rfl
  apply leads_ite Iff.rfl
  · intro _
    exact leads_pure rfl
  · intro _
    apply leads_bind (alike_placeMarket contract side quantity tag)
    rintro id _ rfl
    exact leads_pure rfl

theorem alike_tradeLeg (positions : List Position) (mtmEquity : ℚ)
    {weights weights' : Option (Dict ContractSymbol ℚ)} (hWeights : SameWeights weights weights')
    (key : ContractSymbol) (signal : Signal) (price : ℚ) :
    Agree SameButHistory Eq (e.tradeLeg positions mtmEquity weights key signal price)
      (e.tradeLeg positions mtmEquity weights' key signal price) := by
  have hKelly : (weights.elim signal.fullKellyFraction fun w =>
      signal.fullKellyFraction * (w.get? key).getD 1) =
      weights'.elim signal.fullKellyFraction fun w =>
        signal.fullKellyFraction * (w.get? key).getD 1 := by
    cases hWeights with
    | none => rfl
    | some h => rw [Option.elim_some, Option.elim_some, h.get?_eq]
  unfold tradeLeg
  rw [hKelly]
  apply leads_bind (leads_liftExcept (.refl _))
  rintro decision _ rfl
  apply leads_ite Iff.rfl
  · intro _
    exact leads_pure rfl
  · intro _
    cases e.resolveOrder decision signal positions signal.contract with
    | none => exact leads_pure rfl
    | some resolved =>
      exact alike_checked _ _ _ _ (LegOutcome.blocked decision) (LegOutcome.ordered decision)

theorem alike_recordLeg (positions : List Position) (lastClose : Dict ContractSymbol ℚ)
    (mtmEquity : ℚ) {weights weights' : Option (Dict ContractSymbol ℚ)}
    (hWeights : SameWeights weights weights') (leg : ContractSymbol × Signal) :
    Agree SameButHistory Eq (e.recordLeg positions lastClose mtmEquity weights leg)
      (e.recordLeg positions lastClose mtmEquity weights' leg) := by
  apply leads_get_bind
  rintro s _ ⟨history, hHistory, rfl⟩
  have hLeg : Agree SameButHistory Eq (e.placeLeg positions lastClose mtmEquity weights leg)
      (e.placeLeg positions lastClose mtmEquity weights' leg) := by
    unfold placeLeg
    cases lastClose.get? leg.2.contract with
    | none => exact leads_pure rfl
    | some price =>
      apply leads_ite Iff.rfl
      · intro _
        apply leads_ite Iff.rfl
        · intro _
          apply leads_ite Iff.rfl
          · intro _
            exact leads_pure rfl
          · intro _
            exact alike_checked _ _ _ _ LegOutcome.flatBlocked LegOutcome.flattened
        · intro _
          exact leads_pure rfl
      · intro _
        exact alike_tradeLeg positions mtmEquity hWeights leg.1 leg.2 price
  apply leads_bind hLeg
  rintro outcome _ rfl
  apply leads_get_bind
  rintro t _ ⟨history', hHistory', rfl⟩
  exact leads_pure rfl

def withStrategy (e : PortfolioBacktestEngine σ ρ) (st : CrossSectionalStrategy σ) :
    PortfolioBacktestEngine σ ρ :=
  { e with strategy := st }

theorem alike_decide {st : CrossSectionalStrategy σ} (hFree : OrderFree e.strategy st)
    (mtmEquity : ℚ) (positions : List Position) :
    Agree SameButHistory Eq (e.decide mtmEquity positions)
      ((e.withStrategy st).decide mtmEquity positions) := by
  apply leads_ite Iff.rfl
  · intro _
    exact leads_pure rfl
  intro _
  apply leads_get_bind
  rintro s _ ⟨history, hHistory, rfl⟩
  have hOut := ((hFree.alike _ _ s.strategy hHistory).with_left
    fun out h => hFree.distinct _ _ out.1 out.2 h).mapError
      (PortfolioFailure.run ∘ RunFailure.strategy) (PortfolioFailure.run ∘ RunFailure.strategy)
  apply leads_bind (leads_liftExcept hOut)
  rintro ⟨signals, memory⟩ ⟨signals', _⟩ ⟨⟨hSignals, rfl⟩, hDistinct⟩
  have hPerm : signals.items.Perm signals'.items := hSignals
  refine leads_bind (agree_modify ?_) fun _ _ _ => ?_
  · rintro t _ ⟨history', hHistory', rfl⟩
    exact ⟨history', hHistory', rfl⟩
  apply leads_ite
  · constructor
    · intro hNil
      rw [hNil] at hPerm
      exact hPerm.nil_eq.symm
    · intro hNil
      rw [hNil] at hPerm
      exact hPerm.eq_nil
  · intro _
    exact leads_pure rfl
  intro _
  refine leads_bind (agree_modify ?_) fun _ _ _ => ?_
  · rintro t _ ⟨history', hHistory', rfl⟩
    refine ⟨history', hHistory', ?_⟩
    rw [hPerm.length_eq]
  apply leads_bind (leads_liftExcept (legWeights_reordered hSignals hHistory))
  intro weights weights' hWeights
  rw [legs_reordered hSignals hDistinct]
  exact agree_each_eq fun leg _ => alike_recordLeg positions s.lastClose mtmEquity hWeights leg

theorem alike_processDate {st : CrossSectionalStrategy σ} (hFree : OrderFree e.strategy st)
    (group : Date × List StreamBar) :
    Agree SameButHistory Eq (e.processDate group) ((e.withStrategy st).processDate group) := by
  apply leads_bind (agree_each_eq fun p _ => alike_takeBar p)
  rintro bars _ rfl
  apply leads_bind (agree_each_eq fun event _ => alike_executeRoll event)
  rintro rolled _ rfl
  apply leads_bind alike_mark
  rintro marked _ rfl
  apply leads_get_bind
  rintro s _ ⟨history, hHistory, rfl⟩
  apply leads_bind (alike_decide hFree marked.1 marked.2)
  rintro legs _ rfl
  exact leads_pure rfl

theorem alike_run {st : CrossSectionalStrategy σ} (hFree : OrderFree e.strategy st)
    {histories histories' : Dict ContractSymbol (List VerifiedBar)}
    (h : histories.Reordered histories') :
    Agree SameButHistory Eq (e.run histories) ((e.withStrategy st).run histories') := by
  unfold run
  rw [indexed_reordered h]
  apply leads_bind (agree_each_eq fun group _ => alike_processDate hFree group)
  rintro records _ rfl
  apply leads_bind alike_accountEquity
  rintro finalEquity _ rfl
  apply leads_get_bind
  rintro s _ ⟨history, hHistory, rfl⟩
  exact leads_pure rfl

theorem start_reordered {histories histories' : Dict ContractSymbol (List VerifiedBar)}
    (h : histories.Reordered histories') (broker : MockBroker) (guard : ρ) (memory : σ) :
    SameButHistory (.start broker guard memory histories) (.start broker guard memory histories') := by
  refine ⟨_, Dict.reordered_ofList (h.keys.map fun key => (key, [])) ?_, rfl⟩
  simpa [Function.comp_def] using histories.keys_nodup

end PortfolioBacktestEngine

/-- Reordering the streams, and the signals with them, changes neither the result of a run nor its
records, nor whether it raises. -/
theorem mapping_order_free {σ ρ : Type} {e : PortfolioBacktestEngine σ ρ}
    {st : CrossSectionalStrategy σ} {histories histories' : Dict ContractSymbol (List VerifiedBar)}
    (hFree : OrderFree e.strategy st) (h : histories.Reordered histories') (broker : MockBroker)
    (guard : ρ) (memory : σ) (result : RunResult) (records : List DateRecord) :
    (∃ s, e.run histories (.start broker guard memory histories) = .ok (result, records) s) ↔
      ∃ s, (e.withStrategy st).run histories' (.start broker guard memory histories') =
        .ok (result, records) s := by
  have hBoth := PortfolioBacktestEngine.alike_run hFree h _ _
    (PortfolioBacktestEngine.start_reordered h broker guard memory)
  constructor
  · rintro ⟨s, hRun⟩
    obtain ⟨_, t, hRun', rfl, -⟩ := hBoth.exists_ok hRun
    exact ⟨t, hRun'⟩
  · rintro ⟨t, hRun⟩
    obtain ⟨_, s, hRun', rfl, -⟩ := hBoth.exists_ok_left hRun
    exact ⟨s, hRun'⟩

/-! ## A basket in two orders -/

def bullishSignal (contract : ContractSymbol) (ts : DateTime) : Signal :=
  .long contract ts "bullish" 2 (by norm_num)

/-- Long in every contract of the basket that has traded, the legs in the order of the basket. -/
def bullish (basket : List ContractSymbol) : CrossSectionalStrategy Unit where
  generateSignals histories memory :=
    pure (.ofList (basket.filterMap fun key =>
      ((histories.get? key).bind List.getLast?).map fun bar => (key, bullishSignal key bar.ts)), memory)

theorem orderFree_bullish {basket basket' : List ContractSymbol} (h : basket.Perm basket')
    (hBasket : basket.Nodup) : OrderFree (bullish basket) (bullish basket') := by
  constructor
  · intro history history' memory hHistory
    refine .ok ⟨?_, rfl⟩
    simp only [hHistory.get?_eq]
    apply Dict.reordered_ofList (h.filterMap _)
    rw [List.map_filterMap]
    refine hBasket.filterMap ?_
    intro key key' k hk hk'
    simp only [Option.map_map, Option.map_eq_some_iff, Option.mem_def, Function.comp_apply] at hk hk'
    obtain ⟨_, -, rfl⟩ := hk
    obtain ⟨_, -, rfl⟩ := hk'
    rfl
  · intro history memory signals memory' hOut
    cases hOut
    apply distinct_of_keyed
    intro key signal hGet
    have hPair := Dict.mem_of_get?_ofList hGet
    simp only [List.mem_filterMap, Option.map_eq_some_iff, Prod.mk.injEq] at hPair
    obtain ⟨_, -, _, -, rfl, rfl⟩ := hPair
    rfl

def bullishEngine (basket : List ContractSymbol) : PortfolioBacktestEngine Unit Unit :=
  { steadyEngine with strategy := bullish basket, riskParity := true }

def basketStreams (basket : List ContractSymbol) : Dict ContractSymbol (List VerifiedBar) :=
  .ofList (basket.map fun key => (key, [dailyBar key .dec10 5000,
    dailyBar key .dec11 5100, dailyBar key .dec12 5000,
    dailyBar key .dec15 5200]))

theorem mapping_order_free_basket : ∃ result records s s',
    (bullishEngine ["MESZ25", "MNQZ25"]).run (basketStreams ["MESZ25", "MNQZ25"])
        (.start freshBroker () () (basketStreams ["MESZ25", "MNQZ25"])) = .ok (result, records) s ∧
      ((bullishEngine ["MESZ25", "MNQZ25"]).withStrategy (bullish ["MNQZ25", "MESZ25"])).run
        (basketStreams ["MNQZ25", "MESZ25"])
        (.start freshBroker () () (basketStreams ["MNQZ25", "MESZ25"])) = .ok (result, records) s' ∧
      result.fills = 2 := by
  have hReturns : returns ((bullishEngine ["MESZ25", "MNQZ25"]).run
      (basketStreams ["MESZ25", "MNQZ25"])) (.start freshBroker () () (basketStreams ["MESZ25", "MNQZ25"]))
      (fun out _ => out.1.fills = 2) = true := by decide +kernel
  obtain ⟨⟨result, records⟩, s, hRun, hFills⟩ := exists_ok_of_returns hReturns
  obtain ⟨s', hRun'⟩ := (mapping_order_free (orderFree_bullish (.swap _ _ _) (by decide))
    (Dict.reordered_ofList (.swap _ _ _) (by decide)) freshBroker () () result records).mp ⟨s, hRun⟩
  exact ⟨result, records, s, s', hRun, hRun', of_decide_eq_true hFills⟩

end Futur3.Engine
