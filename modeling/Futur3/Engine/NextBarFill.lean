import Futur3.Engine.BacktestSpec

/-! # Orders fill at the next bar

The loop promises that an order decided on one bar fills at the open of the next.
`advance` matches orders by contract, and nothing looks at an order again, so the
promise holds on a run exactly when no order is placed on the last bar before the
stream changes its contract.
-/

namespace Futur3.Engine

open Data Execution Prelude Method
open MockBroker (OpenOrder Consistent MarketOnly eventsOf Idle)

variable {σ ρ : Type}

/-- The strategy trades the contract of the last bar of its history. -/
def TradesLastContract (strategy : Strategy σ) : Prop :=
  ∀ history bar memory signal memory',
    strategy.generateSignal (history ++ [bar]) memory = .ok (some signal, memory') →
      signal.contract = bar.contract

/-- The order placed on bar `i` fills once, in full, at the open of bar `i + 1` after slippage. -/
def FilledAtNextOpen (e : BacktestEngine σ ρ) (bars : List VerifiedBar) (records : List BarRecord)
    (b : MockBroker) (i : ℕ) (id : BrokerOrderId) : Prop :=
  ∃ order bar event price, b.orders.get? id = some order ∧ bars[i + 1]? = some bar ∧
    MockBroker.slipped e.slippage order bar bar.openPrice = .ok price ∧
    event.fillPrice = some price ∧ event.fillQuantity = some order.quantity ∧
    ∀ j r, records[j]? = some r → eventsOf id r.filled = if j = i + 1 then [event] else []

def lastPlaced (records : List BarRecord) : Option BrokerOrderId :=
  records.getLast?.bind fun r => r.outcome.placed

structure NextBarFillLaw (e : BacktestEngine σ ρ) (bars : List VerifiedBar)
    (records : List BarRecord) (result : RunResult) (b : MockBroker) : Prop where
  filled_once : ∀ (i : ℕ) r id, records[i]? = some r → r.outcome.placed = some id → i + 1 < bars.length →
    FilledAtNextOpen e bars records b i id
  fills_count : result.fills + (lastPlaced records).toList.length = result.ordersPlaced
  none_open : ∀ (i : ℕ) r id, records[i]? = some r → r.outcome.placed = some id → i + 1 < bars.length →
    ∀ order filled, ¬OpenOrder b id order filled

/-- No order is placed on the last bar before a change of contract. -/
def NoOrderBeforeChange (bars : List VerifiedBar) (records : List BarRecord) : Prop :=
  ∀ i r id bar next, records[i]? = some r → r.outcome.placed = some id → bars[i]? = some bar →
    bars[i + 1]? = some next → next.contract = bar.contract

/-- With a strategy of the current contract, every order of a pass is for the bar's contract. -/
theorem BarStep.book_own {e : BacktestEngine σ ρ} {bar : VerifiedBar} {s s' : LoopState σ ρ}
    {r : BarRecord} (h : BarStep e bar s s' r) (hOwn : TradesLastContract e.strategy) :
    BookStep (· = bar.contract) bar e.slippage s.broker s'.broker r := by
  refine h.book.mono fun c hc => ?_
  rcases hc with hBar | ⟨signal, ⟨memory, memory', hSignal⟩, hSame⟩
  · exact hBar
  · exact hSame.symm.trans (hOwn _ _ _ _ _ hSignal)

/-! ## Runs -/

/-- What is true of every run: placed orders and events belong to their bar's contract. -/
structure Traded (bars : List VerifiedBar) (records : List BarRecord) (b : MockBroker) : Prop where
  length : records.length = bars.length
  consistent : Consistent b
  market : MarketOnly b
  placed : ∀ (i : ℕ) (r : BarRecord) id, records[i]? = some r → r.outcome.placed = some id →
    ∃ (order : Order) (bar : VerifiedBar), b.orders.get? id = some order ∧ bars[i]? = some bar ∧
      order.contract = bar.contract
  events : ∀ (j : ℕ) (r : BarRecord) id, records[j]? = some r → eventsOf id r.filled ≠ [] →
    ∃ (order : Order) (bar : VerifiedBar), b.orders.get? id = some order ∧ bars[j]? = some bar ∧
      order.contract = bar.contract

theorem Traded.start {b : MockBroker} (hIdle : Idle b) : Traded [] [] b where
  length := rfl
  consistent := hIdle.toConsistent
  market := hIdle.marketOnly
  placed i r id h := by simp at h
  events j r id h := by simp at h

theorem Traded.step {bars : List VerifiedBar} {records : List BarRecord} {b b' : MockBroker}
    {bar : VerifiedBar} {slippage : Option SlippageModel} {r : BarRecord}
    (h : Traded bars records b) (hStep : BookStep (· = bar.contract) bar slippage b b' r) :
    Traded (bars ++ [bar]) (records ++ [r]) b' where
  length := by simp [h.length]
  consistent := hStep.consistent h.consistent
  market := hStep.marketOnly h.consistent h.market
  placed i r' id hGet hPlaced := by
    rcases getElem?_concat_cases hGet with hOld | ⟨rfl, rfl⟩
    · obtain ⟨order, bar', hOrder, hBar, hContract⟩ := h.placed i r' id hOld hPlaced
      exact ⟨order, bar', hStep.kept id order hOrder h.consistent, getElem?_concat_of_some hBar,
        hContract⟩
    · obtain ⟨-, order, hOrder, -, hContract⟩ := hStep.placed id hPlaced h.consistent
      exact ⟨order, bar, hOrder, by simp [h.length], hContract⟩
  events j r' id hGet hEvents := by
    rcases getElem?_concat_cases hGet with hOld | ⟨rfl, rfl⟩
    · obtain ⟨order, bar', hOrder, hBar, hContract⟩ := h.events j r' id hOld hEvents
      exact ⟨order, bar', hStep.kept id order hOrder h.consistent, getElem?_concat_of_some hBar,
        hContract⟩
    · obtain ⟨order, filled, hOpen, hContract⟩ := hStep.event_open hEvents
      exact ⟨order, bar, hStep.kept id order hOpen.order_found h.consistent, by simp [h.length],
        hContract⟩

/-- The run so far, when the condition held: everything but the newest order has been filled. -/
structure Served (e : BacktestEngine σ ρ) (bars : List VerifiedBar) (records : List BarRecord)
    (fills orders : ℕ) (b : MockBroker) : Prop extends Traded bars records b where
  open_last : ∀ id order filled, OpenOrder b id order filled →
    filled = 0 ∧ lastPlaced records = some id
  waiting : ∀ id, lastPlaced records = some id →
    (∃ order, OpenOrder b id order 0) ∧ ∀ r ∈ records, eventsOf id r.filled = []
  served : ∀ (i : ℕ) r id, records[i]? = some r → r.outcome.placed = some id → i + 1 < records.length →
    FilledAtNextOpen e bars records b i id
  count : fills + (lastPlaced records).toList.length = orders

theorem Served.start {e : BacktestEngine σ ρ} {b : MockBroker} (hIdle : Idle b) :
    Served e [] [] 0 0 b where
  toTraded := .start hIdle
  open_last id order filled h := absurd h (hIdle.none_open id order filled)
  waiting id h := by simp [lastPlaced] at h
  served i r id h := by simp at h
  count := rfl

/-- The last placed order, read by index. -/
theorem getLast?_placed {records : List BarRecord} {id : BrokerOrderId}
    (h : lastPlaced records = some id) :
    ∃ i r, records[i]? = some r ∧ i + 1 = records.length ∧ r.outcome.placed = some id := by
  obtain ⟨r, hLast, hPlaced⟩ := Option.bind_eq_some_iff.mp h
  rw [List.getLast?_eq_getElem?] at hLast
  have hPos : records.length ≠ 0 := by
    intro hZero
    rw [List.length_eq_zero_iff.mp hZero] at hLast
    cases hLast
  exact ⟨records.length - 1, r, hLast, by omega, hPlaced⟩

/-- Events of no order but one are all of that order. -/
theorem eventsOf_waiting {events : List OrderEvent} {waiting : Option BrokerOrderId}
    (hOthers : ∀ id, waiting ≠ some id → eventsOf id events = []) :
    waiting.elim [] (fun id => eventsOf id events) = events := by
  have hOwn : ∀ event ∈ events, waiting = some event.brokerOrderId := by
    intro event hMem
    by_contra hNot
    have : event ∈ eventsOf event.brokerOrderId events := by simpa [eventsOf] using hMem
    rw [hOthers _ hNot] at this
    cases this
  cases waiting with
  | none =>
    refine (List.eq_nil_iff_forall_not_mem.mpr fun event hMem => ?_).symm
    cases hOwn event hMem
  | some id =>
    refine List.filter_eq_self.mpr fun event hMem => ?_
    simp [Option.some.inj (hOwn event hMem)]

/-- The fills of a bar are those of the one order that was waiting. -/
theorem Served.bar_fills {e : BacktestEngine σ ρ} {bars : List VerifiedBar}
    {records : List BarRecord} {fills orders : ℕ} {b b' : MockBroker} {bar : VerifiedBar}
    {r : BarRecord} (h : Served e bars records fills orders b)
    (hStep : BookStep (· = bar.contract) bar e.slippage b b' r)
    (hBar : ∀ id order filled, OpenOrder b id order filled → order.contract = bar.contract) :
    (∀ id, lastPlaced records ≠ some id → eventsOf id r.filled = []) ∧
      r.filled.length = (lastPlaced records).toList.length ∧
      ∀ id, lastPlaced records = some id →
        ∃ order event price, b.orders.get? id = some order ∧ eventsOf id r.filled = [event] ∧
          MockBroker.slipped e.slippage order bar bar.openPrice = .ok price ∧
          event.fillPrice = some price ∧ event.fillQuantity = some order.quantity := by
  have hOthers : ∀ id, lastPlaced records ≠ some id →
      eventsOf id r.filled = [] := by
    intro id hNot
    by_contra hEvents
    obtain ⟨order, filled, hOpen, -⟩ := hStep.event_open hEvents
    exact hNot (h.open_last id order filled hOpen).2
  have hWaiting : ∀ id, lastPlaced records = some id →
      ∃ order event price, b.orders.get? id = some order ∧ eventsOf id r.filled = [event] ∧
        MockBroker.slipped e.slippage order bar bar.openPrice = .ok price ∧
        event.fillPrice = some price ∧ event.fillQuantity = some order.quantity := by
    intro id hLast
    obtain ⟨⟨order, hOpen⟩, -⟩ := h.waiting id hLast
    obtain ⟨event, price, hEvents, hSlipped, hPrice, hQuantity⟩ :=
      hStep.advanced.fill_market hOpen (h.market id order 0 hOpen) (hBar id order 0 hOpen)
    rw [sub_zero] at hQuantity
    exact ⟨order, event, price, hOpen.order_found, hEvents, hSlipped, hPrice, hQuantity⟩
  refine ⟨hOthers, ?_, hWaiting⟩
  rw [← eventsOf_waiting hOthers]
  cases hLast : lastPlaced records with
  | none => rfl
  | some id =>
    obtain ⟨order, event, price, -, hEvents, -⟩ := hWaiting id hLast
    rw [Option.elim_some, hEvents]
    rfl

section Step

variable {e : BacktestEngine σ ρ} {bars : List VerifiedBar} {records : List BarRecord}
  {fills orders : ℕ} {b b' : MockBroker} {bar : VerifiedBar} {r : BarRecord}

/-- An order that has been filled: the new bar has nothing more for it. -/
theorem Served.stays_filled (h : Served e bars records fills orders b)
    (hStep : BookStep (· = bar.contract) bar e.slippage b b' r)
    (hOthers : ∀ id, lastPlaced records ≠ some id → eventsOf id r.filled = []) {i : ℕ}
    {r' : BarRecord} {id : BrokerOrderId} (hGet : records[i]? = some r')
    (hPlaced : r'.outcome.placed = some id) (hNext : i + 1 < records.length) :
    FilledAtNextOpen e (bars ++ [bar]) (records ++ [r]) b' i id := by
  obtain ⟨order, bar', event, price, hOrder, hBar', hSlipped, hPrice, hQuantity, hEvents⟩ :=
    h.served i r' id hGet hPlaced hNext
  refine ⟨order, bar', event, price, hStep.kept id order hOrder h.consistent,
    getElem?_concat_of_some hBar', hSlipped, hPrice, hQuantity, ?_⟩
  intro j r'' hj
  rcases getElem?_concat_cases hj with hj | ⟨rfl, rfl⟩
  · exact hEvents j r'' hj
  · rw [if_neg (by omega)]
    refine hOthers id fun hWait => ?_
    obtain ⟨-, hNone⟩ := h.waiting id hWait
    obtain ⟨r₁, hr₁⟩ : ∃ r₁, records[i + 1]? = some r₁ := ⟨_, List.getElem?_eq_getElem hNext⟩
    have := hEvents (i + 1) r₁ hr₁
    rw [hNone r₁ (List.mem_of_getElem? hr₁), if_pos rfl] at this
    cases this

/-- The order of the bar before, which fills on the new bar. -/
theorem Served.fills_last (h : Served e bars records fills orders b)
    (hStep : BookStep (· = bar.contract) bar e.slippage b b' r)
    (hWaiting : ∀ id, lastPlaced records = some id →
      ∃ order event price, b.orders.get? id = some order ∧ eventsOf id r.filled = [event] ∧
        MockBroker.slipped e.slippage order bar bar.openPrice = .ok price ∧
        event.fillPrice = some price ∧ event.fillQuantity = some order.quantity) {i : ℕ}
    {id : BrokerOrderId} (hLength : i + 1 = records.length)
    (hWait : lastPlaced records = some id) :
    FilledAtNextOpen e (bars ++ [bar]) (records ++ [r]) b' i id := by
  obtain ⟨order, event, price, hOrder, hEvents, hSlipped, hPrice, hQuantity⟩ := hWaiting id hWait
  refine ⟨order, bar, event, price, hStep.kept id order hOrder h.consistent, ?_, hSlipped, hPrice,
    hQuantity, ?_⟩
  · rw [hLength, h.length]
    exact List.getElem?_concat_length
  · intro j r'' hj
    rcases getElem?_concat_cases hj with hj | ⟨rfl, rfl⟩
    · have hjLt := index_lt hj
      rw [if_neg (by omega)]
      exact (h.waiting id hWait).2 r'' (List.mem_of_getElem? hj)
    · rw [if_pos hLength.symm, hEvents]

theorem Served.step (h : Served e bars records fills orders b)
    (hStep : BookStep (· = bar.contract) bar e.slippage b b' r)
    (hBar : ∀ id order filled, OpenOrder b id order filled → order.contract = bar.contract) :
    Served e (bars ++ [bar]) (records ++ [r]) (fills + r.filled.length)
      (orders + r.outcome.placed.toList.length) b' := by
  obtain ⟨hOthers, hLength, hWaiting⟩ := h.bar_fills hStep hBar
  have hLast : lastPlaced (records ++ [r]) = r.outcome.placed := by simp [lastPlaced]
  refine ⟨h.toTraded.step hStep, ?_, ?_, ?_, ?_⟩
  · intro id order filled hOpen
    obtain ⟨hPlaced, hZero⟩ := hStep.open_new h.consistent h.market hBar hOpen
    exact ⟨hZero, hLast.trans hPlaced⟩
  · intro id hPlaced
    rw [hLast] at hPlaced
    obtain ⟨hFresh, order, hGet, -⟩ := hStep.placed id hPlaced h.consistent
    refine ⟨⟨order, (hStep.open_iff h.consistent id order 0).mpr (.inr ⟨hPlaced, hGet, rfl⟩)⟩, ?_⟩
    have hUnknown : ∀ r' ∈ records, eventsOf id r'.filled = [] := by
      intro r' hMem
      by_contra hEvents
      obtain ⟨j, hj⟩ := List.mem_iff_getElem?.mp hMem
      obtain ⟨order', -, hOrder', -⟩ := h.events j r' id hj hEvents
      rw [hFresh] at hOrder'
      cases hOrder'
    intro r' hMem
    rcases List.mem_append.mp hMem with hOld | hNew
    · exact hUnknown r' hOld
    · obtain rfl := List.mem_singleton.mp hNew
      exact hStep.advanced.unknown id ((Dict.get?_eq_none_iff _ _).mp hFresh)
  · intro i r' id hGet hPlaced hi
    rcases getElem?_concat_cases hGet with hOld | ⟨rfl, -⟩
    swap
    · simp at hi
    have hIndex := index_lt hOld
    by_cases hNext : i + 1 < records.length
    · exact h.stays_filled hStep hOthers hOld hPlaced hNext
    · have hWait : lastPlaced records = some id := by
        rw [lastPlaced, List.getLast?_eq_getElem?, show records.length - 1 = i by omega, hOld]
        exact hPlaced
      exact h.fills_last hStep hWaiting (by omega) hWait
  · have hCount := h.count
    rw [hLast]
    omega

end Step

/-! ## The law -/

/-- A fill at the next bar is a fill of that bar's contract. -/
theorem NextBarFillLaw.noOrderBeforeChange {e : BacktestEngine σ ρ} {bars : List VerifiedBar}
    {records : List BarRecord} {result : RunResult} {b : MockBroker}
    (h : NextBarFillLaw e bars records result b) (hTraded : Traded bars records b) :
    NoOrderBeforeChange bars records := by
  intro i r id bar next hGet hPlaced hBar hNext
  have hi := index_lt hNext
  obtain ⟨order, bar', event, price, -, -, -, -, -, hEvents⟩ := h.filled_once i r id hGet hPlaced hi
  obtain ⟨r', hr'⟩ : ∃ r', records[i + 1]? = some r' :=
    ⟨_, List.getElem?_eq_getElem (hTraded.length.symm ▸ hi)⟩
  have hFilled : eventsOf id r'.filled ≠ [] := by
    rw [hEvents (i + 1) r' hr', if_pos rfl]
    exact List.cons_ne_nil _ _
  obtain ⟨order₁, bar₁, hOrder₁, hBar₁, hContract₁⟩ := hTraded.placed i r id hGet hPlaced
  obtain ⟨order₂, bar₂, hOrder₂, hBar₂, hContract₂⟩ := hTraded.events (i + 1) r' id hr' hFilled
  obtain rfl := Option.some.inj (hOrder₁.symm.trans hOrder₂)
  obtain rfl := Option.some.inj (hBar₁.symm.trans hBar)
  obtain rfl := Option.some.inj (hBar₂.symm.trans hNext)
  exact hContract₂.symm.trans hContract₁

theorem Served.law {e : BacktestEngine σ ρ} {bars : List VerifiedBar} {records : List BarRecord}
    {result : RunResult} {b : MockBroker}
    (h : Served e bars records result.fills result.ordersPlaced b) :
    NextBarFillLaw e bars records result b where
  filled_once i r id hGet hPlaced hi := h.served i r id hGet hPlaced (h.length.symm ▸ hi)
  fills_count := h.count
  none_open i r id hGet hPlaced hi order filled hOpen := by
    -- an open order would be the last one, which has no events, but this one was filled
    have hi' : i + 1 < records.length := h.length.symm ▸ hi
    obtain ⟨order', bar, event, price, -, -, -, -, -, hEvents⟩ := h.served i r id hGet hPlaced hi'
    obtain ⟨-, hNone⟩ := h.waiting id (h.open_last id order filled hOpen).2
    have hNext := List.getElem?_eq_getElem hi'
    have := hEvents (i + 1) _ hNext
    rw [hNone _ (List.mem_of_getElem? hNext), if_pos rfl] at this
    cases this

theorem run_traded {e : BacktestEngine σ ρ} {broker : MockBroker} {guard : ρ} {strategy : σ}
    {bars : List VerifiedBar} {result : RunResult} {records : List BarRecord} {s' : LoopState σ ρ}
    (hIdle : Idle broker) (hOwn : TradesLastContract e.strategy)
    (hRun : e.run bars (.start broker guard strategy) = .ok (result, records) s') :
    Traded bars records s'.broker := by
  have hStep : ∀ done bar rest log r (s s' : LoopState σ ρ), bars = done ++ bar :: rest →
      Traded done log s.broker → BarStep e bar s s' r →
      Traded (done ++ [bar]) (log ++ [r]) s'.broker :=
    fun done bar rest log r s s' _ hInv hStep => hInv.step (hStep.book_own hOwn)
  obtain ⟨s₁, hInv, hBroker, -⟩ :=
    run_rule (fun done log s => Traded done log s.broker) hStep (.start hIdle) hRun
  exact hBroker ▸ hInv

theorem NoOrderBeforeChange.of_concat {bars : List VerifiedBar} {records : List BarRecord}
    {bar : VerifiedBar} {r : BarRecord} (h : NoOrderBeforeChange (bars ++ [bar]) (records ++ [r])) :
    NoOrderBeforeChange bars records :=
  fun i r' id bar' next hGet hPlaced hBar hNext =>
    h i r' id bar' next (getElem?_concat_of_some hGet) hPlaced (getElem?_concat_of_some hBar)
      (getElem?_concat_of_some hNext)

/-- Under the condition an order waiting from the last bar is of this bar's contract. -/
theorem Served.open_contract {e : BacktestEngine σ ρ} {bars : List VerifiedBar}
    {records : List BarRecord} {fills orders : ℕ} {b : MockBroker} {bar : VerifiedBar} {r : BarRecord}
    (h : Served e bars records fills orders b)
    (hSame : NoOrderBeforeChange (bars ++ [bar]) (records ++ [r])) {id : BrokerOrderId}
    {order : Order} {filled : ℤ} (hOpen : OpenOrder b id order filled) :
    order.contract = bar.contract := by
  obtain ⟨i, r', hGet, hLast, hPlaced⟩ := getLast?_placed (h.open_last id order filled hOpen).2
  obtain ⟨order', bar', hOrder, hBar, hContract⟩ := h.placed i r' id hGet hPlaced
  obtain rfl := Option.some.inj (hOpen.order_found.symm.trans hOrder)
  have hNext : (bars ++ [bar])[i + 1]? = some bar := by
    rw [hLast, h.length]
    simp
  exact hContract.trans (hSame i r' id bar' bar (getElem?_concat_of_some hGet) hPlaced
    (getElem?_concat_of_some hBar) hNext).symm

theorem run_served {e : BacktestEngine σ ρ} {broker : MockBroker} {guard : ρ} {strategy : σ}
    {bars : List VerifiedBar} {result : RunResult} {records : List BarRecord} {s' : LoopState σ ρ}
    (hIdle : Idle broker) (hOwn : TradesLastContract e.strategy)
    (hRun : e.run bars (.start broker guard strategy) = .ok (result, records) s')
    (hSame : NoOrderBeforeChange bars records) :
    Served e bars records result.fills result.ordersPlaced s'.broker := by
  -- the condition on a run is one on every prefix of it
  have hStep : ∀ done bar rest log r (s s' : LoopState σ ρ), bars = done ++ bar :: rest →
      (NoOrderBeforeChange done log → Served e done log s.fills s.orders s.broker) →
      BarStep e bar s s' r → NoOrderBeforeChange (done ++ [bar]) (log ++ [r]) →
      Served e (done ++ [bar]) (log ++ [r]) s'.fills s'.orders s'.broker := by
    intro done bar rest log r s s' _ hInv hStep hSame
    have hServed := hInv hSame.of_concat
    rw [hStep.fills, hStep.orders]
    exact hServed.step (hStep.book_own hOwn) fun id order filled => hServed.open_contract hSame
  obtain ⟨s₁, hInv, hBroker, hFills, hOrders⟩ := run_rule
    (fun done log s => NoOrderBeforeChange done log → Served e done log s.fills s.orders s.broker)
    hStep (fun _ => .start hIdle) hRun
  rw [hBroker, hFills, hOrders]
  exact hInv hSame

/-- On every run from a broker without open orders, the next-bar law holds exactly when no order is
placed on the last bar before a change of contract. -/
theorem next_bar_fill_iff {e : BacktestEngine σ ρ} {broker : MockBroker} {guard : ρ} {strategy : σ}
    {bars : List VerifiedBar} {result : RunResult} {records : List BarRecord} {s' : LoopState σ ρ}
    (hIdle : Idle broker) (hOwn : TradesLastContract e.strategy)
    (hRun : e.run bars (.start broker guard strategy) = .ok (result, records) s') :
    NextBarFillLaw e bars records result s'.broker ↔ NoOrderBeforeChange bars records :=
  ⟨fun h => h.noOrderBeforeChange (run_traded hIdle hOwn hRun),
    fun h => (run_served hIdle hOwn hRun h).law⟩

theorem scripted_tradesLastContract : TradesLastContract scripted := by
  intro history bar memory signal memory' h
  cases memory with
  | nil => simp [scripted, except_pure_ok_iff] at h
  | cons play rest =>
    simp only [scripted, List.getLast?_append, List.getLast?_singleton, Option.some_or,
      except_bind_ok_iff, except_pure_ok_iff, Prod.mk.injEq, Option.some.injEq] at h
    obtain ⟨signal, hCreate, rfl, -⟩ := h
    unfold Signal.create at hCreate
    split_ifs at hCreate
    cases hCreate
    rfl

def spliced : List VerifiedBar :=
  [dailyBar "CLF26" .dec10 75, dailyBar "CLF26" .dec11 75,
    dailyBar "CLG26" .dec12 76, dailyBar "CLG26" .dec15 76]

def buyBeforeSplice : List (ℤ × ℚ) := [(0, 0), (1, 20)]

theorem next_bar_fill_iff_spliced : ∃ result records s',
    (scriptedEngine false []).run spliced (.start freshBroker () buyBeforeSplice) =
        .ok (result, records) s' ∧
      (NextBarFillLaw (scriptedEngine false []) spliced records result s'.broker ↔
        NoOrderBeforeChange spliced records) := by
  have hReturns : returns ((scriptedEngine false []).run spliced)
      (.start freshBroker () buyBeforeSplice) (fun _ _ => true) = true := by decide +kernel
  obtain ⟨⟨result, records⟩, s', hRun, -⟩ := exists_ok_of_returns hReturns
  exact ⟨result, records, s', hRun,
    next_bar_fill_iff (MockBroker.fresh_idle _) scripted_tradesLastContract hRun⟩

/-- The order of the second bar is never filled: one order, no fill, none placed on the last bar. -/
theorem order_before_splice_unfilled : ∃ result records s',
    (scriptedEngine false []).run spliced (.start freshBroker () buyBeforeSplice) =
        .ok (result, records) s' ∧
      TradesLastContract (scriptedEngine false []).strategy ∧
      ¬NextBarFillLaw (scriptedEngine false []) spliced records result s'.broker := by
  have hReturns : returns ((scriptedEngine false []).run spliced)
      (.start freshBroker () buyBeforeSplice) (fun out _ =>
        out.1.fills + (lastPlaced out.2).toList.length ≠ out.1.ordersPlaced) = true := by
    decide +kernel
  obtain ⟨⟨result, records⟩, s', hRun, hCount⟩ := exists_ok_of_returns hReturns
  exact ⟨result, records, s', hRun, scripted_tradesLastContract,
    fun hLaw => of_decide_eq_true hCount hLaw.fills_count⟩

end Futur3.Engine
