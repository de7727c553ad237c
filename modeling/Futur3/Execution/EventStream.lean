import Futur3.Execution.OrderLifecycle

/-! # What the event stream tells

A consumer of the event buffer alone follows every order: its fills add up, what
remains is what its current quantity leaves, and nothing comes after its end. The
quantity an event speaks of is the order's at the moment it is emitted.
-/

namespace Futur3.Execution

open Data Prelude Method

def OrderEventType.IsFinal : OrderEventType → Prop
  | .filled | .cancelled => True
  | _ => False

instance : DecidablePred OrderEventType.IsFinal
  | .filled | .cancelled => .isTrue trivial
  | .submitted | .ack | .partialFill | .rejected | .modified => .isFalse id

abbrev Stamped := OrderEvent × ℤ

def filledSum (story : List Stamped) : ℤ := (story.map fun p => p.1.fillQuantity.getD 0).sum

/-- The events of one order in stream order make sense together. -/
structure Coherent (story : List Stamped) : Prop where
  monotone : story.Pairwise fun p p' => p.1.cumulativeFilled ≤ p'.1.cumulativeFilled
  running : ∀ before p after, story = before ++ p :: after →
    p.1.cumulativeFilled = filledSum before + p.1.fillQuantity.getD 0
  remaining : ∀ p ∈ story, p.1.remainingQuantity = p.2 - p.1.cumulativeFilled
  final : story.Pairwise fun p _ => ¬p.1.eventType.IsFinal
  client : ∀ p ∈ story, ∀ p' ∈ story, p.1.clientOrderId = p'.1.clientOrderId

theorem filledSum_append (xs ys : List Stamped) :
    filledSum (xs ++ ys) = filledSum xs + filledSum ys := by
  simp [filledSum]

theorem coherent_nil : Coherent [] := ⟨.nil, by simp, by simp, .nil, by simp⟩

theorem Coherent.concat {story : List Stamped} {p : Stamped} (h : Coherent story)
    (hMonotone : ∀ p' ∈ story, p'.1.cumulativeFilled ≤ p.1.cumulativeFilled)
    (hRunning : p.1.cumulativeFilled = filledSum story + p.1.fillQuantity.getD 0)
    (hRemaining : p.1.remainingQuantity = p.2 - p.1.cumulativeFilled)
    (hFinal : ∀ p' ∈ story, ¬p'.1.eventType.IsFinal)
    (hClient : ∀ p' ∈ story, p'.1.clientOrderId = p.1.clientOrderId) : Coherent (story ++ [p]) where
  monotone :=
    List.pairwise_append.mpr ⟨h.monotone, List.pairwise_singleton _ _, by simpa using hMonotone⟩
  running before p' after hSplit := by
    rcases List.eq_nil_or_concat after with rfl | ⟨front, last, rfl⟩
    · obtain ⟨rfl, hLast⟩ := List.append_inj' hSplit rfl
      obtain rfl := List.singleton_inj.mp hLast
      exact hRunning
    · rw [List.concat_eq_append, ← List.cons_append, ← List.append_assoc] at hSplit
      obtain ⟨hFront, -⟩ := List.append_inj' hSplit rfl
      exact h.running before p' front hFront
  remaining p' hMem := by
    rcases List.mem_append.mp hMem with hOld | hNew
    · exact h.remaining p' hOld
    · obtain rfl := List.mem_singleton.mp hNew
      exact hRemaining
  final :=
    List.pairwise_append.mpr
      ⟨h.final, List.pairwise_singleton _ _, fun p' hMem _ _ => hFinal p' hMem⟩
  client p₁ hMem₁ p₂ hMem₂ := by
    have hSame : ∀ q ∈ story ++ [p], q.1.clientOrderId = p.1.clientOrderId := by
      intro q hMem
      rcases List.mem_append.mp hMem with hOld | hNew
      · exact hClient q hOld
      · rw [List.mem_singleton.mp hNew]
    rw [hSame p₁ hMem₁, hSame p₂ hMem₂]

def BrokerConfig.ReadsUtc (config : BrokerConfig) : Prop :=
  ∀ n, (config.clockNow n).utcoffset = some 0

namespace MockBroker

def orderQuantity (b : MockBroker) (id : BrokerOrderId) : ℤ :=
  (b.orders.get? id).elim 0 Order.quantity

def stamp (b : MockBroker) (e : OrderEvent) : Stamped := (e, b.orderQuantity e.brokerOrderId)

/-- What `stream_order_events` yields for the events of these calls, each with the quantity of
its order after the call that emitted it. -/
def stampedRun : MockBroker → List BrokerOp → List Stamped
  | _, [] => []
  | b, op :: rest =>
    let b' := op.perform.after b
    (b'.events.drop b.events.length).map b'.stamp ++ stampedRun b' rest

def storyOf (id : BrokerOrderId) (stream : List Stamped) : List Stamped :=
  stream.filter fun p => p.1.brokerOrderId = id

def HasClientId (order : Order) : Prop := order.clientOrderId.getD "" ≠ ""

instance (order : Order) : Decidable (HasClientId order) := inferInstanceAs (Decidable (_ ≠ _))

def ReportedFilled (b : MockBroker) (id : BrokerOrderId) : Prop :=
  ∃ e ∈ b.events, e.brokerOrderId = id ∧ e.eventType = .filled

instance (b : MockBroker) (id : BrokerOrderId) : Decidable (b.ReportedFilled id) :=
  inferInstanceAs (Decidable (∃ e ∈ b.events, _))

def Streamed (b : MockBroker) : BrokerOp → Prop
  | .cancel id =>
    id ∈ b.cancelled ∨ ∀ order ∈ b.orders.get? id, HasClientId order ∧ ¬b.ReportedFilled id
  | .modify id limitPrice stopPrice quantity =>
    ∀ accepted ∈ b.acceptedModify id limitPrice stopPrice quantity,
      HasClientId accepted.1 ∧ ¬b.ReportedFilled id ∧
        (b.filledQty.get? id).getD 0 ≤ accepted.2.quantity
  | .fill id price quantity =>
    ∀ accepted ∈ b.acceptedFill id price quantity,
      HasClientId accepted.1 ∧
        b.Closable accepted.1.contract [accepted.1.side.signed accepted.2.2]
  | .advance bar slippage =>
    (∀ fill ∈ b.barFills bar slippage b.orders.keys, HasClientId fill.1) ∧
      b.Closable bar.contract (deltasOf (b.barFills bar slippage b.orders.keys))
  | _ => True

instance (b : MockBroker) : DecidablePred b.Streamed
  | .place _ => inferInstanceAs (Decidable True)
  | .cancel _ => inferInstanceAs (Decidable (_ ∨ ∀ order ∈ _, _))
  | .modify .. => inferInstanceAs (Decidable (∀ accepted ∈ _, _))
  | .fill .. => inferInstanceAs (Decidable (∀ accepted ∈ _, _))
  | .advance .. => inferInstanceAs (Decidable (_ ∧ _))
  | .roll .. => inferInstanceAs (Decidable True)

/-! ## The story of one order -/

structure Told (b : MockBroker) (id : BrokerOrderId) (story : List Stamped) (order : Order)
    (filled : ℤ) : Prop where
  coherent : Coherent story
  sum : filledSum story = filled
  bounded : ∀ p ∈ story, p.1.cumulativeFilled ≤ filled
  nonneg : 0 ≤ filled
  within : filled ≤ order.quantity
  cancelled : (∃ p ∈ story, p.1.eventType = .cancelled) ↔ id ∈ b.cancelled
  completed : (∃ p ∈ story, p.1.eventType = .filled) → order.quantity ≤ filled
  client : ∀ p ∈ story, p.1.clientOrderId = clientId order (anonymousId id.seq)
  latest : ∃ last, story.getLast? = some last ∧ last.1.cumulativeFilled = filled ∧
    last.1.remainingQuantity = order.quantity - filled

section Story

variable {b b' : MockBroker} {id : BrokerOrderId} {story : List Stamped} {order order' : Order}
  {filled filled' : ℤ} {e : OrderEvent}

theorem Told.running (h : Told b id story order filled) (hOpen : id ∉ b.cancelled)
    (hUnreported : ¬∃ p ∈ story, p.1.eventType = .filled) :
    ∀ p ∈ story, ¬p.1.eventType.IsFinal := by
  intro p hMem hFinal
  cases hType : p.1.eventType with
  | filled => exact hUnreported ⟨p, hMem, hType⟩
  | cancelled => exact hOpen (h.cancelled.mp ⟨p, hMem, hType⟩)
  | _ =>
    rw [hType] at hFinal
    exact hFinal

theorem Told.add (h : Told b id story order filled)
    (hRunning : ∀ p ∈ story, ¬p.1.eventType.IsFinal) (hLe : filled ≤ filled')
    (hWithin : filled' ≤ order'.quantity) (hFill : filled' = filled + e.fillQuantity.getD 0)
    (hCum : e.cumulativeFilled = filled') (hRem : e.remainingQuantity = order'.quantity - filled')
    (hCancelled : e.eventType = .cancelled ↔ id ∈ b'.cancelled)
    (hCompleted : e.eventType = .filled → order'.quantity ≤ filled')
    (hSameClient : order'.clientOrderId = order.clientOrderId)
    (hClient : e.clientOrderId = clientId order (anonymousId id.seq)) :
    Told b' id (story ++ [(e, order'.quantity)]) order' filled' where
  coherent := by
    refine h.coherent.concat (fun p hMem => ?_) ?_ ?_ hRunning fun p hMem => ?_
    · exact (h.bounded p hMem).trans (hCum ▸ hLe)
    · rw [h.sum, hCum, hFill]
    · rw [hRem, hCum]
    · exact (h.client p hMem).trans hClient.symm
  sum := by
    rw [filledSum_append, h.sum, hFill]
    simp [filledSum]
  bounded p hMem := by
    rcases List.mem_append.mp hMem with hOld | hNew
    · exact (h.bounded p hOld).trans hLe
    · rw [List.mem_singleton.mp hNew]
      exact hCum.le
  nonneg := h.nonneg.trans hLe
  within := hWithin
  cancelled := by
    rw [← hCancelled]
    constructor
    · rintro ⟨p, hMem, hType⟩
      rcases List.mem_append.mp hMem with hOld | hNew
      · exact absurd (hType ▸ trivial) (hRunning p hOld)
      · rwa [List.mem_singleton.mp hNew] at hType
    · exact fun hType => ⟨_, List.mem_append_right _ (List.mem_singleton_self _), hType⟩
  completed := by
    rintro ⟨p, hMem, hType⟩
    rcases List.mem_append.mp hMem with hOld | hNew
    · exact absurd (hType ▸ trivial) (hRunning p hOld)
    · rw [List.mem_singleton.mp hNew] at hType
      exact hCompleted hType
  client p hMem := by
    have hSame : clientId order' (anonymousId id.seq) = clientId order (anonymousId id.seq) := by
      simp only [clientId, hSameClient]
    rw [hSame]
    rcases List.mem_append.mp hMem with hOld | hNew
    · exact h.client p hOld
    · rw [List.mem_singleton.mp hNew]
      exact hClient
  latest := ⟨_, List.getLast?_concat, hCum, hRem⟩

theorem Told.first (hType : e.eventType = .submitted) (hQuantity : e.fillQuantity = none)
    (hCum : e.cumulativeFilled = 0) (hRem : e.remainingQuantity = order.quantity)
    (hOpen : id ∉ b.cancelled) (hClient : e.clientOrderId = clientId order (anonymousId id.seq)) :
    Told b id [(e, order.quantity)] order 0 where
  coherent := by
    refine coherent_nil.concat (by simp) ?_ ?_ (by simp) (by simp)
    · rw [hCum, hQuantity]
      rfl
    · rw [hRem, hCum, sub_zero]
  sum := by simp [filledSum, hQuantity]
  bounded := by simp [hCum]
  nonneg := le_rfl
  within := order.quantity_pos.le
  cancelled := by simp [hType, hOpen]
  completed := by simp [hType]
  client := by simpa using hClient
  latest := ⟨_, rfl, hCum, hRem.trans (sub_zero _).symm⟩

theorem Told.placed {client : String} {c : ContractSymbol} {ts ts' : DateTime}
    {submitted ack : OrderEvent}
    (hSubmitted : OrderEvent.create id client c .submitted none none 0 order.quantity ts =
      .ok submitted)
    (hAck : OrderEvent.create id client c .ack none none 0 order.quantity ts' = .ok ack)
    (hClient : client = clientId order (anonymousId id.seq)) (hOpen : id ∉ b.cancelled) :
    Told b id [(submitted, order.quantity), (ack, order.quantity)] order 0 := by
  obtain ⟨-, hSubmittedClient, -, hSubmittedType, -, hSubmittedFill, hSubmittedCum,
    hSubmittedRem⟩ := OrderEvent.create_ok hSubmitted
  obtain ⟨-, hAckClient, -, hAckType, -, hAckFill, hAckCum, hAckRem⟩ := OrderEvent.create_ok hAck
  have hFirst : Told b id [(submitted, order.quantity)] order 0 :=
    .first hSubmittedType hSubmittedFill hSubmittedCum hSubmittedRem hOpen
      (hSubmittedClient.trans hClient)
  refine hFirst.add (fun p hMem => ?_) le_rfl order.quantity_pos.le (by simp [hAckFill]) hAckCum
    (by rw [hAckRem, sub_zero]) (iff_of_false (by simp [hAckType]) hOpen) (by simp [hAckType]) rfl
    (hAckClient.trans hClient)
  rw [List.mem_singleton.mp hMem, hSubmittedType]
  exact not_false

theorem Told.of_cancelled (h : Told b id story order filled)
    (hSame : id ∈ b'.cancelled ↔ id ∈ b.cancelled) : Told b' id story order filled :=
  ⟨h.coherent, h.sum, h.bounded, h.nonneg, h.within, h.cancelled.trans hSame.symm, h.completed,
    h.client, h.latest⟩

theorem clientId_fallback (h : HasClientId order) (fallback fallback' : String) :
    clientId order fallback = clientId order fallback' := by
  unfold HasClientId at h
  unfold clientId
  cases hId : order.clientOrderId with
  | none => simp [hId] at h
  | some client =>
    have hNonempty : client ≠ "" := by simpa [hId] using h
    simp [hNonempty]

end Story

/-! ## The stories of all orders -/

structure Narrates (b : MockBroker) (stream : List Stamped) : Prop where
  buffer : stream.map Prod.fst = b.events
  unknown : ∀ id, b.orders.get? id = none → storyOf id stream = []
  told : ∀ id order filled, b.orders.get? id = some order → b.filledQty.get? id = some filled →
    Told b id (storyOf id stream) order filled

/-- A call appended these events, stamped with the quantities it leaves. -/
structure Appends (b b' : MockBroker) (new : List Stamped) : Prop where
  events : b'.events = b.events ++ new.map Prod.fst
  stamped : ∀ p ∈ new, p.2 = b'.orderQuantity p.1.brokerOrderId

/-- A call appended events to the stream, and the stream still tells every order. -/
def Narrated (b b' : MockBroker) (stream : List Stamped) : Prop :=
  ∃ new, Appends b b' new ∧ Narrates b' (stream ++ new)

section Stream

variable {b b' : MockBroker} {id : BrokerOrderId} {stream new : List Stamped}

theorem storyOf_append (id : BrokerOrderId) (xs ys : List Stamped) :
    storyOf id (xs ++ ys) = storyOf id xs ++ storyOf id ys := List.filter_append ..

theorem storyOf_own (h : ∀ p ∈ new, p.1.brokerOrderId = id) : storyOf id new = new :=
  List.filter_eq_self.mpr fun p hMem => decide_eq_true (h p hMem)

theorem storyOf_other {id' : BrokerOrderId} (h : ∀ p ∈ new, p.1.brokerOrderId = id)
    (hOther : id' ≠ id) : storyOf id' new = [] := by
  refine List.filter_eq_nil_iff.mpr fun p hMem => ?_
  rw [h p hMem]
  simpa using hOther.symm

theorem Appends.emitted (h : Appends b b' new) :
    (b'.events.drop b.events.length).map b'.stamp = new := by
  rw [h.events, List.drop_left, List.map_map]
  refine (List.map_congr_left fun p hMem => ?_).trans (List.map_id new)
  exact Prod.ext rfl (h.stamped p hMem).symm

theorem Narrates.same (h : Narrates b stream) (hOrders : b'.orders = b.orders)
    (hFilled : b'.filledQty = b.filledQty) (hCancelled : b'.cancelled = b.cancelled)
    (hEvents : b'.events = b.events) : Narrates b' stream where
  buffer := h.buffer.trans hEvents.symm
  unknown id hUnknown := h.unknown id (hOrders ▸ hUnknown)
  told id order filled hOrder hFilled' :=
    (h.told id order filled (hOrders ▸ hOrder) (hFilled ▸ hFilled')).of_cancelled (by rw [hCancelled])

theorem Narrated.quiet (h : Narrates b stream) (hOrders : b'.orders = b.orders)
    (hFilled : b'.filledQty = b.filledQty) (hCancelled : b'.cancelled = b.cancelled)
    (hEvents : b'.events = b.events) : Narrated b b' stream := by
  refine ⟨[], ⟨by simpa using hEvents, by simp⟩, ?_⟩
  rw [List.append_nil]
  exact h.same hOrders hFilled hCancelled hEvents

theorem Appends.of_own {order : Order} (hEvents : b'.events = b.events ++ new.map Prod.fst)
    (hOwn : ∀ p ∈ new, p.1.brokerOrderId = id) (hQuantity : ∀ p ∈ new, p.2 = order.quantity)
    (hOrder : b'.orders.get? id = some order) : Appends b b' new := by
  refine ⟨hEvents, fun p hMem => ?_⟩
  rw [hQuantity p hMem, orderQuantity, hOwn p hMem, hOrder]
  rfl

theorem Narrates.extend (h : Narrates b stream) (new : List Stamped) (order : Order) (filled : ℤ)
    (hOwn : ∀ p ∈ new, p.1.brokerOrderId = id) (hQuantity : ∀ p ∈ new, p.2 = order.quantity)
    (hEvents : b'.events = b.events ++ new.map Prod.fst)
    (hOther : ∀ id' ≠ id, b'.orders.get? id' = b.orders.get? id' ∧
      b'.filledQty.get? id' = b.filledQty.get? id' ∧ (id' ∈ b'.cancelled ↔ id' ∈ b.cancelled))
    (hOrder : b'.orders.get? id = some order) (hFilled : b'.filledQty.get? id = some filled)
    (hTold : Told b' id (storyOf id stream ++ new) order filled) : Narrated b b' stream := by
  refine ⟨new, .of_own hEvents hOwn hQuantity hOrder, ?_, fun id' hUnknown => ?_,
    fun id' order' filled' hOrder' hFilled' => ?_⟩
  · rw [List.map_append, h.buffer, hEvents]
  · have hNe : id' ≠ id := by
      rintro rfl
      rw [hOrder] at hUnknown
      cases hUnknown
    rw [storyOf_append, storyOf_other hOwn hNe, List.append_nil]
    exact h.unknown id' ((hOther id' hNe).1 ▸ hUnknown)
  · rw [storyOf_append]
    by_cases hId : id' = id
    · subst hId
      rw [hOrder] at hOrder'
      rw [hFilled] at hFilled'
      cases hOrder'
      cases hFilled'
      rwa [storyOf_own hOwn]
    · obtain ⟨hSameOrder, hSameFilled, hSameCancelled⟩ := hOther id' hId
      rw [storyOf_other hOwn hId, List.append_nil]
      exact (h.told id' order' filled' (hSameOrder ▸ hOrder') (hSameFilled ▸ hFilled')).of_cancelled
        hSameCancelled

theorem Narrates.extend_one (h : Narrates b stream) {e : OrderEvent} (order : Order) (filled : ℤ)
    (hId : e.brokerOrderId = id) (hEvents : b'.events = b.events ++ [e])
    (hOther : ∀ id' ≠ id, b'.orders.get? id' = b.orders.get? id' ∧
      b'.filledQty.get? id' = b.filledQty.get? id' ∧ (id' ∈ b'.cancelled ↔ id' ∈ b.cancelled))
    (hOrder : b'.orders.get? id = some order) (hFilled : b'.filledQty.get? id = some filled)
    (hTold : Told b' id (storyOf id stream ++ [(e, order.quantity)]) order filled) :
    Narrated b b' stream := by
  refine h.extend [(e, order.quantity)] order filled ?_ ?_ hEvents hOther hOrder hFilled hTold
  · intro p hMem
    rw [List.mem_singleton.mp hMem]
    exact hId
  · intro p hMem
    rw [List.mem_singleton.mp hMem]

theorem Narrates.reported (h : Narrates b stream)
    (hFilled : ∃ p ∈ storyOf id stream, p.1.eventType = .filled) : b.ReportedFilled id := by
  obtain ⟨p, hMem, hType⟩ := hFilled
  obtain ⟨hStream, hId⟩ := List.mem_filter.mp hMem
  exact ⟨p.1, h.buffer ▸ List.mem_map_of_mem hStream, of_decide_eq_true hId, hType⟩

end Stream

/-! ## Each call -/

section Calls

variable {b : MockBroker} {id : BrokerOrderId} {stream : List Stamped}

theorem placeOrder_narrated (hConsistent : Consistent b) (hClock : b.config.ReadsUtc)
    (h : Narrates b stream) (order : Order) :
    Narrated b ((placeOrder order).after b) stream := by
  by_cases hSupported : order.orderType ∈ b.supportedOrderTypes
  · set id : BrokerOrderId := ⟨b.nextOrderIdSeq + 1⟩ with hId
    set client := clientId order (anonymousId (b.nextOrderIdSeq + 1)) with hClient
    have hNonneg : (0 : ℤ) ≤ order.quantity := order.quantity_pos.le
    obtain ⟨submitted, hFirst, hSubmitted⟩ := emitEvent_utc id client order.contract
      .submitted none none 0 order.quantity (b := b.withOrder order) (hClock _) le_rfl hNonneg
      (by simp)
    obtain ⟨ack, hSecond, hAck⟩ := emitEvent_utc id client order.contract .ack none none 0
      order.quantity
      (b := { b.withOrder order with
        clockReads := (b.withOrder order).clockReads + 1
        events := (b.withOrder order).events ++ [submitted] }) (hClock _) le_rfl hNonneg (by simp)
    have hRun : (placeOrder order).after b =
        { b.withOrder order with
          clockReads := b.clockReads + 1 + 1
          events := b.events ++ [submitted] ++ [ack] } := by
      rw [Method.after, placeOrder_accepted hSupported, bind_of_ok hFirst, bind_of_ok hSecond]
      rfl
    obtain ⟨hUnknown, hOpen⟩ := hConsistent.next_fresh
    have hTold : Told b id [(submitted, order.quantity), (ack, order.quantity)] order 0 :=
      .placed hSubmitted hAck hClient hOpen
    rw [hRun]
    refine h.extend [(submitted, order.quantity), (ack, order.quantity)] order 0
      ?_ (by simp) (by simp) (fun id' hOther => ?_) (Dict.get?_set_self ..) (Dict.get?_set_self ..) ?_
    · simp [(OrderEvent.create_ok hSubmitted).1, (OrderEvent.create_ok hAck).1, hId]
    · exact ⟨Dict.get?_set_of_ne _ _ hOther, Dict.get?_set_of_ne _ _ hOther, Iff.rfl⟩
    · rw [h.unknown id hUnknown]
      exact hTold.of_cancelled Iff.rfl
  · rw [after_of_error (placeOrder_refused hSupported)]
    exact .quiet h rfl rfl rfl rfl

theorem cancelOrder_narrated (hConsistent : Consistent b) (hClock : b.config.ReadsUtc)
    (h : Narrates b stream) (hStreamed : b.Streamed (.cancel id)) :
    Narrated b ((cancelOrder id).after b) stream := by
  by_cases hRefused : b.orders.get? id = none ∨ id ∈ b.cancelled
  · obtain ⟨e, hError, -⟩ := cancelOrder_refused hRefused
    rw [after_of_error hError]
    exact .quiet h rfl rfl rfl rfl
  · rw [not_or] at hRefused
    obtain ⟨hKnown, hOpen⟩ := hRefused
    obtain ⟨order, hOrder⟩ := Option.ne_none_iff_exists'.mp hKnown
    obtain ⟨filled, hFilled⟩ := hConsistent.tracked id order hOrder
    obtain ⟨hNamed, hUnreported⟩ := hStreamed.resolve_left hOpen order hOrder
    have hTold := h.told id order filled hOrder hFilled
    have hLeft : 0 ≤ order.quantity - filled := sub_nonneg.mpr hTold.within
    obtain ⟨e, hEmit, hCreate⟩ := emitEvent_utc id (clientId order "anon") order.contract
      .cancelled none none filled (max 0 (order.quantity - filled))
      (b := { b with cancelled := insert id b.cancelled }) (hClock _) hTold.nonneg
      (le_max_left _ _) (by simp)
    obtain ⟨hId, hClient, -, hType, -, hQuantity, hCum, hRem⟩ := OrderEvent.create_ok hCreate
    have hRun : cancelOrder id b = .ok ⟨⟩ _ :=
      (cancelOrder_accepted hOrder hOpen hFilled).trans (bind_of_ok hEmit)
    rw [after_of_ok hRun]
    refine h.extend_one _ _ hId rfl (fun id' hOther => ⟨rfl, rfl, ?_⟩) hOrder hFilled ?_
    · simp [hOther]
    · refine hTold.add (hTold.running hOpen fun hDone => hUnreported (h.reported hDone)) le_rfl
        hTold.within (by simp [hQuantity]) hCum (by rw [hRem, max_eq_right hLeft])
        (iff_of_true hType (Finset.mem_insert_self ..)) (by simp [hType]) rfl ?_
      rw [hClient, clientId_fallback hNamed]

theorem modifyOrder_narrated (hConsistent : Consistent b) (hClock : b.config.ReadsUtc)
    (h : Narrates b stream) {limitPrice stopPrice : Option ℚ} {quantity : Option ℤ}
    (hStreamed : b.Streamed (.modify id limitPrice stopPrice quantity)) :
    Narrated b ((modifyOrder id limitPrice stopPrice quantity).after b) stream := by
  cases hAccepted : b.acceptedModify id limitPrice stopPrice quantity with
  | none =>
    obtain ⟨e, hError⟩ := modifyOrder_refused hAccepted
    rw [after_of_error hError]
    exact .quiet h rfl rfl rfl rfl
  | some accepted =>
    obtain ⟨order, newOrder⟩ := accepted
    obtain ⟨hOrder, hOpen, -, hNewOrder⟩ := acceptedModify_eq_some.mp hAccepted
    obtain ⟨filled, hFilled⟩ := hConsistent.tracked id order hOrder
    obtain ⟨hNamed, hUnreported, hAbove⟩ := hStreamed _ hAccepted
    rw [hFilled] at hAbove
    have hTold := h.told id order filled hOrder hFilled
    have hLeft : 0 ≤ newOrder.quantity - filled := sub_nonneg.mpr hAbove
    obtain ⟨e, hEmit, hCreate⟩ := emitEvent_utc id (clientId order "anon") order.contract
      .modified none none filled (max 0 (newOrder.quantity - filled))
      (b := { b with orders := b.orders.set id newOrder }) (hClock _) hTold.nonneg
      (le_max_left _ _) (by simp)
    obtain ⟨hId, hClient, -, hType, -, hQuantity, hCum, hRem⟩ := OrderEvent.create_ok hCreate
    have hRun : modifyOrder id limitPrice stopPrice quantity b = .ok ⟨⟩ _ :=
      (modifyOrder_accepted hAccepted hFilled).trans (bind_of_ok hEmit)
    rw [after_of_ok hRun]
    refine h.extend_one _ _ hId rfl (fun id' hOther => ⟨Dict.get?_set_of_ne _ _ hOther, rfl, Iff.rfl⟩)
      (Dict.get?_set_self ..) hFilled ?_
    refine hTold.add (hTold.running hOpen fun hDone => hUnreported (h.reported hDone)) le_rfl
      hAbove (by simp [hQuantity]) hCum (by rw [hRem, max_eq_right hLeft])
      (iff_of_false (by simp [hType]) hOpen) (by simp [hType])
      (Order.create_ok hNewOrder).2.2.2.2.2.2 ?_
    rw [hClient, clientId_fallback hNamed]

theorem fillOrder_narrated (hClock : b.config.ReadsUtc) (h : Narrates b stream) {price : ℚ}
    {quantity : Option ℤ} {order : Order} {filled actual : ℤ}
    (hAccepted : b.acceptedFill id price quantity = some (order, filled, actual))
    (hNamed : HasClientId order)
    (hClosable : b.Closable order.contract [order.side.signed actual]) :
    ∃ e b', fillOrder id price quantity b = .ok e b' ∧ Narrated b b' stream := by
  obtain ⟨hOrder, hFilled, hOpen, -, -, hPos, hLe⟩ := acceptedFill_eq_some.mp hAccepted
  have hTold := h.told id order filled hOrder hFilled
  obtain ⟨e, s, hBooked, hCreate, hFill⟩ :=
    fillOrder_returns hAccepted hTold.nonneg (hClock _) hClosable
  obtain ⟨hId, hClient, -, hType, -, hQuantity, hCum, hRem⟩ := OrderEvent.create_ok hCreate
  refine ⟨e, _, hFill, ?_⟩
  have hSameCancelled : s.cancelled = b.cancelled := hBooked.cancelled
  refine h.extend_one order (filled + actual) hId rfl (fun id' hOther => ?_) ?_ ?_ ?_
  · refine ⟨congrArg (Dict.get? · id') hBooked.orders, ?_, by rw [hSameCancelled]⟩
    exact (congrArg (Dict.get? · id') hBooked.filledQty).trans (Dict.get?_set_of_ne _ _ hOther)
  · exact (congrArg (Dict.get? · id) hBooked.orders).trans hOrder
  · exact (congrArg (Dict.get? · id) hBooked.filledQty).trans (Dict.get?_set_self ..)
  · have hUnfinished : ¬∃ p ∈ storyOf id stream, p.1.eventType = .filled := by
      intro hDone
      have := hTold.completed hDone
      omega
    refine hTold.add (hTold.running hOpen hUnfinished) (by omega) (by omega) (by simp [hQuantity])
      hCum hRem (iff_of_false ?_ (by rwa [hSameCancelled])) ?_ rfl ?_
    · rw [hType]
      split <;> simp
    · rw [hType]
      split
      · omega
      · simp
    · rw [hClient, clientId_fallback hNamed]

/-- The loop over a bar, for any orders still to visit. -/
theorem each_narrated {bar : VerifiedBar} {slippage : Option SlippageModel}
    {ids : List BrokerOrderId} (hNodup : ids.Nodup)
    (hKnown : ∀ id ∈ ids, ∃ order, b.orders.get? id = some order) (hConsistent : Consistent b)
    (hClock : b.config.ReadsUtc) (h : Narrates b stream)
    (hNamed : ∀ fill ∈ b.barFills bar slippage ids, HasClientId fill.1)
    (hClosable : b.Closable bar.contract (deltasOf (b.barFills bar slippage ids))) :
    Narrated b ((each (advanceOrder bar slippage) ids).after b) stream := by
  induction ids generalizing b stream with
  | nil => exact .quiet h rfl rfl rfl rfl
  | cons id rest ih =>
    obtain ⟨hNotMem, hRest⟩ := List.nodup_cons.mp hNodup
    have hKnownRest := fun id' hMem => hKnown id' (List.mem_cons_of_mem id hMem)
    obtain ⟨known, hOrder⟩ := hKnown id List.mem_cons_self
    obtain ⟨filled, hFilled⟩ := hConsistent.tracked id known hOrder
    rcases advanceOrder_turn bar slippage hOrder hFilled rest with
      ⟨hIdle, hFills, -⟩ | ⟨⟨e, hError⟩, -⟩ |
        ⟨order, remaining, price, hContract, hAccepted, hTurn, hFills, -⟩
    · rw [hFills] at hNamed hClosable
      rw [after_each_cons_ok hIdle]
      exact ih hRest hKnownRest hConsistent hClock h hNamed hClosable
    · rw [after_each_cons_error hError]
      exact .quiet h rfl rfl rfl rfl
    · rw [hFills] at hNamed hClosable
      have hHead : b.Closable order.contract [order.side.signed remaining] :=
        hContract ▸ hClosable.head
      obtain ⟨e, b', hFill, new, hAppends, hNarrates⟩ :=
        fillOrder_narrated hClock h hAccepted (hNamed _ List.mem_cons_self) hHead
      have hStep := fillOrder_step hAccepted hFill
      have hClosable' := ((closable_cons_iff (hContract ▸ hStep.net_own)).mp hClosable).2
      have hFillsRest :=
        (barFills_after bar slippage hStep.orders hStep.cancelled hStep.filledQty hNotMem).1
      have hConsistent' : Consistent b' := by
        have := fillOrder_consistent hConsistent id price none
        rwa [after_of_ok hFill] at this
      have hRun : advanceOrder bar slippage id b = .ok [e] b' := hTurn.trans (bind_of_ok hFill)
      rw [after_each_cons_ok hRun]
      obtain ⟨later, hAppendsLater, hNarratesLater⟩ := ih hRest
        (fun id' hMem => hStep.orders ▸ hKnownRest id' hMem) hConsistent' (hStep.config ▸ hClock)
        hNarrates (fun fill hMem => hNamed fill (List.mem_cons_of_mem _ (hFillsRest ▸ hMem)))
        (hFillsRest ▸ hClosable')
      have hKeep : ((each (advanceOrder bar slippage) rest).after b').orders = b'.orders :=
        barLoop_invariant (fun t => t.orders = b'.orders)
          (fun id' price' t ht => (fillOrder_after_orders price' none).trans ht) rfl
      refine ⟨new ++ later, ⟨?_, fun p hMem => ?_⟩, ?_⟩
      · rw [hAppendsLater.events, hAppends.events, List.map_append, List.append_assoc]
      · rcases List.mem_append.mp hMem with hNew | hLater
        · rw [hAppends.stamped p hNew, orderQuantity, orderQuantity, hKeep]
        · exact hAppendsLater.stamped p hLater
      · rw [← List.append_assoc]
        exact hNarratesLater

theorem advance_narrated {bar : VerifiedBar} {slippage : Option SlippageModel}
    (hConsistent : Consistent b) (hClock : b.config.ReadsUtc) (h : Narrates b stream)
    (hStreamed : b.Streamed (.advance bar slippage)) :
    Narrated b ((advance bar slippage).after b) stream := by
  rw [advance_after]
  exact each_narrated b.orders.keys_nodup (fun id hMem => (b.orders.mem_keys_iff id).mp hMem)
    hConsistent hClock h hStreamed.1 hStreamed.2

/-- What one faithful call adds to the stream tells every order. -/
theorem perform_narrated (hConsistent : Consistent b) (hClock : b.config.ReadsUtc)
    (h : Narrates b stream) {op : BrokerOp} (hStreamed : b.Streamed op) :
    Narrated b (op.perform.after b) stream := by
  cases op with
  | place order =>
    rw [BrokerOp.perform, after_forget]
    exact placeOrder_narrated hConsistent hClock h order
  | cancel id => exact cancelOrder_narrated hConsistent hClock h hStreamed
  | modify id limitPrice stopPrice quantity =>
    exact modifyOrder_narrated hConsistent hClock h hStreamed
  | fill id price quantity =>
    rw [BrokerOp.perform, after_forget]
    cases hAccepted : b.acceptedFill id price quantity with
    | none =>
      obtain ⟨e, hError⟩ := fillOrder_refused hAccepted
      rw [after_of_error hError]
      exact .quiet h rfl rfl rfl rfl
    | some accepted =>
      obtain ⟨hNamed, hClosable⟩ := hStreamed _ hAccepted
      obtain ⟨e, b', hFill, hNarrated⟩ :=
        fillOrder_narrated hClock h hAccepted hNamed hClosable
      rwa [after_of_ok hFill]
  | advance bar slippage =>
    rw [BrokerOp.perform, after_forget]
    exact advance_narrated hConsistent hClock h hStreamed
  | roll front back frontFill backFill =>
    rw [BrokerOp.perform, after_forget]
    have hSame : SameBook b ((rollPosition front back frontFill backFill).after b) :=
      rollPosition_sameBook
    exact .quiet h hSame.orders hSame.filledQty hSame.cancelled hSame.events

end Calls

/-! ## Runs -/

structure Reconstructs (b : MockBroker) (id : BrokerOrderId) (order : Order) (last : OrderEvent) :
    Prop where
  filled : b.filledQty.get? id = some last.cumulativeFilled
  remaining : last.remainingQuantity = order.quantity - last.cumulativeFilled
  complete : b.FullyFilled id ↔ last.remainingQuantity = 0
  cancelled : id ∈ b.cancelled ↔ last.eventType = .cancelled
  client : last.clientOrderId = clientId order (anonymousId id.seq)

def Followed (b : MockBroker) (stream : List Stamped) (id : BrokerOrderId) (order : Order) : Prop :=
  Coherent (storyOf id stream) ∧
    ∃ last, (storyOf id stream).getLast? = some last ∧ b.Reconstructs id order last.1

theorem Told.followed {b : MockBroker} {id : BrokerOrderId} {stream : List Stamped} {order : Order}
    {filled : ℤ} (h : Told b id (storyOf id stream) order filled)
    (hOrder : b.orders.get? id = some order) (hFilled : b.filledQty.get? id = some filled) :
    b.Followed stream id order := by
  obtain ⟨last, hLast, hCum, hRem⟩ := h.latest
  obtain ⟨front, hStory⟩ := List.getLast?_eq_some_iff.mp hLast
  have hMem : last ∈ storyOf id stream := by simp [hStory]
  refine ⟨h.coherent, last, hLast, hCum ▸ hFilled, hCum ▸ hRem, ?_, ?_, h.client last hMem⟩
  · rw [hRem]
    constructor
    · rintro ⟨order', filled', hOrder', hFilled', hLe⟩
      rw [hOrder] at hOrder'
      rw [hFilled] at hFilled'
      cases hOrder'
      cases hFilled'
      have := h.within
      omega
    · exact fun hZero => ⟨order, filled, hOrder, hFilled, by omega⟩
  · rw [← h.cancelled]
    constructor
    · rintro ⟨p, hp, hType⟩
      -- a cancellation is final, so nothing comes after it
      rw [hStory] at hp
      rcases List.mem_append.mp hp with hFront | hEnd
      · have hFinal := h.coherent.final
        rw [hStory] at hFinal
        have := (List.pairwise_append.mp hFinal).2.2 p hFront last (List.mem_singleton_self last)
        rw [hType] at this
        exact absurd trivial this
      · rwa [List.mem_singleton.mp hEnd] at hType
    · exact fun hType => ⟨last, hMem, hType⟩

theorem runAll_narrates {b : MockBroker} {stream : List Stamped} {ops : List BrokerOp}
    (hConsistent : Consistent b) (hClock : b.config.ReadsUtc) (h : Narrates b stream)
    (hFollows : Follows BrokerOp.perform Streamed b ops) :
    Narrates (runAll BrokerOp.perform b ops) (stream ++ stampedRun b ops) := by
  induction ops generalizing b stream with
  | nil => simpa [stampedRun, runAll] using h
  | cons op rest ih =>
    obtain ⟨new, hAppends, hNarrates⟩ := perform_narrated hConsistent hClock h hFollows.1
    rw [stampedRun, hAppends.emitted, ← List.append_assoc]
    refine ih (perform_consistent hConsistent op) ?_ hNarrates hFollows.2
    rw [perform_config hConsistent]
    exact hClock

/-- In every run of faithful calls under a clock that reads UTC, the events of each order make
sense together and the last of them gives its state. -/
theorem event_stream_tells {config : BrokerConfig} (hClock : config.ReadsUtc) {ops : List BrokerOp}
    (h : Follows BrokerOp.perform Streamed (fresh config) ops) :
    let b := runAll BrokerOp.perform (fresh config) ops
    let stream := stampedRun (fresh config) ops
    stream.map Prod.fst = b.events ∧
      ∀ id order, b.orders.get? id = some order → b.Followed stream id order := by
  intro b stream
  have hStart : Narrates (fresh config) [] := ⟨rfl, fun _ _ => rfl, by simp [fresh]⟩
  have hConsistent : Consistent b := Reachable.consistent ⟨config, ops, rfl⟩
  have hNarrates : Narrates b stream :=
    runAll_narrates (fresh_idle config).toConsistent hClock hStart h
  refine ⟨hNarrates.buffer, fun id order hOrder => ?_⟩
  obtain ⟨filled, hFilled⟩ := hConsistent.tracked id order hOrder
  exact (hNarrates.told id order filled hOrder hFilled).followed hOrder hFilled

/-- Three contracts bought in two fills after a modification, and an order cancelled. -/
def toldSession : List BrokerOp :=
  [.place (.atMarket "ESM26" .buy 2 two_contracts (some "entry")), .fill ⟨1⟩ 5000 (some 1),
    .modify ⟨1⟩ none none (some 3), .fill ⟨1⟩ 5001 none,
    .place (.atMarket "ESM26" .sell 1 Int.one_pos (some "exit")), .cancel ⟨2⟩]

theorem event_stream_tells_session :
    let b := runAll BrokerOp.perform (fresh .steady) toldSession
    b.events.length = 8 ∧ ∃ order, b.Followed (stampedRun (fresh .steady) toldSession) ⟨1⟩ order := by
  have hStreamed : Follows BrokerOp.perform Streamed (fresh .steady) toldSession := by
    decide +kernel
  obtain ⟨-, hTold⟩ := event_stream_tells (fun _ => rfl) hStreamed
  have hKnown : ((runAll BrokerOp.perform (fresh .steady) toldSession).orders.get? ⟨1⟩).isSome =
    true := by decide +kernel
  obtain ⟨order, hOrder⟩ := Option.isSome_iff_exists.mp hKnown
  exact ⟨by decide +kernel, order, hTold ⟨1⟩ order hOrder⟩

def anonymousFill : List BrokerOp :=
  [.place (.atMarket "ESM26" .buy 1 Int.one_pos none), .fill ⟨1⟩ 5000 none]

/-- The submission of an anonymous order and its fill carry different client ids. -/
theorem anonymous_fill_unmatched :
    ¬∀ config : BrokerConfig, config.ReadsUtc → ∀ ops : List BrokerOp,
      let b := runAll BrokerOp.perform (fresh config) ops
      ∀ id order, b.orders.get? id = some order →
        b.Followed (stampedRun (fresh config) ops) id order := by
  intro hClaim
  have hTold := hClaim .steady (fun _ => rfl) anonymousFill ⟨1⟩
  have hKnown : ((runAll BrokerOp.perform (fresh .steady) anonymousFill).orders.get? ⟨1⟩).isSome =
    true := by decide +kernel
  obtain ⟨order, hOrder⟩ := Option.isSome_iff_exists.mp hKnown
  have hClient := (hTold order hOrder).1.client
  have hDiffer : ¬∀ p ∈ storyOf ⟨1⟩ (stampedRun (fresh .steady) anonymousFill),
      ∀ p' ∈ storyOf ⟨1⟩ (stampedRun (fresh .steady) anonymousFill),
        p.1.clientOrderId = p'.1.clientOrderId := by decide +kernel
  exact hDiffer hClient

end MockBroker

end Futur3.Execution
