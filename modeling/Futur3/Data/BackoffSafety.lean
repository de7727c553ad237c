import Futur3.Data.BackoffQueue
import Mathlib.Algebra.Order.Ring.Rat
import Mathlib.Tactic.Linarith
import Mathlib.Tactic.NormNum

/-! # The rate limits over whole runs

The logs follow the history of granted acquires: each has dropped only what has
left its window. A grant therefore stays within the limits as long as the gate
does not let an acquire through past a log that already exceeds its limit.
-/

namespace Futur3.Data

open Prelude Prelude.Method RollingWindow

/-! ## The history of a run -/

def QueueEvent.grantTime? : QueueEvent → Option ℚ
  | granted _ recordedAt _ _ => some recordedAt
  | _ => none

def QueueEvent.grantTimeOf? (contractKey : String) : QueueEvent → Option ℚ
  | granted key recordedAt _ _ => if key = contractKey then some recordedAt else none
  | _ => none

def grantTimes (events : List QueueEvent) : List ℚ :=
  events.filterMap QueueEvent.grantTime?

def grantTimesOf (contractKey : String) (events : List QueueEvent) : List ℚ :=
  events.filterMap (QueueEvent.grantTimeOf? contractKey)

def QueueEvent.inFlightAfter (n : ℕ) : QueueEvent → ℕ
  | granted _ _ _ _ => n + 1
  | exited => n - 1
  | _ => n

def inFlight (events : List QueueEvent) : ℕ :=
  events.foldl QueueEvent.inFlightAfter 0

theorem grantTimes_concat (events : List QueueEvent) (e : QueueEvent) :
    grantTimes (events ++ [e]) = grantTimes events ++ e.grantTime?.toList := by
  unfold grantTimes
  rw [List.filterMap_append]
  cases h : e.grantTime? <;> simp [h]

theorem grantTimesOf_concat (contractKey : String) (events : List QueueEvent) (e : QueueEvent) :
    grantTimesOf contractKey (events ++ [e]) =
      grantTimesOf contractKey events ++ (e.grantTimeOf? contractKey).toList := by
  unfold grantTimesOf
  rw [List.filterMap_append]
  cases h : e.grantTimeOf? contractKey <;> simp [h]

theorem inFlight_concat (events : List QueueEvent) (e : QueueEvent) :
    inFlight (events ++ [e]) = e.inFlightAfter (inFlight events) := by
  simp [inFlight]

/-- The three limits at the moment `t` an acquire of the key has been recorded. -/
structure WithinLimits (config : BackoffQueueConfig) (events : List QueueEvent)
    (contractKey : String) (t : ℚ) : Prop where
  global : (recent config.globalWindow t (grantTimes events) : ℤ) ≤ config.globalLimit
  perContract : (recent config.perContractWindow t (grantTimesOf contractKey events) : ℤ) ≤
    config.perContractLimit
  concurrent : (inFlight events : ℤ) ≤ config.concurrentLimit

/-- Every grant is within the limits at the moment it is recorded. -/
def RateLimited (config : BackoffQueueConfig) (events : List QueueEvent) : Prop :=
  ∀ before contractKey t g c after, events = before ++ .granted contractKey t g c :: after →
    WithinLimits config (before ++ [.granted contractKey t g c]) contractKey t

/-- A granted acquire was not let through past a log that already exceeds its limit. -/
def QueueEvent.LoadsWithinLimits (config : BackoffQueueConfig) : QueueEvent → Prop
  | granted _ _ globalLoad perContractLoad =>
    globalLoad ≤ config.globalLimit ∧ perContractLoad ≤ config.perContractLimit
  | _ => True

instance (config : BackoffQueueConfig) (e : QueueEvent) : Decidable (e.LoadsWithinLimits config) :=
  match e with
  | .granted _ _ globalLoad perContractLoad =>
    inferInstanceAs (Decidable
      (globalLoad ≤ config.globalLimit ∧ perContractLoad ≤ config.perContractLimit))
  | .refusedEmptyKey | .asleep _ | .timedOut _ | .exited | .counted _ | .nobodyAsleep =>
    inferInstanceAs (Decidable True)

theorem RateLimited.concat {config : BackoffQueueConfig} {events : List QueueEvent} {e : QueueEvent}
    (h : RateLimited config events)
    (hNew : ∀ contractKey t g c, e = .granted contractKey t g c →
      WithinLimits config (events ++ [e]) contractKey t) :
    RateLimited config (events ++ [e]) := by
  intro before contractKey t g c after hSplit
  rcases List.eq_nil_or_concat after with rfl | ⟨after', last, rfl⟩
  · obtain ⟨rfl, hLast⟩ := List.append_inj' hSplit rfl
    obtain rfl := List.singleton_inj.mp hLast
    exact hNew contractKey t g c rfl
  · rw [List.concat_eq_append, ← List.cons_append, ← List.append_assoc] at hSplit
    obtain ⟨hEvents, -⟩ := List.append_inj' hSplit rfl
    exact h before contractKey t g c after' hEvents

/-! ## One step at a time -/

/-- The logs follow the granted acquires and the counter the requests in flight. -/
structure Accounts (config : BackoffQueueConfig) (events : List QueueEvent)
    (queue : BackoffQueue) : Prop where
  config_eq : queue.config = config
  global : Follows config.globalWindow queue.clock.time queue.globalLog (grantTimes events)
  perContract : ∀ key, Follows config.perContractWindow queue.clock.time (queue.contractLog key)
    (grantTimesOf key events)
  concurrent : queue.concurrentCount = inFlight events

section Steps

open BackoffQueue

variable {config : BackoffQueueConfig} {events : List QueueEvent} {queue queue' : BackoffQueue}
variable {contractKey : String}

theorem create_accounts (config : BackoffQueueConfig) (clock : MonotonicClock) :
    Accounts config [] (create config clock) where
  config_eq := rfl
  global := Follows.nil _ _
  perContract _ := Follows.nil _ _
  concurrent := rfl

/-- Assigning one key's log leaves the others alone. -/
theorem contractLog_set (logs : Dict String (List ℚ)) (contractKey key : String) (log : List ℚ) :
    ((logs.set contractKey log).get? key).getD [] =
      if key = contractKey then log else (logs.get? key).getD [] := by
  rw [Dict.get?_set]
  split <;> rfl

theorem Accounts.later {clock : MonotonicClock} (h : Accounts config events queue)
    (hLater : queue.clock.time ≤ clock.time) : Accounts config events { queue with clock } where
  config_eq := h.config_eq
  global := h.global.later hLater
  perContract key := (h.perContract key).later hLater
  concurrent := h.concurrent

/-- An event that neither grants nor ends a request changes no figure. -/
theorem Accounts.observe (h : Accounts config events queue) {e : QueueEvent}
    (hGrant : e.grantTime? = none) (hGrantOf : ∀ key, e.grantTimeOf? key = none)
    (hFlight : ∀ n, e.inFlightAfter n = n) : Accounts config (events ++ [e]) queue where
  config_eq := h.config_eq
  global := by
    rw [grantTimes_concat, hGrant]
    simpa using h.global
  perContract key := by
    rw [grantTimesOf_concat, hGrantOf]
    simpa using h.perContract key
  concurrent := by
    rw [inFlight_concat, hFlight]
    exact h.concurrent

theorem monotonic_ok {now : ℚ} (h : monotonic queue = .ok now queue') :
    now = queue'.clock.time ∧ queue' = { queue with clock := queue.clock.next } := by
  simp only [monotonic, bind_ok_iff, modify_ok_iff, get_ok_iff, pure_ok_iff] at h
  obtain ⟨_, _, rfl, _, _, ⟨rfl, rfl⟩, rfl, rfl⟩ := h
  exact ⟨rfl, rfl⟩

theorem monotonic_accounts {now : ℚ} (h : Accounts config events queue)
    (hRun : monotonic queue = .ok now queue') :
    now = queue'.clock.time ∧ Accounts config events queue' := by
  obtain ⟨hNow, rfl⟩ := monotonic_ok hRun
  exact ⟨hNow, h.later queue.clock.time_le_next⟩

theorem pruneGlobal_accounts (h : Accounts config events queue)
    (hRun : pruneGlobal queue = .ok () queue') : Accounts config events queue' := by
  simp only [pruneGlobal, bind_ok_iff, modify_ok_iff] at hRun
  obtain ⟨now, read, hClock, rfl⟩ := hRun
  obtain ⟨rfl, hRead⟩ := monotonic_accounts h hClock
  refine ⟨hRead.config_eq, ?_, hRead.perContract, hRead.concurrent⟩
  have hPruned := hRead.global.prune
  rw [← hRead.config_eq] at hPruned ⊢
  exact hPruned

theorem prunePerContract_accounts (h : Accounts config events queue)
    (hRun : prunePerContract contractKey queue = .ok () queue') :
    Accounts config events queue' := by
  simp only [prunePerContract, bind_ok_iff, modify_ok_iff] at hRun
  obtain ⟨now, read, hClock, rfl⟩ := hRun
  obtain ⟨rfl, hRead⟩ := monotonic_accounts h hClock
  refine ⟨hRead.config_eq, hRead.global, ?_, hRead.concurrent⟩
  intro key
  simp only [contractLog, contractLog_set]
  by_cases hKey : key = contractKey
  · have hPruned := (hRead.perContract contractKey).prune
    rw [← hRead.config_eq] at hPruned ⊢
    rw [if_pos hKey, hKey]
    exact hPruned
  · rw [if_neg hKey]
    exact hRead.perContract key

theorem recordAcquire_accounts (h : Accounts config events queue) (globalLoad perContractLoad : ℕ)
    (hRun : recordAcquire contractKey queue = .ok () queue') :
    Accounts config
      (events ++ [.granted contractKey queue'.clock.time globalLoad perContractLoad]) queue' := by
  simp only [recordAcquire, bind_ok_iff, modify_ok_iff] at hRun
  obtain ⟨now, read, hClock, rfl⟩ := hRun
  obtain ⟨rfl, hRead⟩ := monotonic_accounts h hClock
  refine ⟨hRead.config_eq, ?_, ?_, ?_⟩
  · rw [grantTimes_concat]
    exact hRead.global.record _
  · intro key
    simp only [contractLog, contractLog_set, grantTimesOf_concat]
    by_cases hKey : key = contractKey
    · subst hKey
      simpa [QueueEvent.grantTimeOf?, contractLog] using (hRead.perContract key).record _
    · have hOther : ¬contractKey = key := fun e => hKey e.symm
      simpa [QueueEvent.grantTimeOf?, contractLog, hKey, hOther] using hRead.perContract key
  · rw [inFlight_concat]
    simp [QueueEvent.inFlightAfter, hRead.concurrent]

theorem release_accounts (h : Accounts config events queue)
    (hRun : release queue = .ok () queue') : Accounts config (events ++ [.exited]) queue' := by
  simp only [release, modify_ok_iff] at hRun
  have hCount := h.concurrent
  have hGlobal : Follows config.globalWindow queue.clock.time queue.globalLog
      (grantTimes (events ++ [.exited])) := by
    rw [grantTimes_concat]
    simpa [QueueEvent.grantTime?] using h.global
  have hContract : ∀ key, Follows config.perContractWindow queue.clock.time
      (queue.contractLog key) (grantTimesOf key (events ++ [.exited])) := by
    intro key
    rw [grantTimesOf_concat]
    simpa [QueueEvent.grantTimeOf?] using h.perContract key
  have hFlight : inFlight (events ++ [.exited]) = inFlight events - 1 := inFlight_concat _ _
  split at hRun
  · subst hRun
    exact ⟨h.config_eq, hGlobal, hContract, by omega⟩
  · subst hRun
    refine ⟨h.config_eq, hGlobal, hContract, ?_⟩
    change queue.concurrentCount - 1 = _
    omega

/-! ## The gate -/

/-- No sleep is asked for only if there is room or the oldest entry has expired. -/
theorem expirySleep_nonpos {now window : ℚ} {limit : ℤ} {log : List ℚ} (hLimit : 0 < limit)
    (h : ∀ s ∈ expirySleep now window limit log, s ≤ 0) (hLoad : (log.length : ℤ) ≤ limit) :
    Admits window now limit.toNat log := by
  by_cases hFull : limit ≤ log.length
  · obtain ⟨oldest, rest, rfl⟩ : ∃ oldest rest, log = oldest :: rest := by
      cases log with
      | nil => simp at hFull; omega
      | cons oldest rest => exact ⟨oldest, rest, rfl⟩
    have hSleep : max (oldest + window - now) 0 ≤ 0 := by
      refine h _ ?_
      rw [expirySleep, if_pos hFull]
      rfl
    have hExpired : oldest + window - now ≤ 0 := (le_max_left _ _).trans hSleep
    exact Or.inr ⟨by omega, oldest, rfl, by linarith⟩
  · exact Or.inl (by omega)

theorem max?_getD_nonpos {candidates : List ℚ} (h : candidates.max?.getD 0 ≤ 0) :
    ∀ s ∈ candidates, s ≤ 0 := by
  intro s hs
  cases hMax : candidates.max? with
  | none =>
    rw [List.max?_eq_none_iff.mp hMax] at hs
    cases hs
  | some longest =>
    rw [hMax, Option.getD_some] at h
    exact ((List.max?_le_iff hMax).mp le_rfl s hs).trans h

theorem computeRequiredSleep_ok {sleepSecs : ℚ}
    (hRun : computeRequiredSleep contractKey queue = .ok sleepSecs queue') :
    queue' = { queue with clock := queue.clock.next } ∧
    (sleepSecs ≤ 0 → queue'.concurrentCount < queue'.config.concurrentLimit ∧
      (∀ s ∈ expirySleep queue'.clock.time queue'.config.globalWindow queue'.config.globalLimit
        queue'.globalLog, s ≤ 0) ∧
      (∀ s ∈ expirySleep queue'.clock.time queue'.config.perContractWindow
        queue'.config.perContractLimit (queue'.contractLog contractKey), s ≤ 0)) := by
  simp only [computeRequiredSleep, bind_ok_iff, get_ok_iff, pure_ok_iff] at hRun
  obtain ⟨now, read, hRead, _, _, ⟨rfl, rfl⟩, rfl, rfl⟩ := hRun
  obtain ⟨rfl, hClock⟩ := monotonic_ok hRead
  refine ⟨hClock, fun hNone => ?_⟩
  -- the longest candidate is at most zero, so every candidate is
  have hEach := max?_getD_nonpos hNone
  simp only [List.mem_append, Option.mem_toList] at hEach
  refine ⟨?_, fun s hs => hEach s (Or.inl (Or.inl hs)), fun s hs => hEach s (Or.inl (Or.inr hs))⟩
  by_contra hFull
  rw [not_lt] at hFull
  have hPoll := hEach pollSeconds (Or.inr (by rw [if_pos hFull]))
  norm_num [pollSeconds] at hPoll

/-- One turn of the loop keeps the accounts, and what it grants is within the limits. -/
structure Turned (config : BackoffQueueConfig) (events : List QueueEvent) (e : QueueEvent)
    (queue' : BackoffQueue) : Prop where
  accounts : Accounts config (events ++ [e]) queue'
  within : e.LoadsWithinLimits config → ∀ contractKey t g c, e = .granted contractKey t g c →
    WithinLimits config (events ++ [e]) contractKey t

theorem Accounts.turned (h : Accounts config events queue) {e : QueueEvent}
    (hGrant : e.grantTime? = none) (hGrantOf : ∀ key, e.grantTimeOf? key = none)
    (hFlight : ∀ n, e.inFlightAfter n = n) : Turned config events e queue where
  accounts := h.observe hGrant hGrantOf hFlight
  within := by
    rintro - contractKey t g c rfl
    cases hGrant

/-- The gate compares with the logs as they stand when the sleep is computed; the
acquire is recorded at a later reading of the clock. -/
theorem recordAcquire_within (h : Accounts config events queue) {globalLoad perContractLoad : ℕ}
    (hGlobal : Admits config.globalWindow queue.clock.time config.globalLimit.toNat queue.globalLog)
    (hContract : Admits config.perContractWindow queue.clock.time config.perContractLimit.toNat
      (queue.contractLog contractKey))
    (hConcurrent : queue.concurrentCount < config.concurrentLimit)
    (hRun : recordAcquire contractKey queue = .ok () queue') :
    WithinLimits config
      (events ++ [.granted contractKey queue'.clock.time globalLoad perContractLoad])
      contractKey queue'.clock.time := by
  simp only [recordAcquire, bind_ok_iff, modify_ok_iff] at hRun
  obtain ⟨now, read, hClock, rfl⟩ := hRun
  obtain ⟨rfl, rfl⟩ := monotonic_ok hClock
  have hLater := queue.clock.time_le_next
  have hRead := h.later hLater
  have hGlobalCount := hRead.global.recent_record_le (hGlobal.later hLater)
  have hContractCount :=
    (hRead.perContract contractKey).recent_record_le (hContract.later hLater)
  refine ⟨?_, ?_, ?_⟩
  · rw [grantTimes_concat]
    exact (Int.le_toNat config.global_limit_pos.le).mp hGlobalCount
  · rw [grantTimesOf_concat, QueueEvent.grantTimeOf?, if_pos rfl]
    exact (Int.le_toNat config.per_contract_limit_pos.le).mp hContractCount
  · rw [inFlight_concat, QueueEvent.inFlightAfter]
    have hCount := h.concurrent
    omega

theorem waitTurn_turned (h : Accounts config events queue) {deadline : ℚ} {e : QueueEvent}
    (hRun : waitTurn contractKey deadline queue = .ok e queue') :
    Turned config events e queue' := by
  simp only [waitTurn, bind_ok_iff, get_ok_iff] at hRun
  obtain ⟨_, pruned, hPrune, _, prunedKey, hPruneKey, sleepSecs, gate, hSleep, _, _, ⟨rfl, rfl⟩,
    hRun⟩ := hRun
  have hPruned := prunePerContract_accounts (pruneGlobal_accounts h hPrune) hPruneKey
  obtain ⟨rfl, hOpen⟩ := computeRequiredSleep_ok hSleep
  have hGate := hPruned.later prunedKey.clock.time_le_next
  rcases ite_ok_iff.mp hRun with ⟨hNone, hRun⟩ | ⟨-, hRun⟩
  · simp only [bind_ok_iff, get_ok_iff, pure_ok_iff] at hRun
    obtain ⟨_, recorded, hRecord, _, _, ⟨rfl, rfl⟩, rfl, rfl⟩ := hRun
    refine ⟨recordAcquire_accounts hGate _ _ hRecord, ?_⟩
    rintro ⟨hGlobalLoad, hContractLoad⟩ key t g c hEvent
    cases hEvent
    obtain ⟨hConcurrent, hGlobalSleep, hContractSleep⟩ := hOpen hNone
    rw [hGate.config_eq] at hConcurrent hGlobalSleep hContractSleep
    exact recordAcquire_within hGate
      (expirySleep_nonpos config.global_limit_pos hGlobalSleep hGlobalLoad)
      (expirySleep_nonpos config.per_contract_limit_pos hContractSleep hContractLoad)
      hConcurrent hRecord
  · obtain ⟨now, read, hRead, hRun⟩ := bind_ok_iff.mp hRun
    have hRead := (monotonic_accounts hGate hRead).2
    rcases ite_ok_iff.mp hRun with ⟨-, hRun⟩ | ⟨-, hRun⟩
    · obtain ⟨rfl, rfl⟩ := pure_ok_iff.mp hRun
      exact hRead.turned rfl (fun _ => rfl) (fun _ => rfl)
    · simp only [bind_ok_iff, modify_ok_iff, pure_ok_iff] at hRun
      obtain ⟨_, _, rfl, rfl, rfl⟩ := hRun
      refine Accounts.turned ?_ rfl (fun _ => rfl) (fun _ => rfl)
      exact ⟨hRead.config_eq, hRead.global, hRead.perContract, hRead.concurrent⟩

theorem perform_turned (h : Accounts config events queue) {op : QueueOp} {e : QueueEvent}
    (hRun : perform op queue = .ok e queue') : Turned config events e queue' := by
  cases op with
  | enter key =>
    rcases ite_ok_iff.mp hRun with ⟨-, hRun⟩ | ⟨-, hRun⟩
    · obtain ⟨rfl, rfl⟩ := pure_ok_iff.mp hRun
      exact h.turned rfl (fun _ => rfl) (fun _ => rfl)
    · simp only [bind_ok_iff, get_ok_iff] at hRun
      obtain ⟨now, read, hRead, _, _, ⟨rfl, rfl⟩, hRun⟩ := hRun
      exact waitTurn_turned (monotonic_accounts h hRead).2 hRun
  | wake waiter =>
    simp only [perform, wake, bind_ok_iff, get_ok_iff] at hRun
    obtain ⟨_, _, ⟨rfl, rfl⟩, hRun⟩ := hRun
    cases hWaiter : queue.waiters[waiter]? with
    | none =>
      rw [hWaiter] at hRun
      obtain ⟨rfl, rfl⟩ := pure_ok_iff.mp hRun
      exact h.turned rfl (fun _ => rfl) (fun _ => rfl)
    | some w =>
      rw [hWaiter] at hRun
      simp only [bind_ok_iff, modify_ok_iff] at hRun
      obtain ⟨_, _, rfl, hRun⟩ := hRun
      have hAwake : Accounts config events
          { queue with clock := queue.clock.sleepUntil w.wakeAt } := h.later (le_max_left _ _)
      refine waitTurn_turned ?_ hRun
      exact ⟨hAwake.config_eq, hAwake.global, hAwake.perContract, hAwake.concurrent⟩
  | exit =>
    simp only [perform, bind_ok_iff, pure_ok_iff] at hRun
    obtain ⟨_, released, hRelease, rfl, rfl⟩ := hRun
    exact ⟨release_accounts h hRelease, by rintro - _ _ _ _ ⟨⟩⟩
  | globalCount =>
    simp only [perform, BackoffQueue.globalCount, bind_ok_iff, get_ok_iff, pure_ok_iff] at hRun
    obtain ⟨_, _, ⟨_, pruned, hPrune, _, _, ⟨rfl, rfl⟩, rfl, rfl⟩, rfl, rfl⟩ := hRun
    exact (pruneGlobal_accounts h hPrune).turned rfl (fun _ => rfl) (fun _ => rfl)
  | perContractCount key =>
    simp only [perform, BackoffQueue.perContractCount, bind_ok_iff, get_ok_iff, pure_ok_iff] at hRun
    obtain ⟨_, _, ⟨_, pruned, hPrune, _, _, ⟨rfl, rfl⟩, rfl, rfl⟩, rfl, rfl⟩ := hRun
    exact (prunePerContract_accounts h hPrune).turned rfl (fun _ => rfl) (fun _ => rfl)

end Steps

/-! ## Whole runs -/

section Runs

open BackoffQueue

variable {config : BackoffQueueConfig} {clock : MonotonicClock} {ops : List QueueOp}
variable {events : List QueueEvent} {queue : BackoffQueue}

/-- In every run from a new queue whose acquires are never let through past a log
over its limit, every grant is within the three limits. -/
theorem rate_limits_hold (hRun : each perform ops (create config clock) = .ok events queue)
    (hLoads : ∀ e ∈ events, e.LoadsWithinLimits config) : RateLimited config events := by
  have hInv : Accounts config events queue ∧
      ((∀ e ∈ events, e.LoadsWithinLimits config) → RateLimited config events) := by
    refine each_rule (fun _ log s => Accounts config log s ∧
      ((∀ e ∈ log, e.LoadsWithinLimits config) → RateLimited config log)) ?_ ?_ hRun
    · rintro done op rest log e s s' - ⟨hAccounts, hLimited⟩ hStep
      obtain ⟨hNext, hWithin⟩ := perform_turned hAccounts hStep
      refine ⟨hNext, fun hAll => ?_⟩
      exact (hLimited fun e' he' => hAll e' (List.mem_append_left _ he')).concat
        (hWithin (hAll e (by simp)))
    · refine ⟨create_accounts config clock, fun _ => ?_⟩
      intro before key t g c after hNil
      simp at hNil
  exact hInv.2 hLoads

end Runs

/-! ## The instant of expiry -/

def frozenClock : MonotonicClock := ⟨0, 0, fun _ => 0, fun _ => le_rfl⟩

def onePerTenSeconds : BackoffQueueConfig :=
  { BackoffQueueConfig.default with
    globalLimit := 1
    globalWindow := 10
    global_limit_pos := Int.one_pos
    global_window_pos := by decide }

/-- The second request sleeps exactly until the first one expires. -/
theorem rate_limits_hold_after_sleep : ∃ events queue,
    each BackoffQueue.perform [.enter "a", .exit, .enter "b", .wake 0]
      (BackoffQueue.create onePerTenSeconds frozenClock) = .ok events queue ∧
    events = [.granted "a" 0 0 0, .exited, .asleep 10, .granted "b" 10 1 0] ∧
    RateLimited onePerTenSeconds events := by
  have hReturns : returns (each BackoffQueue.perform [.enter "a", .exit, .enter "b", .wake 0])
      (BackoffQueue.create onePerTenSeconds frozenClock) (fun events _ => decide
        (events = [.granted "a" 0 0 0, .exited, .asleep 10, .granted "b" 10 1 0])) = true := by
    decide +kernel
  obtain ⟨events, queue, hRun, hTest⟩ := exists_ok_of_returns hReturns
  have hEvents := of_decide_eq_true hTest
  refine ⟨events, queue, hRun, hEvents, rate_limits_hold hRun ?_⟩
  rw [hEvents]
  decide +kernel

/-- A third request at that instant finds the expired entry still in the log, is
asked for no sleep, and is the second one in ten seconds. -/
theorem two_acquires_at_expiry : ¬∀ config clock ops events queue,
    each BackoffQueue.perform ops (BackoffQueue.create config clock) = .ok events queue →
      RateLimited config events := by
  intro hAlways
  have hReturns : returns
      (each BackoffQueue.perform [.enter "a", .exit, .enter "b", .wake 0, .exit, .enter "c"])
      (BackoffQueue.create onePerTenSeconds frozenClock) (fun events _ => decide
        (events = [.granted "a" 0 0 0, .exited, .asleep 10, .granted "b" 10 1 0, .exited,
          .granted "c" 10 2 0])) = true := by
    decide +kernel
  obtain ⟨events, queue, hRun, hTest⟩ := exists_ok_of_returns hReturns
  have hWithin := hAlways _ _ _ _ _ hRun [.granted "a" 0 0 0, .exited, .asleep 10,
    .granted "b" 10 1 0, .exited] "c" 10 2 0 [] (of_decide_eq_true hTest)
  exact absurd hWithin.global (by decide +kernel)

end Futur3.Data
