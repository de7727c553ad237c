import Futur3.Prelude.Dict
import Futur3.Prelude.Method
import Futur3.Prelude.RollingWindow
import Mathlib.Algebra.Order.Ring.Rat

/-! # The three-constraint rate limiter

The clock never runs back: every reading may find it later than the one before.
An acquire that has to wait goes through its loop once each time it wakes up, and
other entries and exits may run while it sleeps.
-/

namespace Futur3.Data

open Prelude

inductive ConfigError where
  | globalLimit (got : ℤ)
  | perContractLimit (got : ℤ)
  | concurrentLimit (got : ℤ)
  | globalWindow (got : ℚ)
  | perContractWindow (got : ℚ)
  | acquireTimeoutSeconds (got : ℚ)
deriving DecidableEq, Repr

/-- Windows and the timeout are in seconds. -/
structure BackoffQueueConfig where
  globalLimit : ℤ
  globalWindow : ℚ
  perContractLimit : ℤ
  perContractWindow : ℚ
  concurrentLimit : ℤ
  acquireTimeoutSeconds : ℚ
  global_limit_pos : 0 < globalLimit
  per_contract_limit_pos : 0 < perContractLimit
  concurrent_limit_pos : 0 < concurrentLimit
  global_window_pos : 0 < globalWindow
  per_contract_window_pos : 0 < perContractWindow
  acquire_timeout_pos : 0 < acquireTimeoutSeconds

theorem limit_pos_of_guard {limit : ℤ} (h : ¬limit ≤ 0) : 0 < limit := not_le.mp h

def BackoffQueueConfig.create (globalLimit : ℤ) (globalWindow : ℚ) (perContractLimit : ℤ)
    (perContractWindow : ℚ) (concurrentLimit : ℤ) (acquireTimeoutSeconds : ℚ) :
    Except ConfigError BackoffQueueConfig :=
  if hGlobal : globalLimit ≤ 0 then throw (.globalLimit globalLimit)
  else if hContract : perContractLimit ≤ 0 then throw (.perContractLimit perContractLimit)
  else if hConcurrent : concurrentLimit ≤ 0 then throw (.concurrentLimit concurrentLimit)
  else if hWindow : globalWindow ≤ 0 then throw (.globalWindow globalWindow)
  else if hKeyWindow : perContractWindow ≤ 0 then throw (.perContractWindow perContractWindow)
  else if hTimeout : acquireTimeoutSeconds ≤ 0 then
    throw (.acquireTimeoutSeconds acquireTimeoutSeconds)
  else
    pure ⟨globalLimit, globalWindow, perContractLimit, perContractWindow, concurrentLimit,
      acquireTimeoutSeconds, limit_pos_of_guard hGlobal, limit_pos_of_guard hContract,
      limit_pos_of_guard hConcurrent, not_le.mp hWindow, not_le.mp hKeyWindow, not_le.mp hTimeout⟩

/-- Sixty requests in ten minutes, five per key in two seconds, fifty in flight. -/
def BackoffQueueConfig.default : BackoffQueueConfig :=
  ⟨60, 600, 5, 2, 50, 60, by decide, by decide, by decide, by decide, by decide, by decide⟩

/-- A clock that has gone on by `drift n` when it is read for the `n`-th time. -/
structure MonotonicClock where
  time : ℚ
  reads : ℕ
  drift : ℕ → ℚ
  drift_nonneg : ∀ n, 0 ≤ drift n

def MonotonicClock.next (clock : MonotonicClock) : MonotonicClock :=
  { clock with time := clock.time + clock.drift clock.reads, reads := clock.reads + 1 }

theorem MonotonicClock.time_le_next (clock : MonotonicClock) : clock.time ≤ clock.next.time :=
  le_add_of_nonneg_right (clock.drift_nonneg clock.reads)

def MonotonicClock.sleepUntil (clock : MonotonicClock) (wakeAt : ℚ) : MonotonicClock :=
  { clock with time := max clock.time wakeAt }

/-- An acquire inside `_wait_for_slot`, asleep until `wakeAt` at least. -/
structure Waiter where
  contractKey : String
  deadline : ℚ
  wakeAt : ℚ
deriving DecidableEq

structure BackoffQueueTimeout where
  contractKey : String
  timeoutSeconds : ℚ
  sleepSecs : ℚ
  globalCount : ℕ
  globalLimit : ℤ
  perContractCount : ℕ
  perContractLimit : ℤ
  concurrentCount : ℤ
  concurrentLimit : ℤ
deriving DecidableEq

structure BackoffQueue where
  config : BackoffQueueConfig
  clock : MonotonicClock
  globalLog : List ℚ
  perContractLog : Dict String (List ℚ)
  concurrentCount : ℤ
  waiters : List Waiter

namespace BackoffQueue

def create (config : BackoffQueueConfig) (clock : MonotonicClock) : BackoffQueue :=
  ⟨config, clock, [], .empty, 0, []⟩

def contractLog (queue : BackoffQueue) (contractKey : String) : List ℚ :=
  (queue.perContractLog.get? contractKey).getD []

abbrev M := Method Empty BackoffQueue

def monotonic : M ℚ := do
  modify (fun queue => { queue with clock := queue.clock.next })
  return (← get).clock.time

def pruneGlobal : M Unit := do
  let now ← monotonic
  modify (fun queue => { queue with
    globalLog := RollingWindow.prune (now - queue.config.globalWindow) queue.globalLog })

def prunePerContract (contractKey : String) : M Unit := do
  let now ← monotonic
  modify (fun queue => { queue with
    perContractLog := queue.perContractLog.set contractKey
      (RollingWindow.prune (now - queue.config.perContractWindow)
        (queue.contractLog contractKey)) })

/-- What a full log asks for: the time until its oldest entry expires. -/
def expirySleep (now window : ℚ) (limit : ℤ) (log : List ℚ) : Option ℚ :=
  if limit ≤ log.length then log.head?.map (fun oldest => max (oldest + window - now) 0) else none

/-- The interval at which a full set of in-flight requests is checked again. -/
def pollSeconds : ℚ := 5 / 100

def computeRequiredSleep (contractKey : String) : M ℚ := do
  let now ← monotonic
  let queue ← get
  let config := queue.config
  let globalSleep := expirySleep now config.globalWindow config.globalLimit queue.globalLog
  let contractSleep := expirySleep now config.perContractWindow config.perContractLimit
    (queue.contractLog contractKey)
  let concurrentSleep :=
    if config.concurrentLimit ≤ queue.concurrentCount then some pollSeconds else none
  let candidates := globalSleep.toList ++ contractSleep.toList ++ concurrentSleep.toList
  return candidates.max?.getD 0

def recordAcquire (contractKey : String) : M Unit := do
  let now ← monotonic
  modify (fun queue => { queue with
    globalLog := queue.globalLog ++ [now]
    perContractLog := queue.perContractLog.set contractKey (queue.contractLog contractKey ++ [now])
    concurrentCount := queue.concurrentCount + 1 })

def release : M Unit :=
  modify (fun queue =>
    if queue.concurrentCount ≤ 0 then queue
    else { queue with concurrentCount := queue.concurrentCount - 1 })

def globalCount : M ℕ := do
  pruneGlobal
  return (← get).globalLog.length

def perContractCount (contractKey : String) : M ℕ := do
  prunePerContract contractKey
  return ((← get).contractLog contractKey).length

end BackoffQueue

/-! ## Entries, exits and what is seen of them -/

/-- What happens to the queue: an acquire is entered, a sleeping one wakes up, a
request in flight ends, or a caller inspects a count. -/
inductive QueueOp where
  | enter (contractKey : String)
  | wake (waiter : ℕ)
  | exit
  | globalCount
  | perContractCount (contractKey : String)
deriving DecidableEq

/-- A granted acquire shows the instant it is recorded at and how many entries the
two pruned logs held when it was let through. -/
inductive QueueEvent where
  | refusedEmptyKey
  | granted (contractKey : String) (recordedAt : ℚ) (globalLoad perContractLoad : ℕ)
  | asleep (seconds : ℚ)
  | timedOut (failure : BackoffQueueTimeout)
  | exited
  | counted (n : ℕ)
  | nobodyAsleep
deriving DecidableEq

namespace BackoffQueue

/-- One turn of the loop of `_wait_for_slot`, and the rest of `acquire` once it is left. -/
def waitTurn (contractKey : String) (deadline : ℚ) : M QueueEvent := do
  pruneGlobal
  prunePerContract contractKey
  let sleepSecs ← computeRequiredSleep contractKey
  let queue ← get
  let globalLoad := queue.globalLog.length
  let perContractLoad := (queue.contractLog contractKey).length
  if sleepSecs ≤ 0 then
    recordAcquire contractKey
    return .granted contractKey (← get).clock.time globalLoad perContractLoad
  else
    let now ← monotonic
    if deadline < now + sleepSecs then
      return .timedOut
        { contractKey := contractKey
          timeoutSeconds := queue.config.acquireTimeoutSeconds
          sleepSecs := sleepSecs
          globalCount := globalLoad
          globalLimit := queue.config.globalLimit
          perContractCount := perContractLoad
          perContractLimit := queue.config.perContractLimit
          concurrentCount := queue.concurrentCount
          concurrentLimit := queue.config.concurrentLimit }
    else
      modify (fun queue => { queue with
        waiters := queue.waiters ++ [⟨contractKey, deadline, now + sleepSecs⟩] })
      return .asleep sleepSecs

def enter (contractKey : String) : M QueueEvent := do
  if contractKey = "" then return .refusedEmptyKey
  else
    let now ← monotonic
    let deadline := now + (← get).config.acquireTimeoutSeconds
    waitTurn contractKey deadline

def wake (waiter : ℕ) : M QueueEvent := do
  match (← get).waiters[waiter]? with
  | none => return .nobodyAsleep
  | some w =>
    modify (fun queue => { queue with
      clock := queue.clock.sleepUntil w.wakeAt
      waiters := queue.waiters.eraseIdx waiter })
    waitTurn w.contractKey w.deadline

def perform : QueueOp → M QueueEvent
  | .enter contractKey => enter contractKey
  | .wake waiter => wake waiter
  | .exit => do
    release
    return .exited
  | .globalCount => return .counted (← globalCount)
  | .perContractCount contractKey => return .counted (← perContractCount contractKey)

end BackoffQueue

end Futur3.Data
