import Futur3.Data.BackoffSafety
import Futur3.Prelude.OperationRun

/-! # A lone acquire is granted

Where the clock moves only during sleeps, an acquire that nobody competes with is not
refused: each sleep ends when an entry expires that held it back, and no entry expires
after the deadline as long as the timeout is as long as both windows.
-/

namespace Futur3.Data

open Prelude Prelude.Method RollingWindow

theorem prune_sublist {α : Type} [LinearOrder α] (cutoff : α) (log : List α) : (prune cutoff log).Sublist log := by
  obtain ⟨dropped, hLog, -⟩ := prune_suffix cutoff log
  have hKept := List.sublist_append_right dropped (prune cutoff log)
  rwa [← hLog] at hKept

namespace BackoffQueue

/-- The clock moves only while somebody sleeps. -/
def Still (queue : BackoffQueue) : Prop := ∀ n, queue.clock.drift n = 0

def requiredSleep (queue : BackoffQueue) (contractKey : String) : ℚ :=
  ((expirySleep queue.clock.time queue.config.globalWindow queue.config.globalLimit queue.globalLog).toList ++
    (expirySleep queue.clock.time queue.config.perContractWindow queue.config.perContractLimit
      (queue.contractLog contractKey)).toList ++
    (if queue.config.concurrentLimit ≤ queue.concurrentCount then some pollSeconds else none).toList).max?.getD 0

structure Pruned (queue gate : BackoffQueue) : Prop where
  config : gate.config = queue.config
  drift : gate.clock.drift = queue.clock.drift
  time : gate.clock.time = queue.clock.time
  inFlight : gate.concurrentCount = queue.concurrentCount
  waiters : gate.waiters = queue.waiters
  global : gate.globalLog.Sublist queue.globalLog
  perContract : ∀ key, (gate.contractLog key).Sublist (queue.contractLog key)

variable {queue queue' : BackoffQueue} {contractKey : String} {deadline : ℚ} {e : QueueEvent}

theorem Pruned.trans {first second third : BackoffQueue} (h : Pruned first second) (h' : Pruned second third) :
    Pruned first third where
  config := h'.config.trans h.config
  drift := h'.drift.trans h.drift
  time := h'.time.trans h.time
  inFlight := h'.inFlight.trans h.inFlight
  waiters := h'.waiters.trans h.waiters
  global := h'.global.trans h.global
  perContract key := (h'.perContract key).trans (h.perContract key)

theorem Pruned.still {gate : BackoffQueue} (h : Pruned queue gate) (hStill : queue.Still) : gate.Still := by
  intro n
  rw [h.drift]
  exact hStill n

theorem monotonic_still (hStill : queue.Still) {now : ℚ} (h : monotonic queue = .ok now queue') :
    now = queue.clock.time ∧ Pruned queue queue' := by
  obtain ⟨rfl, rfl⟩ := monotonic_ok h
  have hTime : queue.clock.next.time = queue.clock.time := by
    rw [MonotonicClock.next, hStill, add_zero]
  exact ⟨hTime, rfl, rfl, hTime, rfl, rfl, .refl _, fun _ => .refl _⟩

theorem pruneGlobal_still (hStill : queue.Still) (h : pruneGlobal queue = .ok () queue') : Pruned queue queue' := by
  simp only [pruneGlobal, bind_ok_iff, modify_ok_iff] at h
  obtain ⟨now, read, hClock, rfl⟩ := h
  obtain ⟨-, hRead⟩ := monotonic_still hStill hClock
  exact { hRead with global := (prune_sublist _ _).trans hRead.global }

theorem prunePerContract_still (hStill : queue.Still) (h : prunePerContract contractKey queue = .ok () queue') :
    Pruned queue queue' := by
  simp only [prunePerContract, bind_ok_iff, modify_ok_iff] at h
  obtain ⟨now, read, hClock, rfl⟩ := h
  obtain ⟨-, hRead⟩ := monotonic_still hStill hClock
  refine { hRead with perContract := fun key => ?_ }
  simp only [contractLog, contractLog_set]
  split_ifs with hKey
  · subst hKey
    exact (prune_sublist _ _).trans (hRead.perContract key)
  · exact hRead.perContract key

theorem computeRequiredSleep_still (hStill : queue.Still) {sleepSecs : ℚ}
    (h : computeRequiredSleep contractKey queue = .ok sleepSecs queue') :
    Pruned queue queue' ∧ sleepSecs = queue'.requiredSleep contractKey := by
  simp only [computeRequiredSleep, bind_ok_iff, get_ok_iff, pure_ok_iff] at h
  obtain ⟨now, read, hClock, _, _, ⟨rfl, rfl⟩, rfl, rfl⟩ := h
  obtain ⟨rfl, hRead⟩ := monotonic_still hStill hClock
  exact ⟨hRead, by rw [requiredSleep, hRead.time]⟩

/-- How a turn ends, from the gate at which it decides. -/
inductive TurnEnds (contractKey : String) (deadline : ℚ) (gate : BackoffQueue) : QueueEvent → BackoffQueue → Prop
  | granted (globalLoad perContractLoad : ℕ) (queue' : BackoffQueue)
      (clear : gate.requiredSleep contractKey ≤ 0)
      (time : queue'.clock.time = gate.clock.time) (drift : queue'.clock.drift = gate.clock.drift)
      (global : queue'.globalLog = gate.globalLog ++ [gate.clock.time])
      (perContract : ∀ key, queue'.contractLog key =
        if key = contractKey then gate.contractLog key ++ [gate.clock.time] else gate.contractLog key) :
      TurnEnds contractKey deadline gate (.granted contractKey gate.clock.time globalLoad perContractLoad) queue'
  | timedOut (failure : BackoffQueueTimeout) (queue' : BackoffQueue) (same : Pruned gate queue')
      (closed : 0 < gate.requiredSleep contractKey)
      (late : deadline < gate.clock.time + gate.requiredSleep contractKey) :
      TurnEnds contractKey deadline gate (.timedOut failure) queue'
  | asleep (read : BackoffQueue) (same : Pruned gate read) (closed : 0 < gate.requiredSleep contractKey)
      (inTime : gate.clock.time + gate.requiredSleep contractKey ≤ deadline) :
      TurnEnds contractKey deadline gate (.asleep (gate.requiredSleep contractKey))
        { read with waiters := read.waiters ++
            [⟨contractKey, deadline, gate.clock.time + gate.requiredSleep contractKey⟩] }

theorem waitTurn_still (hStill : queue.Still) (h : waitTurn contractKey deadline queue = .ok e queue') :
    ∃ gate, Pruned queue gate ∧ TurnEnds contractKey deadline gate e queue' := by
  simp only [waitTurn, bind_ok_iff, get_ok_iff] at h
  obtain ⟨_, first, hGlobal, _, second, hContract, sleepSecs, gate, hSleep, _, _, ⟨rfl, rfl⟩, h⟩ := h
  have hFirst := pruneGlobal_still hStill hGlobal
  have hSecond := hFirst.trans (prunePerContract_still (hFirst.still hStill) hContract)
  obtain ⟨hThird, rfl⟩ := computeRequiredSleep_still (hSecond.still hStill) hSleep
  have hGate := hSecond.trans hThird
  refine ⟨gate, hGate, ?_⟩
  rcases ite_ok_iff.mp h with ⟨hOpen, h⟩ | ⟨hClosed, h⟩
  · simp only [recordAcquire, bind_ok_iff, modify_ok_iff, get_ok_iff, pure_ok_iff] at h
    obtain ⟨_, _, ⟨now, read, hClock, rfl⟩, _, _, ⟨rfl, rfl⟩, rfl, rfl⟩ := h
    obtain ⟨hNow, hLater⟩ := monotonic_ok hClock
    obtain ⟨rfl, hRead⟩ := monotonic_still (hGate.still hStill) hClock
    rw [hRead.time]
    refine .granted _ _ _ hOpen hRead.time hRead.drift ?_ fun key => ?_
    · rw [hLater]
    · simp only [contractLog, contractLog_set]
      rw [hLater]
      split_ifs with hKey
      · rw [hKey]
      · rfl
  · obtain ⟨now, read, hClock, h⟩ := bind_ok_iff.mp h
    obtain ⟨rfl, hRead⟩ := monotonic_still (hGate.still hStill) hClock
    rcases ite_ok_iff.mp h with ⟨hLate, h⟩ | ⟨hInTime, h⟩
    · obtain ⟨rfl, rfl⟩ := pure_ok_iff.mp h
      exact .timedOut _ _ hRead (not_le.mp hClosed) hLate
    · simp only [bind_ok_iff, modify_ok_iff, pure_ok_iff] at h
      obtain ⟨_, _, rfl, rfl, rfl⟩ := h
      exact .asleep read hRead (not_le.mp hClosed) (not_lt.mp hInTime)

/-! ## Whole runs -/

structure Past (queue : BackoffQueue) : Prop where
  still : queue.Still
  global : ∀ t ∈ queue.globalLog, t ≤ queue.clock.time
  perContract : ∀ key, ∀ t ∈ queue.contractLog key, t ≤ queue.clock.time

theorem Past.pruned {gate : BackoffQueue} (h : queue.Past) (hPruned : Pruned queue gate) : gate.Past where
  still := hPruned.still h.still
  global t ht := hPruned.time ▸ h.global t (hPruned.global.subset ht)
  perContract key t ht := hPruned.time ▸ h.perContract key t ((hPruned.perContract key).subset ht)

theorem waitTurn_past (h : queue.Past) (hRun : waitTurn contractKey deadline queue = .ok e queue') : queue'.Past := by
  obtain ⟨gate, hPruned, hEnds⟩ := waitTurn_still h.still hRun
  have hGate := h.pruned hPruned
  cases hEnds with
  | granted _ _ _ _ hTime hDrift hGlobal hContract =>
    refine ⟨fun n => hDrift ▸ hGate.still n, ?_, fun key => ?_⟩
    · rw [hGlobal, hTime]
      exact List.forall_mem_append.mpr ⟨hGate.global, by simp⟩
    · rw [hContract, hTime]
      split_ifs
      · exact List.forall_mem_append.mpr ⟨hGate.perContract key, by simp⟩
      · exact hGate.perContract key
  | timedOut _ _ hSame => exact hGate.pruned hSame
  | asleep read hSame =>
    have hRead := hGate.pruned hSame
    exact ⟨hRead.still, hRead.global, hRead.perContract⟩

theorem perform_past (h : queue.Past) {op : QueueOp} (hRun : perform op queue = .ok e queue') : queue'.Past := by
  cases op with
  | enter key =>
    rcases ite_ok_iff.mp hRun with ⟨-, hRun⟩ | ⟨-, hRun⟩
    · obtain ⟨rfl, rfl⟩ := pure_ok_iff.mp hRun
      exact h
    · simp only [bind_ok_iff, get_ok_iff] at hRun
      obtain ⟨now, read, hRead, _, _, ⟨rfl, rfl⟩, hRun⟩ := hRun
      exact waitTurn_past (h.pruned (monotonic_still h.still hRead).2) hRun
  | wake waiter =>
    simp only [perform, wake, bind_ok_iff, get_ok_iff] at hRun
    obtain ⟨_, _, ⟨rfl, rfl⟩, hRun⟩ := hRun
    cases hWaiter : queue.waiters[waiter]? with
    | none =>
      rw [hWaiter] at hRun
      obtain ⟨rfl, rfl⟩ := pure_ok_iff.mp hRun
      exact h
    | some w =>
      rw [hWaiter] at hRun
      simp only [bind_ok_iff, modify_ok_iff] at hRun
      obtain ⟨_, _, rfl, hRun⟩ := hRun
      refine waitTurn_past ?_ hRun
      exact ⟨h.still, fun t ht => (h.global t ht).trans (le_max_left _ _),
        fun key t ht => (h.perContract key t ht).trans (le_max_left _ _)⟩
  | exit =>
    simp only [perform, release, bind_ok_iff, modify_ok_iff, pure_ok_iff] at hRun
    obtain ⟨_, _, rfl, rfl, rfl⟩ := hRun
    split_ifs
    · exact h
    · exact ⟨h.still, h.global, h.perContract⟩
  | globalCount =>
    simp only [perform, BackoffQueue.globalCount, bind_ok_iff, get_ok_iff, pure_ok_iff] at hRun
    obtain ⟨_, _, ⟨_, pruned, hPrune, _, _, ⟨rfl, rfl⟩, rfl, rfl⟩, rfl, rfl⟩ := hRun
    exact h.pruned (pruneGlobal_still h.still hPrune)
  | perContractCount key =>
    simp only [perform, BackoffQueue.perContractCount, bind_ok_iff, get_ok_iff, pure_ok_iff] at hRun
    obtain ⟨_, _, ⟨_, pruned, hPrune, _, _, ⟨rfl, rfl⟩, rfl, rfl⟩, rfl, rfl⟩ := hRun
    exact h.pruned (prunePerContract_still h.still hPrune)

/-! ## Expiry -/

/-- The entries that have not expired yet, in the two logs that a turn looks at. -/
def unexpired (queue : BackoffQueue) (contractKey : String) : ℕ :=
  queue.globalLog.countP (fun t => decide (queue.clock.time < t + queue.config.globalWindow)) +
    (queue.contractLog contractKey).countP fun t => decide (queue.clock.time < t + queue.config.perContractWindow)

structure ClearBy (queue : BackoffQueue) (contractKey : String) (deadline : ℚ) : Prop where
  global : ∀ t ∈ queue.globalLog, t + queue.config.globalWindow ≤ deadline
  perContract : ∀ t ∈ queue.contractLog contractKey, t + queue.config.perContractWindow ≤ deadline

theorem ClearBy.pruned {gate : BackoffQueue} (h : queue.ClearBy contractKey deadline) (hPruned : Pruned queue gate) :
    gate.ClearBy contractKey deadline where
  global t ht := hPruned.config ▸ h.global t (hPruned.global.subset ht)
  perContract t ht := hPruned.config ▸ h.perContract t ((hPruned.perContract contractKey).subset ht)

theorem Pruned.unexpired_le {gate : BackoffQueue} (h : Pruned queue gate) :
    gate.unexpired contractKey ≤ queue.unexpired contractKey := by
  unfold unexpired
  rw [h.config, h.time]
  exact add_le_add (h.global.countP_le) (h.perContract contractKey).countP_le

/-- With room for one more request in flight, a sleep ends when some entry expires. -/
theorem requiredSleep_cause (hFree : queue.concurrentCount < queue.config.concurrentLimit)
    (hClosed : 0 < queue.requiredSleep contractKey) :
    (∃ t ∈ queue.globalLog, queue.clock.time + queue.requiredSleep contractKey = t + queue.config.globalWindow) ∨
      ∃ t ∈ queue.contractLog contractKey,
        queue.clock.time + queue.requiredSleep contractKey = t + queue.config.perContractWindow := by
  have hExpiry : ∀ {window : ℚ} {limit : ℤ} {log : List ℚ} {s : ℚ}, s ∈ expirySleep queue.clock.time window limit log →
      0 < s → ∃ t ∈ log, queue.clock.time + s = t + window := by
    intro window limit log s hs hPos
    unfold expirySleep at hs
    split_ifs at hs
    · obtain ⟨oldest, hOldest, rfl⟩ := Option.map_eq_some_iff.mp hs
      rcases max_cases (oldest + window - queue.clock.time) 0 with ⟨hMax, -⟩ | ⟨hMax, -⟩
      · exact ⟨oldest, List.mem_of_mem_head? hOldest, by rw [hMax, add_sub_cancel]⟩
      · exact absurd hPos (by rw [hMax]; exact lt_irrefl 0)
    · cases hs
  unfold requiredSleep at hClosed ⊢
  rw [if_neg (not_le.mpr hFree)] at hClosed ⊢
  simp only [Option.toList_none, List.append_nil] at hClosed ⊢
  cases hMax : List.max? ((expirySleep queue.clock.time queue.config.globalWindow queue.config.globalLimit
      queue.globalLog).toList ++ (expirySleep queue.clock.time queue.config.perContractWindow
      queue.config.perContractLimit (queue.contractLog contractKey)).toList) with
  | none =>
    rw [hMax] at hClosed
    exact absurd hClosed (lt_irrefl 0)
  | some longest =>
    rw [hMax, Option.getD_some] at hClosed
    rw [Option.getD_some]
    rcases List.mem_append.mp (List.max?_mem hMax) with hIn | hIn
    · exact .inl (hExpiry (Option.mem_toList.mp hIn) hClosed)
    · exact .inr (hExpiry (Option.mem_toList.mp hIn) hClosed)

theorem countP_lt {α : Type} {p q : α → Bool} {xs : List α} (hMono : ∀ x, p x = true → q x = true) {x : α}
    (hx : x ∈ xs) (hq : q x = true) (hp : p x = false) : xs.countP p < xs.countP q := by
  obtain ⟨before, after, rfl⟩ := List.append_of_mem hx
  have hBefore := List.countP_mono_left (l := before) fun x _ => hMono x
  have hAfter := List.countP_mono_left (l := after) fun x _ => hMono x
  rw [List.countP_append, List.countP_append, List.countP_cons_of_neg (by simp [hp]), List.countP_cons_of_pos hq]
  omega

def awake (queue : BackoffQueue) (wakeAt : ℚ) : BackoffQueue :=
  { queue with clock := queue.clock.sleepUntil wakeAt }

theorem unexpired_awake_lt (hFree : queue.concurrentCount < queue.config.concurrentLimit)
    (hClosed : 0 < queue.requiredSleep contractKey) :
    (queue.awake (queue.clock.time + queue.requiredSleep contractKey)).unexpired contractKey <
      queue.unexpired contractKey := by
  have hTime : (queue.awake (queue.clock.time + queue.requiredSleep contractKey)).clock.time =
      queue.clock.time + queue.requiredSleep contractKey := max_eq_right (le_add_of_nonneg_right hClosed.le)
  have hMono : ∀ window t : ℚ, decide (queue.clock.time + queue.requiredSleep contractKey < t + window) = true →
      decide (queue.clock.time < t + window) = true := by
    intro window t ht
    exact decide_eq_true ((lt_add_of_pos_right _ hClosed).trans (of_decide_eq_true ht))
  unfold unexpired
  rw [hTime]
  rcases requiredSleep_cause hFree hClosed with ⟨t, ht, hExpires⟩ | ⟨t, ht, hExpires⟩
  · refine add_lt_add_of_lt_of_le (countP_lt (hMono _) ht ?_ ?_) (List.countP_mono_left fun t _ => hMono _ t)
    · rw [← hExpires]
      exact decide_eq_true (lt_add_of_pos_right _ hClosed)
    · exact decide_eq_false (not_lt.mpr hExpires.ge)
  · refine add_lt_add_of_le_of_lt (List.countP_mono_left fun t _ => hMono _ t) (countP_lt (hMono _) ht ?_ ?_)
    · rw [← hExpires]
      exact decide_eq_true (lt_add_of_pos_right _ hClosed)
    · exact decide_eq_false (not_lt.mpr hExpires.ge)

theorem Pruned.awake {gate : BackoffQueue} (h : Pruned queue gate) (wakeAt : ℚ) :
    Pruned (queue.awake wakeAt) (gate.awake wakeAt) where
  config := h.config
  drift := h.drift
  time := congrArg (max · wakeAt) h.time
  inFlight := h.inFlight
  waiters := h.waiters
  global := h.global
  perContract := h.perContract

theorem method_ok {α : Type} (x : M α) (queue : BackoffQueue) : ∃ a queue', x queue = .ok a queue' := by
  cases x queue with
  | ok a queue' => exact ⟨a, queue', rfl⟩
  | error e => exact e.elim

structure Served (queue : BackoffQueue) (contractKey : String) (deadline : ℚ) (n wakes : ℕ)
    (seen : List QueueEvent) : Prop where
  wakes_le : wakes ≤ n
  ends : ∃ sleeps t globalLoad perContractLoad, t ≤ deadline ∧ (∀ e ∈ sleeps, ∃ s, e = .asleep s) ∧
    seen = sleeps ++ [.granted contractKey t globalLoad perContractLoad]

/-- The induction is on the entries that have not expired: the one that a sleep waits for is one of them. -/
theorem waitTurn_served (hStill : queue.Still) (hFree : queue.concurrentCount < queue.config.concurrentLimit)
    (hClear : queue.ClearBy contractKey deadline) (hTime : queue.clock.time ≤ deadline) :
    ∃ first turned wakes later served, waitTurn contractKey deadline queue = .ok first turned ∧
      each perform (List.replicate wakes (.wake queue.waiters.length)) turned = .ok later served ∧
      Served queue contractKey deadline (queue.unexpired contractKey) wakes (first :: later) := by
  induction hMeasure : queue.unexpired contractKey using Nat.strong_induction_on generalizing queue with
  | _ n ih =>
    obtain ⟨first, turned, hTurn⟩ := method_ok (waitTurn contractKey deadline) queue
    obtain ⟨gate, hPruned, hEnds⟩ := waitTurn_still hStill hTurn
    have hRoom : gate.concurrentCount < gate.config.concurrentLimit := by
      rw [hPruned.inFlight, hPruned.config]
      exact hFree
    have hClearGate := hClear.pruned hPruned
    have hInTime : 0 < gate.requiredSleep contractKey →
        gate.clock.time + gate.requiredSleep contractKey ≤ deadline := by
      intro hClosed
      rcases requiredSleep_cause hRoom hClosed with ⟨t, ht, hExpires⟩ | ⟨t, ht, hExpires⟩
      · exact hExpires ▸ hClearGate.global t ht
      · exact hExpires ▸ hClearGate.perContract t ht
    cases hEnds with
    | granted globalLoad perContractLoad =>
      refine ⟨_, _, 0, [], turned, hTurn, rfl, Nat.zero_le _, [], _, _, _, ?_, by simp, rfl⟩
      rw [hPruned.time]
      exact hTime
    | timedOut _ _ _ hClosed hLate => exact absurd (hInTime hClosed) (not_le.mpr hLate)
    | asleep read hSame hClosed =>
      have hRead := hPruned.trans hSame
      set wakeAt := gate.clock.time + gate.requiredSleep contractKey with hWakeAt
      -- the sleeper is the last one of all
      have hWake : perform (.wake queue.waiters.length)
          { read with waiters := read.waiters ++ [⟨contractKey, deadline, wakeAt⟩] } =
          waitTurn contractKey deadline (read.awake wakeAt) := by
        have hSleeper : (read.waiters ++ [(⟨contractKey, deadline, wakeAt⟩ : Waiter)])[queue.waiters.length]? =
            some ⟨contractKey, deadline, wakeAt⟩ := by
          rw [← hRead.waiters, List.getElem?_concat_length]
        have hOthers : (read.waiters ++ [(⟨contractKey, deadline, wakeAt⟩ : Waiter)]).eraseIdx
            queue.waiters.length = read.waiters := by
          rw [← hRead.waiters, List.eraseIdx_append_of_length_le le_rfl]
          simp
        rw [perform, wake, get_bind]
        dsimp only
        rw [hSleeper]
        dsimp only
        rw [modify_bind, hOthers]
        rfl
      have hLess : (read.awake wakeAt).unexpired contractKey < n := by
        calc (read.awake wakeAt).unexpired contractKey
            ≤ (gate.awake wakeAt).unexpired contractKey := (hSame.awake wakeAt).unexpired_le
          _ < gate.unexpired contractKey := unexpired_awake_lt hRoom hClosed
          _ ≤ queue.unexpired contractKey := hPruned.unexpired_le
          _ = n := hMeasure
      have hClearRead := hClear.pruned hRead
      obtain ⟨next, turned, wakes, later, served, hNext, hLater, hServed⟩ := ih _ hLess
        (show (read.awake wakeAt).Still from hRead.still hStill) (by
          change read.concurrentCount < read.config.concurrentLimit
          rw [hRead.inFlight, hRead.config]
          exact hFree)
        ⟨hClearRead.global, hClearRead.perContract⟩
        (max_le (hRead.time ▸ hTime) (hInTime hClosed)) rfl
      refine ⟨_, _, wakes + 1, next :: later, served, hTurn, ?_, ?_⟩
      · rw [List.replicate_succ, each_cons_ok_iff]
        refine ⟨next, turned, later, hWake.trans hNext, ?_, rfl⟩
        rw [← hRead.waiters]
        exact hLater
      · obtain ⟨hWakes, sleeps, t, globalLoad, perContractLoad, ht, hSleeps, hSeen⟩ := hServed
        refine ⟨hWakes.trans_lt hLess, .asleep (gate.requiredSleep contractKey) :: sleeps, t, globalLoad,
          perContractLoad, ht, List.forall_mem_cons.mpr ⟨⟨_, rfl⟩, hSleeps⟩, ?_⟩
        rw [hSeen, List.cons_append]

end BackoffQueue

open BackoffQueue

variable {config : BackoffQueueConfig} {clock : MonotonicClock} {ops : List QueueOp}
variable {events : List QueueEvent} {queue : BackoffQueue}

/-- After any run, an acquire that finds room in flight and that nobody competes with sleeps at most once for each
logged entry and is granted within its timeout, if that covers both windows. -/
theorem lone_acquire_granted (hRun : each perform ops (create config clock) = .ok events queue)
    (hStill : ∀ n, clock.drift n = 0) (hGlobal : config.globalWindow ≤ config.acquireTimeoutSeconds)
    (hContract : config.perContractWindow ≤ config.acquireTimeoutSeconds)
    (hRoom : (inFlight events : ℤ) < config.concurrentLimit) {contractKey : String} (hKey : contractKey ≠ "") :
    ∃ wakes sleeps t globalLoad perContractLoad queue',
      wakes ≤ queue.globalLog.length + (queue.contractLog contractKey).length ∧
      t ≤ queue.clock.time + config.acquireTimeoutSeconds ∧ (∀ e ∈ sleeps, ∃ s, e = .asleep s) ∧
      each perform (.enter contractKey :: List.replicate wakes (.wake queue.waiters.length)) queue =
        .ok (sleeps ++ [.granted contractKey t globalLoad perContractLoad]) queue' := by
  have hInv : Accounts config events queue ∧ queue.Past := by
    refine each_rule (fun _ log s => Accounts config log s ∧ s.Past) ?_ ?_ hRun
    · rintro done op rest log e s s' - ⟨hAccounts, hPast⟩ hStep
      exact ⟨(perform_turned hAccounts hStep).accounts, perform_past hPast hStep⟩
    · exact ⟨create_accounts config clock, hStill, by simp [create], by simp [create, contractLog]⟩
  obtain ⟨hAccounts, hPast⟩ := hInv
  obtain ⟨now, read, hRead⟩ := method_ok monotonic queue
  obtain ⟨rfl, hSame⟩ := monotonic_still hPast.still hRead
  have hConfig : read.config = config := hSame.config.trans hAccounts.config_eq
  have hPastRead := hPast.pruned hSame
  have hClear : read.ClearBy contractKey (queue.clock.time + read.config.acquireTimeoutSeconds) := by
    constructor
    · intro t ht
      rw [hConfig, ← hSame.time]
      exact add_le_add (hPastRead.global t ht) hGlobal
    · intro t ht
      rw [hConfig, ← hSame.time]
      exact add_le_add (hPastRead.perContract contractKey t ht) hContract
  have hFree : read.concurrentCount < read.config.concurrentLimit := by
    rw [hSame.inFlight, hAccounts.concurrent, hConfig]
    exact hRoom
  have hTime : read.clock.time ≤ queue.clock.time + read.config.acquireTimeoutSeconds := by
    rw [hSame.time]
    exact le_add_of_nonneg_right read.config.acquire_timeout_pos.le
  obtain ⟨first, turned, wakes, later, served, hTurn, hLater, hWakes, sleeps, t, globalLoad, perContractLoad, ht,
    hSleeps, hSeen⟩ := waitTurn_served hPastRead.still hFree hClear hTime
  refine ⟨wakes, sleeps, t, globalLoad, perContractLoad, served, ?_, ?_, hSleeps, ?_⟩
  · exact hWakes.trans (add_le_add (List.countP_le_length.trans hSame.global.length_le)
      (List.countP_le_length.trans (hSame.perContract contractKey).length_le))
  · rw [← hConfig]
    exact ht
  · rw [← hSeen, each_cons_ok_iff]
    refine ⟨first, turned, later, ?_, hSame.waiters ▸ hLater, rfl⟩
    rw [perform, enter, if_neg hKey, bind_of_ok hRead, get_bind]
    exact hTurn

/-- One request in ten seconds, right after another one. -/
theorem lone_acquire_granted_after_one : ∃ events queue wakes sleeps t globalLoad perContractLoad queue',
    each perform [.enter "a", .exit] (create onePerTenSeconds frozenClock) = .ok events queue ∧ wakes ≤ 2 ∧
      each perform (.enter "a" :: List.replicate wakes (.wake 0)) queue =
        .ok (sleeps ++ [.granted "a" t globalLoad perContractLoad]) queue' := by
  have hReturns : returns (each perform [.enter "a", .exit]) (create onePerTenSeconds frozenClock)
      (fun events queue => decide (inFlight events = 0 ∧ queue.waiters = [] ∧ queue.globalLog.length = 1 ∧
        (queue.contractLog "a").length = 1)) = true := by
    decide +kernel
  obtain ⟨events, queue, hRun, hTest⟩ := exists_ok_of_returns hReturns
  obtain ⟨hFlight, hWaiters, hGlobal, hContract⟩ := of_decide_eq_true hTest
  obtain ⟨wakes, sleeps, t, globalLoad, perContractLoad, queue', hWakes, -, -, hGranted⟩ :=
    lone_acquire_granted hRun (fun _ => rfl) (by decide +kernel) (by decide +kernel)
      (by rw [hFlight]; decide) (show "a" ≠ "" by decide)
  rw [hGlobal, hContract] at hWakes
  rw [hWaiters] at hGranted
  exact ⟨events, queue, wakes, sleeps, t, globalLoad, perContractLoad, queue', hRun, hWakes, hGranted⟩

end Futur3.Data
