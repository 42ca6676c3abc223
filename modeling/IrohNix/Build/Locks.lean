import IrohNix.Build.QueueRun

namespace IrohNix.Build
open IrohNix.Lib

/-- A `pull` that has taken its job out of `pending`, and holds that lock until the lease
is in. -/
structure Pulling where
  builder : EndpointId
  features : List String
  now : Instant
  before : List BuildJob
  job : BuildJob
  after : List BuildJob

/-- A `complete` or `fail` that has taken a lease, and holds the lock of `leased` until it
returns. -/
inductive Ending where
  | completing (jobId : JobId) (builder : EndpointId) (result : BuildResult) (lease : LeasedJob)
  | appended (jobId : JobId) (builder : EndpointId) (result : BuildResult) (lease : LeasedJob)
  | failing (jobId : JobId) (builder : EndpointId) (error : String) (lease : LeasedJob)

/-- The lease is taken from its holder, and is not there again. -/
def Ending.Took (q : BuildQueue) : Ending → Prop
  | .completing jobId builder _ lease | .failing jobId builder _ lease =>
    q.leased.get? jobId = none ∧ lease.builder = builder
  | .appended .. => True

/-- A queue, with the calls that hold one of its locks while they wait for another. All
other locks are let go in the span they are taken in. -/
structure LockedQueue where
  queue : BuildQueue
  pendingHeld : Option Pulling
  leasedHeld : Option Ending

inductive LockEvent where
  /-- A call takes effect. All but an accepted `complete` return then. -/
  | effect (call : QueueEvent)
  | returns (jobId : JobId) (builder : EndpointId) (result : BuildResult)
  | inner

/-- The builders' calls, one span from a lock's acquisition to the next. A completion is
of the job that its result names. -/
inductive CallStep : LockedQueue → LockEvent → LockedQueue → Prop where
  | pullNone (s : LockedQueue) (builder : EndpointId) (features : List String) (now : Instant)
      (free : s.pendingHeld = none) (unmatched : (s.queue.pull builder features now).2 = none) :
      CallStep s (.effect (.pull builder features now none)) s
  | pullTakes (s : LockedQueue) (p : Pulling) (free : s.pendingHeld = none)
      (pending : s.queue.pending = p.before ++ p.job :: p.after)
      (passed : ∀ k ∈ p.before, k.offeredBy p.features = false)
      (offered : p.job.offeredBy p.features = true) :
      CallStep s .inner
        { s with queue := { s.queue with pending := p.before ++ p.after }, pendingHeld := some p }
  | pullLeases (s : LockedQueue) (p : Pulling) (held : s.pendingHeld = some p)
      (free : s.leasedHeld = none) :
      CallStep s (.effect (.pull p.builder p.features p.now (some p.job)))
        { s with
          queue := { s.queue with
            leased := s.queue.leased.insert p.job.id ⟨p.job, p.builder, p.now, p.now, "starting"⟩ }
          pendingHeld := none }
  | heartbeat (s : LockedQueue) (jobId : JobId) (builder : EndpointId) (status : String)
      (now : Instant) (free : s.leasedHeld = none) :
      CallStep s
        (.effect (.heartbeat jobId builder status now
          (s.queue.heartbeat jobId builder status now).2))
        { s with queue := (s.queue.heartbeat jobId builder status now).1 }
  | completeRefused (s : LockedQueue) (jobId : JobId) (builder : EndpointId) (result : BuildResult)
      (q : BuildQueue) (free : s.leasedHeld = none)
      (refused : s.queue.complete jobId builder result = (q, false)) :
      CallStep s (.effect (.complete jobId builder result false)) { s with queue := q }
  | completeTakes (s : LockedQueue) (jobId : JobId) (builder : EndpointId) (result : BuildResult)
      (lease : LeasedJob) (free : s.leasedHeld = none) (names : result.jobId = jobId)
      (leased : s.queue.leased.get? jobId = some lease) (holder : lease.builder = builder) :
      CallStep s .inner
        { s with
          queue := { s.queue with leased := s.queue.leased.erase jobId }
          leasedHeld := some (.completing jobId builder result lease) }
  | completeAppends (s : LockedQueue) (jobId : JobId) (builder : EndpointId) (result : BuildResult)
      (lease : LeasedJob) (held : s.leasedHeld = some (.completing jobId builder result lease)) :
      CallStep s (.effect (.complete jobId builder result true))
        { s with
          queue := { s.queue with pendingFetch := s.queue.pendingFetch ++ [result] }
          leasedHeld := some (.appended jobId builder result lease) }
  | completeReturns (s : LockedQueue) (jobId : JobId) (builder : EndpointId) (result : BuildResult)
      (lease : LeasedJob) (held : s.leasedHeld = some (.appended jobId builder result lease)) :
      CallStep s (.returns jobId builder result)
        { s with
          queue := { s.queue with
            completed := s.queue.completed.insert lease.job.drvHash (.completed result) }
          leasedHeld := none }
  | failRefused (s : LockedQueue) (jobId : JobId) (builder : EndpointId) (error : String)
      (q : BuildQueue) (free : s.leasedHeld = none)
      (refused : s.queue.fail jobId builder error = (q, false)) :
      CallStep s (.effect (.fail jobId builder error false)) { s with queue := q }
  | failTakes (s : LockedQueue) (jobId : JobId) (builder : EndpointId) (error : String)
      (lease : LeasedJob) (free : s.leasedHeld = none)
      (leased : s.queue.leased.get? jobId = some lease) (holder : lease.builder = builder) :
      CallStep s .inner
        { s with
          queue := { s.queue with leased := s.queue.leased.erase jobId }
          leasedHeld := some (.failing jobId builder error lease) }
  | failReturns (s : LockedQueue) (jobId : JobId) (builder : EndpointId) (error : String)
      (lease : LeasedJob) (held : s.leasedHeld = some (.failing jobId builder error lease)) :
      CallStep s (.effect (.fail jobId builder error true))
        { s with
          queue := { s.queue with
            completed := s.queue.completed.insert lease.job.drvHash (.failed builder error) }
          leasedHeld := none }
  | broadcastLog (s : LockedQueue) (jobId : UInt64) (data : Bytes) (stream : UInt8) :
      CallStep s (.effect (.broadcastLog jobId data stream))
        { s with queue := s.queue.broadcastLog jobId data stream }

def LockEvent.call : LockEvent → Option QueueEvent
  | .effect call => some call
  | .returns .. | .inner => none

namespace LockedQueue

/-- The jobs in the queue, with the one that a `pull` is moving. -/
def allPending (s : LockedQueue) : List BuildJob :=
  match s.pendingHeld with
  | some p => p.before ++ p.job :: p.after
  | none => s.queue.pending

/-- The leases and outcomes as they are before a call in progress takes effect, or after
it has. -/
def settled (s : LockedQueue) : BuildQueue :=
  match s.leasedHeld with
  | some (.completing jobId _ _ lease) | some (.failing jobId _ _ lease) =>
    { s.queue with leased := s.queue.leased.insert jobId lease }
  | some (.appended _ _ result lease) =>
    { s.queue with
      completed := s.queue.completed.insert lease.job.drvHash (.completed result) }
  | none => s.queue

/-- The queue as if every call were one step. -/
def atomic (s : LockedQueue) : BuildQueue := { s.settled with pending := s.allPending }

/-- What the calls that hold a lock have done under it, nobody has undone. -/
structure Guarded (s : LockedQueue) : Prop where
  pulling : ∀ p, s.pendingHeld = some p → s.queue.pending = p.before ++ p.after ∧
    (∀ k ∈ p.before, k.offeredBy p.features = false) ∧ p.job.offeredBy p.features = true
  ending : ∀ e, s.leasedHeld = some e → e.Took s.queue

end LockedQueue

/-- The calls that work on the leases. -/
def leaseCall : QueueEvent → Bool
  | .heartbeat .. | .complete .. | .fail .. | .takePendingFetches .. | .broadcastLog .. => true
  | .push .. | .pull .. | .checkTimeouts .. => false

/-- Calls on the leases do not see the pending jobs. -/
theorem QueueStep.with_pending {hashers : Hashers} {q q' : BuildQueue} {e : QueueEvent}
    (step : QueueStep hashers q e q') (onLeases : leaseCall e = true) (jobs : List BuildJob) :
    QueueStep hashers { q with pending := jobs } e { q' with pending := jobs } := by
  cases step with
  | push | pull | checkTimeouts => cases onLeases
  | heartbeat jobId builder status now =>
    have step : QueueStep hashers _ _ _ :=
      .heartbeat { q with pending := jobs } jobId builder status now
    rw [BuildQueue.heartbeat_pending] at step
    exact step
  | complete jobId builder result =>
    have step : QueueStep hashers _ _ _ := .complete { q with pending := jobs } jobId builder result
    rw [BuildQueue.complete_pending] at step
    exact step
  | fail jobId builder error =>
    have step : QueueStep hashers _ _ _ := .fail { q with pending := jobs } jobId builder error
    rw [BuildQueue.fail_pending] at step
    exact step
  | takePendingFetches => exact .takePendingFetches { q with pending := jobs }
  | broadcastLog jobId data stream =>
    exact .broadcastLog { q with pending := jobs } jobId data stream

/-- A call on the leases that takes effect there takes effect on the whole queue. -/
theorem atomic_leaseCall {hashers : Hashers} {s t : LockedQueue} {e : QueueEvent}
    (step : QueueStep hashers s.settled e t.settled) (onLeases : leaseCall e = true)
    (same : t.allPending = s.allPending) : QueueStep hashers s.atomic e t.atomic := by
  rw [LockedQueue.atomic, LockedQueue.atomic, same]
  exact step.with_pending onLeases _

theorem settled_free {s : LockedQueue} (free : s.leasedHeld = none) : s.settled = s.queue := by
  rw [LockedQueue.settled, free]

section Refines

variable {hashers : Hashers} {s : LockedQueue}

/-- A lease that is taken and put back is as before. -/
theorem settled_taken {jobId : JobId} {lease : LeasedJob}
    (leased : s.queue.leased.get? jobId = some lease) :
    { s.queue with leased := (s.queue.leased.erase jobId).insert jobId lease } = s.queue := by
  rw [HashMap.erase_insert_same leased]

theorem pullNone_refines {builder : EndpointId} {features : List String} {now : Instant}
    (free : s.pendingHeld = none) (unmatched : (s.queue.pull builder features now).2 = none) :
    QueueStep hashers s.atomic (.pull builder features now none) s.atomic := by
  have none : s.atomic.pull builder features now = (s.atomic, none) := by
    rcases s.atomic.pull_cases builder features now with ⟨_, hq⟩ | ⟨_, job, _, hp, _, offered, _⟩
    · exact hq
    · have waits : job ∈ s.atomic.pending := by simp [hp]
      rw [LockedQueue.atomic, LockedQueue.allPending, free] at waits
      rw [BuildQueue.pull_none unmatched job waits] at offered
      cases offered
  have step : QueueStep hashers _ _ _ := .pull s.atomic builder features now
  rw [none] at step
  exact step

theorem pullLeases_refines (guarded : s.Guarded) {p : Pulling} (held : s.pendingHeld = some p)
    (free : s.leasedHeld = none) :
    QueueStep hashers s.atomic (.pull p.builder p.features p.now (some p.job))
      { s.queue with
        leased := s.queue.leased.insert p.job.id ⟨p.job, p.builder, p.now, p.now, "starting"⟩ } := by
  obtain ⟨hpending, passed, offered⟩ := guarded.pulling p held
  have waits : s.atomic.pending = p.before ++ p.job :: p.after := by
    simp [LockedQueue.atomic, LockedQueue.allPending, held]
  have step : QueueStep hashers _ _ _ := .pull s.atomic p.builder p.features p.now
  rw [BuildQueue.pull_first waits passed offered, ← hpending] at step
  simpa only [LockedQueue.atomic, settled_free free] using step

/-- What is completed is the lease that was taken. -/
theorem completeAppends_refines (guarded : s.Guarded) {jobId : JobId} {builder : EndpointId}
    {result : BuildResult} {lease : LeasedJob}
    (held : s.leasedHeld = some (.completing jobId builder result lease)) :
    QueueStep hashers s.settled (.complete jobId builder result true)
      { s.queue with
        pendingFetch := s.queue.pendingFetch ++ [result]
        completed := s.queue.completed.insert lease.job.drvHash (.completed result) } := by
  obtain ⟨gone, holder⟩ := guarded.ending _ held
  have step : QueueStep hashers _ _ _ := .complete s.settled jobId builder result
  have settled : s.settled = { s.queue with leased := s.queue.leased.insert jobId lease } := by
    rw [LockedQueue.settled, held]
  rcases s.settled.complete_cases jobId builder result with ⟨_, refused⟩ | ⟨lease', hl, _, hq⟩
  · exact absurd holder (refused lease (by rw [settled]; exact HashMap.get_insert_self ..))
  · have same : lease' = lease := by
      rw [settled] at hl
      exact (Option.some.inj ((HashMap.get_insert_self ..).symm.trans hl)).symm
    rw [hq] at step
    simpa [settled, same, HashMap.insert_erase_new gone] using step

theorem failReturns_refines (guarded : s.Guarded) {jobId : JobId} {builder : EndpointId}
    {error : String} {lease : LeasedJob}
    (held : s.leasedHeld = some (.failing jobId builder error lease)) :
    QueueStep hashers s.settled (.fail jobId builder error true)
      { s.queue with
        completed := s.queue.completed.insert lease.job.drvHash (.failed builder error) } := by
  obtain ⟨gone, holder⟩ := guarded.ending _ held
  have step : QueueStep hashers _ _ _ := .fail s.settled jobId builder error
  have settled : s.settled = { s.queue with leased := s.queue.leased.insert jobId lease } := by
    rw [LockedQueue.settled, held]
  rcases s.settled.fail_cases jobId builder error with ⟨_, refused⟩ | ⟨lease', hl, _, hq⟩
  · exact absurd holder (refused lease (by rw [settled]; exact HashMap.get_insert_self ..))
  · have same : lease' = lease := by
      rw [settled] at hl
      exact (Option.some.inj ((HashMap.get_insert_self ..).symm.trans hl)).symm
    rw [hq] at step
    simpa [settled, same, HashMap.insert_erase_new gone] using step

end Refines

/-- A span that leaves the pending jobs alone. -/
theorem frame_pending {s t : LockedQueue} (guarded : s.Guarded)
    (held : t.pendingHeld = s.pendingHeld) (same : t.queue.pending = s.queue.pending)
    (took : ∀ e, t.leasedHeld = some e → e.Took t.queue) :
    t.Guarded ∧ t.allPending = s.allPending := by
  refine ⟨⟨?_, took⟩, ?_⟩
  · rw [held, same]
    exact guarded.pulling
  · rw [LockedQueue.allPending, LockedQueue.allPending, held, same]

/-- A span keeps what others do under their locks, and changes nothing or is a whole call. -/
def Refines (hashers : Hashers) (s : LockedQueue) (e : LockEvent) (t : LockedQueue) : Prop :=
  t.Guarded ∧ ((e.call = none ∧ t.atomic = s.atomic) ∨
    ∃ call, e.call = some call ∧ QueueStep hashers s.atomic call t.atomic)

theorem inner_refines {hashers : Hashers} {s t : LockedQueue} {e : LockEvent}
    (guarded : s.Guarded) (hidden : e.call = none) (held : t.pendingHeld = s.pendingHeld)
    (same : t.queue.pending = s.queue.pending) (took : ∀ e, t.leasedHeld = some e → e.Took t.queue)
    (settled : t.settled = s.settled) : Refines hashers s e t := by
  obtain ⟨guarded', pending⟩ := frame_pending guarded held same took
  refine ⟨guarded', .inl ⟨hidden, ?_⟩⟩
  rw [LockedQueue.atomic, LockedQueue.atomic, settled, pending]

theorem leaseCall_refines {hashers : Hashers} {s t : LockedQueue} {e : QueueEvent}
    (guarded : s.Guarded) (onLeases : leaseCall e = true) (held : t.pendingHeld = s.pendingHeld)
    (same : t.queue.pending = s.queue.pending) (took : ∀ e, t.leasedHeld = some e → e.Took t.queue)
    (step : QueueStep hashers s.settled e t.settled) : Refines hashers s (.effect e) t := by
  obtain ⟨guarded', pending⟩ := frame_pending guarded held same took
  exact ⟨guarded', .inr ⟨e, rfl, atomic_leaseCall step onLeases pending⟩⟩

/-- Locks are as good as calls that take one step each. -/
theorem call_refines (hashers : Hashers) {s t : LockedQueue} {e : LockEvent}
    (guarded : s.Guarded) (step : CallStep s e t) : Refines hashers s e t := by
  cases step with
  | pullNone builder features now free unmatched =>
    exact ⟨guarded, .inr ⟨_, rfl, pullNone_refines free unmatched⟩⟩
  | pullTakes p free pending passed offered =>
    refine ⟨⟨?_, fun e h => ?_⟩, .inl ⟨rfl, ?_⟩⟩
    · intro p' hp
      cases hp
      exact ⟨rfl, passed, offered⟩
    · have took := guarded.ending e h
      cases e <;> exact took
    · simp only [LockedQueue.atomic, LockedQueue.allPending, free, pending, LockedQueue.settled]
      split <;> rfl
  | pullLeases p held free =>
    refine ⟨⟨by simp, by simp [free]⟩, .inr ⟨_, rfl, ?_⟩⟩
    simpa [LockedQueue.atomic, LockedQueue.allPending, LockedQueue.settled, free]
      using pullLeases_refines guarded held free
  | heartbeat jobId builder status now free =>
    refine leaseCall_refines guarded rfl rfl ?_ (by simp [free]) ?_
    · rcases s.queue.heartbeat_cases jobId builder status now with ⟨hq, _⟩ | ⟨_, _, _, hq⟩ <;>
        rw [hq]
    · simpa [LockedQueue.settled, free] using .heartbeat s.queue jobId builder status now
  | completeRefused jobId builder result q free refused =>
    have step : QueueStep hashers _ _ _ := .complete s.queue jobId builder result
    rw [refused] at step
    refine leaseCall_refines guarded rfl rfl ?_ (by simp [free]) ?_
    · rw [BuildQueue.complete_refused refused]
    · simpa [LockedQueue.settled, free] using step
  | completeTakes jobId builder result lease free names leased holder =>
    refine inner_refines guarded rfl rfl rfl ?_ ?_
    · intro e he
      cases he
      exact ⟨by simp [HashMap.get_erase], holder⟩
    · simp [LockedQueue.settled, free, HashMap.erase_insert_same leased]
  | completeAppends jobId builder result lease held =>
    refine leaseCall_refines guarded rfl rfl rfl ?_ ?_
    · intro e he
      cases he
      trivial
    · simpa [LockedQueue.settled] using completeAppends_refines guarded held
  | completeReturns jobId builder result lease held =>
    refine inner_refines guarded rfl rfl rfl (by simp) ?_
    simp [LockedQueue.settled, held]
  | failRefused jobId builder error q free refused =>
    have step : QueueStep hashers _ _ _ := .fail s.queue jobId builder error
    rw [refused] at step
    refine leaseCall_refines guarded rfl rfl ?_ (by simp [free]) ?_
    · rw [BuildQueue.fail_refused refused]
    · simpa [LockedQueue.settled, free] using step
  | failTakes jobId builder error lease free leased holder =>
    refine inner_refines guarded rfl rfl rfl ?_ ?_
    · intro e he
      cases he
      exact ⟨by simp [HashMap.get_erase], holder⟩
    · simp [LockedQueue.settled, free, HashMap.erase_insert_same leased]
  | failReturns jobId builder error lease held =>
    refine leaseCall_refines guarded rfl rfl rfl (by simp) ?_
    simpa [LockedQueue.settled] using failReturns_refines guarded held
  | broadcastLog jobId data stream =>
    refine leaseCall_refines guarded rfl rfl rfl (fun e he => ?_) ?_
    · have took := guarded.ending e he
      cases e <;> exact took
    · have step : QueueStep hashers _ _ _ := .broadcastLog s.settled jobId data stream
      convert step using 1
      simp only [LockedQueue.settled]
      split <;> rfl

/-- `take_pending_fetches` is one span, which may fall between those of other calls. -/
theorem take_refines (hashers : Hashers) {s : LockedQueue} (guarded : s.Guarded) :
    Refines hashers s (.effect (.takePendingFetches s.queue.takePendingFetches.2))
      { s with queue := s.queue.takePendingFetches.1 } := by
  refine leaseCall_refines guarded rfl rfl rfl (fun e he => ?_) ?_
  · have took := guarded.ending e he
    cases e <;> exact took
  · have step : QueueStep hashers _ _ _ := .takePendingFetches s.settled
    convert step using 1
    · simp only [LockedQueue.settled, BuildQueue.takePendingFetches]
      split <;> rfl
    · simp only [LockedQueue.settled, BuildQueue.takePendingFetches]
      split <;> rfl

end IrohNix.Build
