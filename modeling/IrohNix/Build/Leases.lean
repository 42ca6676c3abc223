import IrohNix.Build.QueueRun

namespace IrohNix.Build
open IrohNix.Lib

/-- A queue and the clock that its calls read. -/
structure Clocked where
  clock : Instant
  queue : BuildQueue

inductive ClockEvent where
  | passes (time : Nat)
  | call (e : QueueEvent)

/-- The clock reading of a call that makes one. -/
def QueueEvent.reads : QueueEvent → Option Instant
  | .pull _ _ now _ | .heartbeat _ _ _ now _ | .checkTimeouts now _ => some now
  | _ => none

/-- The clock only goes forward, and each call reads it. -/
inductive ClockStep (hashers : Hashers) : Clocked → ClockEvent → Clocked → Prop where
  | passes (s : Clocked) (time : Nat) :
      ClockStep hashers s (.passes time) { s with clock := s.clock + time }
  | call (s : Clocked) (e : QueueEvent) (q : BuildQueue)
      (reads : ∀ now, e.reads = some now → now = s.clock) (step : QueueStep hashers s.queue e q) :
      ClockStep hashers s (.call e) { s with queue := q }

def ClockEvent.queueCall : ClockEvent → Option QueueEvent
  | .passes _ => none
  | .call e => some e

/-- The calls on the queue. -/
def clockCalls (h : List ClockEvent) : List QueueEvent := h.filterMap ClockEvent.queueCall

/-- A sign of life for a job, its grant or an accepted heartbeat: whose, and when. -/
def QueueEvent.sign (j : JobId) : QueueEvent → Option (EndpointId × Instant)
  | .pull builder _ now (some job) => if job.id = j then some (builder, now) else none
  | .heartbeat jobId builder _ now true => if jobId = j then some (builder, now) else none
  | _ => none

/-- The grant of a job: to whom, who offered what, and the job. -/
def QueueEvent.grant (j : JobId) : QueueEvent → Option (EndpointId × List String × BuildJob)
  | .pull builder features _ (some job) =>
    if job.id = j then some (builder, features, job) else none
  | _ => none

/-- The fact that the last call with one tells. -/
def latest {α : Type} (fact : QueueEvent → Option α) (h : List QueueEvent) : Option α :=
  (h.filterMap fact).getLast?

theorem latest_snoc {α : Type} (fact : QueueEvent → Option α) (h : List QueueEvent)
    (e : QueueEvent) : latest fact (h ++ [e]) = (fact e).or (latest fact h) := by
  rw [latest, latest, filterMap_snoc]
  cases fact e <;> simp

/-- The lease's holder is the one it was last granted to, who offered all the job requires,
and its time is that of the holder's last sign of life. -/
structure LeaseTold (h : List QueueEvent) (j : JobId) (lease : LeasedJob) : Prop where
  sign : latest (QueueEvent.sign j) h = some (lease.builder, lease.lastHeartbeat)
  granted : ∃ features, latest (QueueEvent.grant j) h = some (lease.builder, features, lease.job) ∧
    lease.job.offeredBy features = true

def LeasesTold (h : List QueueEvent) (q : BuildQueue) : Prop :=
  ∀ j lease, q.leased.get? j = some lease → LeaseTold h j lease

/-- The call tells nothing of a lease there was before. -/
structure LeaseStays (q : BuildQueue) (e : QueueEvent) (j : JobId) (lease : LeasedJob) : Prop where
  held : q.leased.get? j = some lease
  no_sign : e.sign j = none
  no_grant : e.grant j = none

/-- The call is the pull that grants the lease. -/
structure LeaseGranted (e : QueueEvent) (j : JobId) (lease : LeasedJob) : Prop where
  sign : e.sign j = some (lease.builder, lease.lastHeartbeat)
  grant : ∃ features, e.grant j = some (lease.builder, features, lease.job) ∧
    lease.job.offeredBy features = true

/-- The call is a heartbeat of the lease's holder. -/
structure LeaseBeats (q : BuildQueue) (e : QueueEvent) (j : JobId) (lease : LeasedJob) : Prop where
  held : ∃ old, q.leased.get? j = some old ∧ old.builder = lease.builder ∧ old.job = lease.job
  sign : e.sign j = some (lease.builder, lease.lastHeartbeat)
  no_grant : e.grant j = none

/-- Where a lease comes from that there is after a call. -/
theorem lease_cases {hashers : Hashers} {q q' : BuildQueue} {e : QueueEvent}
    (step : QueueStep hashers q e q') {j : JobId} {lease : LeasedJob}
    (hl : q'.leased.get? j = some lease) :
    LeaseStays q e j lease ∨ LeaseGranted e j lease ∨ LeaseBeats q e j lease := by
  cases step with
  | push => exact .inl ⟨hl, rfl, rfl⟩
  | pull builder features now =>
    rcases q.pull_cases builder features now with ⟨_, hq⟩ | ⟨before, job, after, _, _, offered, hq⟩
    · rw [hq] at hl ⊢
      exact .inl ⟨hl, rfl, rfl⟩
    · rw [hq] at hl ⊢
      rw [HashMap.get_insert] at hl
      split at hl
      · rename_i hj
        cases hl
        exact .inr (.inl ⟨if_pos hj.symm, features, if_pos hj.symm, offered⟩)
      · rename_i hj
        exact .inl ⟨hl, if_neg (Ne.symm hj), if_neg (Ne.symm hj)⟩
  | heartbeat jobId builder status now =>
    rcases q.heartbeat_cases jobId builder status now with ⟨hq, _⟩ | ⟨held, hheld, hb, hq⟩
    · rw [hq] at hl ⊢
      exact .inl ⟨hl, rfl, rfl⟩
    · rw [hq] at hl ⊢
      rw [HashMap.get_insert] at hl
      split at hl
      · rename_i hj
        cases hl
        exact .inr (.inr ⟨⟨held, hj ▸ hheld, rfl, rfl⟩, (if_pos hj.symm).trans (by rw [hb]), rfl⟩)
      · rename_i hj
        exact .inl ⟨hl, if_neg (Ne.symm hj), rfl⟩
  | complete jobId builder result =>
    rcases q.complete_cases jobId builder result with ⟨hq, _⟩ | ⟨_, _, _, hq⟩
    · rw [hq] at hl
      exact .inl ⟨hl, rfl, rfl⟩
    · rw [hq] at hl
      exact .inl ⟨HashMap.get_of_erase hl, rfl, rfl⟩
  | fail jobId builder error =>
    rcases q.fail_cases jobId builder error with ⟨hq, _⟩ | ⟨_, _, _, hq⟩
    · rw [hq] at hl
      exact .inl ⟨hl, rfl, rfl⟩
    · rw [hq] at hl
      exact .inl ⟨HashMap.get_of_erase hl, rfl, rfl⟩
  | checkTimeouts order now =>
    rw [BuildQueue.checkTimeouts_eq, HashMap.get_eraseAll] at hl
    split at hl
    · cases hl
    · exact .inl ⟨hl, rfl, rfl⟩
  | takePendingFetches => exact .inl ⟨hl, rfl, rfl⟩
  | broadcastLog => exact .inl ⟨hl, rfl, rfl⟩

theorem LeasesTold.step {hashers : Hashers} {h : List QueueEvent} {q q' : BuildQueue}
    {e : QueueEvent} (told : LeasesTold h q) (step : QueueStep hashers q e q') :
    LeasesTold (h ++ [e]) q' := by
  intro j lease hl
  rcases lease_cases step hl with stays | granted | beats
  · obtain ⟨features, hgrant, offered⟩ := (told j lease stays.held).granted
    refine ⟨?_, features, ?_, offered⟩
    · rw [latest_snoc, stays.no_sign]
      exact (told j lease stays.held).sign
    · rw [latest_snoc, stays.no_grant]
      exact hgrant
  · obtain ⟨features, hgrant, offered⟩ := granted.grant
    refine ⟨?_, features, ?_, offered⟩
    · rw [latest_snoc, granted.sign]
      rfl
    · rw [latest_snoc, hgrant]
      rfl
  · obtain ⟨old, held, holder, job⟩ := beats.held
    obtain ⟨features, hgrant, offered⟩ := (told j old held).granted
    rw [holder, job] at hgrant
    refine ⟨?_, features, ?_, job ▸ offered⟩
    · rw [latest_snoc, beats.sign]
      rfl
    · rw [latest_snoc, beats.no_grant]
      exact hgrant

theorem leasesTold_run {hashers : Hashers} {ourId : EndpointId} {h : List QueueEvent}
    {q : BuildQueue} (run : QueueRun hashers ourId h q) : LeasesTold h q := by
  refine run.invariant LeasesTold ?_ fun _ _ _ _ _ told step => told.step step
  intro j lease hl
  simp [BuildQueue.new] at hl

theorem leases_told {hashers : Hashers} {start : Instant} {ourId : EndpointId}
    {h : List ClockEvent} {s : Clocked} (run : Run (ClockStep hashers) ⟨start, .new ourId⟩ h s) :
    LeasesTold (clockCalls h) s.queue := by
  refine run.invariant (fun h s => LeasesTold (clockCalls h) s.queue) ?_ ?_
  · intro j lease hl
    simp [BuildQueue.new] at hl
  · intro h s e t _ told step
    cases step with
    | passes time =>
      have same : clockCalls (h ++ [.passes time]) = clockCalls h := by
        rw [clockCalls, filterMap_snoc]
        exact List.append_nil _
      exact same ▸ told
    | call e q reads step => simpa [clockCalls, ClockEvent.queueCall] using told.step step

/-- Leases are held by capable builders, refused only for want of a job, revoked only for
silence, and prolonged by their holders alone. -/
structure LeasesKept (h : List QueueEvent) (s : Clocked) : Prop where
  capable : ∀ j lease, s.queue.leased.get? j = some lease → ∃ features,
    latest (QueueEvent.grant j) h = some (lease.builder, features, lease.job) ∧
      lease.job.offeredBy features = true
  refused : ∀ builder features now, (s.queue.pull builder features now).2 = none →
    ∀ job ∈ s.queue.pending, job.offeredBy features = false
  silent : ∀ (order : s.queue.leased.Iter) j,
    j ∈ (s.queue.checkTimeouts order s.clock).2 ↔ ∃ lease sign,
      s.queue.leased.get? j = some lease ∧
        latest (QueueEvent.sign j) h = some (lease.builder, sign) ∧
        sign + jobLeaseTimeout < s.clock
  revoked : ∀ (order : s.queue.leased.Iter) j,
    (s.queue.checkTimeouts order s.clock).1.leased.get? j =
      if j ∈ (s.queue.checkTimeouts order s.clock).2 then none else s.queue.leased.get? j
  returned : ∀ order : s.queue.leased.Iter,
    (s.queue.checkTimeouts order s.clock).1.pending =
      ((s.queue.checkTimeouts order s.clock).2.filterMap fun j =>
        (s.queue.leased.get? j).map LeasedJob.job).reverse ++ s.queue.pending
  foreign : ∀ j lease builder status now, s.queue.leased.get? j = some lease →
    builder ≠ lease.builder → s.queue.heartbeat j builder status now = (s.queue, false)

theorem lapsed_iff {last now : Instant} :
    jobLeaseTimeout < now - last ↔ last + jobLeaseTimeout < now := by
  rw [Nat.add_comm]
  exact Nat.lt_sub_iff_add_lt

/-- In every run under a clock that goes forward. -/
theorem leases_kept (hashers : Hashers) (start : Instant) (ourId : EndpointId)
    (h : List ClockEvent) (s : Clocked)
    (run : Run (ClockStep hashers) ⟨start, .new ourId⟩ h s) : LeasesKept (clockCalls h) s := by
  have told := leases_told run
  constructor
  · exact fun j lease hl => (told j lease hl).granted
  · exact fun builder features now unmatched => BuildQueue.pull_none unmatched
  · intro order j
    rw [BuildQueue.checkTimeouts_eq, List.mem_map]
    constructor
    · intro hj
      obtain ⟨⟨j', lease⟩, he, rfl⟩ := hj
      obtain ⟨hl, late⟩ := BuildQueue.mem_expired.mp he
      exact ⟨lease, lease.lastHeartbeat, hl, (told j' lease hl).sign, lapsed_iff.mp late⟩
    · intro hj
      obtain ⟨lease, sign, hl, hsign, late⟩ := hj
      have same := hsign.symm.trans (told j lease hl).sign
      simp only [Option.some.injEq, Prod.mk.injEq, true_and] at same
      exact ⟨(j, lease), BuildQueue.mem_expired.mpr ⟨hl, lapsed_iff.mpr (same ▸ late)⟩, rfl⟩
  · intro order j
    rw [BuildQueue.checkTimeouts_eq, HashMap.get_eraseAll]
  · intro order
    rw [BuildQueue.checkTimeouts_eq, List.filterMap_map]
    have jobs : ∀ e ∈ s.queue.expired order s.clock,
        ((fun j => (s.queue.leased.get? j).map LeasedJob.job) ∘ Prod.fst) e = some e.2.job := by
      intro e he
      simp [(BuildQueue.mem_expired.mp he).1]
    rw [List.filterMap_congr jobs, List.filterMap_eq_map']
  · intro j lease builder status now hl other
    rcases s.queue.heartbeat_cases j builder status now with ⟨hq, _⟩ | ⟨held, hheld, hb, _⟩
    · exact hq
    · rw [hl] at hheld
      cases hheld
      exact absurd hb.symm other

/-- One job submitted and, five seconds later, leased. -/
theorem leases_kept_leased : ∃ h s, LeasesKept (clockCalls h) s ∧ s.clock = 5 ∧
    (s.queue.leased.get? ⟨1⟩).isSome = true := by
  have start : Run (ClockStep zeroHashers) ⟨0, .new ⟨zeroBytes32⟩⟩ [] _ := .nil
  have pushed := start.snoc (.call _ _ _ (by simp [QueueEvent.reads])
    (.push _ "/nix/store/a.drv" ["kvm"] ["/nix/store/a"] [] 0))
  have leased := (pushed.snoc (.passes _ 5)).snoc (.call _ _ _ (by simp [QueueEvent.reads])
    (.pull _ ⟨zeroBytes32⟩ ["kvm"] 5))
  exact ⟨_, _, leases_kept _ _ _ _ _ leased, rfl, rfl⟩

end IrohNix.Build
