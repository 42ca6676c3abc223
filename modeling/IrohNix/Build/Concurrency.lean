import IrohNix.Build.Conservation
import IrohNix.Build.Locks

namespace IrohNix.Build
open IrohNix.Lib

/-- What `push` does once its job has an identifier. -/
def BuildQueue.queueJob (q : BuildQueue) (job : BuildJob) : BuildQueue × Bool :=
  let shouldAnnounce := q.pending.isEmpty || q.neededFeatures.isNone
  ({ q with
      pending := q.pending ++ [job]
      neededFeatures := if shouldAnnounce then some job.systemFeatures else q.neededFeatures },
    shouldAnnounce)

/-- A queue, and the jobs of the pushes that have drawn an identifier but not queued it. -/
structure SplitQueue where
  queue : BuildQueue
  drawn : List BuildJob

inductive SplitEvent where
  | draws (job : BuildJob)
  | queues (job : BuildJob) (shouldAnnounce : Bool)
  | call (e : QueueEvent)
  | clears
  | counts (stats : QueueStats)

/-- The queue's methods, each as one step but for `push`, which is two. -/
inductive SplitStep (hashers : Hashers) : SplitQueue → SplitEvent → SplitQueue → Prop where
  | draws (s : SplitQueue) (drvPath : String) (systemFeatures outputs : List String)
      (inputPaths : List InputPath) (timestamp : UInt64) :
      SplitStep hashers s
        (.draws (s.queue.newJob hashers drvPath systemFeatures outputs inputPaths timestamp))
        ⟨{ s.queue with nextJobId := s.queue.nextJobId + 1 },
          s.drawn ++ [s.queue.newJob hashers drvPath systemFeatures outputs inputPaths timestamp]⟩
  | queues (s : SplitQueue) (before after : List BuildJob) (job : BuildJob)
      (drawn : s.drawn = before ++ job :: after) :
      SplitStep hashers s (.queues job (s.queue.queueJob job).2)
        ⟨(s.queue.queueJob job).1, before ++ after⟩
  | call (s : SplitQueue) (e : QueueEvent) (q : BuildQueue) (whole : e.pushed hashers = none)
      (step : QueueStep hashers s.queue e q) : SplitStep hashers s (.call e) { s with queue := q }
  | clears (s : SplitQueue) :
      SplitStep hashers s .clears { s with queue := s.queue.clearNeededFeatures }
  | counts (s : SplitQueue) : SplitStep hashers s (.counts s.queue.stats) s

def SplitEvent.drawn : SplitEvent → Option BuildJob
  | .draws job => some job
  | _ => none

def SplitEvent.queued : SplitEvent → Option BuildJob
  | .queues job _ => some job
  | _ => none

def SplitEvent.finished : SplitEvent → Option JobId
  | .call e => e.finished
  | _ => none

/-- The jobs pushed, in the order of their identifiers, and those reported finished. -/
def splitLedger (h : List SplitEvent) : Ledger :=
  ⟨h.filterMap SplitEvent.drawn, h.filterMap SplitEvent.finished⟩

/-- The queue as if jobs were queued as soon as they are drawn, behind all others. -/
def SplitQueue.whole (s : SplitQueue) : BuildQueue :=
  { s.queue with pending := s.queue.pending ++ s.drawn }

section Split

variable {hashers : Hashers} {ourId : EndpointId}

theorem Accounts.with_features {l : Ledger} {q : BuildQueue} (a : Accounts l q)
    (neededFeatures : Option (List String)) : Accounts l { q with neededFeatures } :=
  a.move rfl a.pending a.leased (fun _ _ => rfl) fun _ => rfl

/-- The jobs may wait in any order. -/
theorem Accounts.reorder {l : Ledger} {q : BuildQueue} (a : Accounts l q) {jobs : List BuildJob}
    (perm : jobs.Perm q.pending) : Accounts l { q with pending := jobs } := by
  refine a.move rfl (fun job hj => a.pending job (perm.mem_iff.mp hj)) a.leased ?_ ?_
  · intro _ j
    simp only [pendingCount, leaseCount, perm.countP_eq]
  · intro _
    simp only [perm.length_eq]

/-- A call but a push sees the jobs that wait in front, and leaves those behind them. -/
theorem whole_call {s : SplitQueue} {e : QueueEvent} {q : BuildQueue} {l : Ledger}
    (a : Accounts l s.whole) (whole : e.pushed hashers = none)
    (step : QueueStep hashers s.queue e q) :
    Accounts (l.record hashers e) { q with pending := q.pending ++ s.drawn } := by
  cases step with
  | push => cases whole
  | pull builder features now =>
    rcases s.queue.pull_cases builder features now with
      ⟨_, hq⟩ | ⟨before, job, after, hp, passed, offered, hq⟩
    · have same : l.record hashers (.pull builder features now none) = l := by
        simp [Ledger.record, QueueEvent.pushed, QueueEvent.finished]
      rw [hq, same]
      exact a
    · have waits : s.whole.pending = before ++ job :: (after ++ s.drawn) := by
        simp [SplitQueue.whole, hp]
      have step : QueueStep hashers _ _ _ := .pull s.whole builder features now
      rw [BuildQueue.pull_first waits passed offered] at step
      simpa [hq, SplitQueue.whole] using a.step step
  | checkTimeouts order now =>
    have step : QueueStep hashers _ _ _ := .checkTimeouts s.whole order now
    rw [BuildQueue.checkTimeouts_eq s.whole order now] at step
    rw [BuildQueue.checkTimeouts_eq s.queue order now, List.append_assoc]
    exact a.step step
  | heartbeat jobId builder status now =>
    have step : QueueStep hashers _ _ _ := .heartbeat s.queue jobId builder status now
    have same : (s.queue.heartbeat jobId builder status now).1.pending = s.queue.pending := by
      rcases s.queue.heartbeat_cases jobId builder status now with ⟨hq, _⟩ | ⟨_, _, _, hq⟩ <;> rw [hq]
    rw [same]
    exact a.step (step.with_pending rfl _)
  | complete jobId builder result =>
    have step : QueueStep hashers _ _ _ := .complete s.queue jobId builder result
    have same : (s.queue.complete jobId builder result).1.pending = s.queue.pending := by
      rcases s.queue.complete_cases jobId builder result with ⟨hq, _⟩ | ⟨_, _, _, hq⟩ <;> rw [hq]
    rw [same]
    exact a.step (step.with_pending rfl _)
  | fail jobId builder error =>
    have step : QueueStep hashers _ _ _ := .fail s.queue jobId builder error
    have same : (s.queue.fail jobId builder error).1.pending = s.queue.pending := by
      rcases s.queue.fail_cases jobId builder error with ⟨hq, _⟩ | ⟨_, _, _, hq⟩ <;> rw [hq]
    rw [same]
    exact a.step (step.with_pending rfl _)
  | takePendingFetches => exact a.step (.takePendingFetches s.whole)
  | broadcastLog jobId data stream => exact a.step (.broadcastLog s.whole jobId data stream)

theorem splitLedger_snoc (h : List SplitEvent) (e : SplitEvent) :
    splitLedger (h ++ [e]) =
      ⟨(splitLedger h).jobs ++ e.drawn.toList, (splitLedger h).finished ++ e.finished.toList⟩ := by
  simp only [splitLedger, filterMap_snoc]

/-- The accounts balance although jobs are queued in another order than they are drawn. -/
theorem split_accounts {h : List SplitEvent} {s : SplitQueue}
    (run : Run (SplitStep hashers) ⟨.new ourId, []⟩ h s) : Accounts (splitLedger h) s.whole := by
  have start : Accounts (splitLedger []) (SplitQueue.mk (.new ourId) []).whole :=
    accounts_new ourId
  refine run.invariant (fun h s => Accounts (splitLedger h) s.whole) start ?_
  intro h s e t _ a step
  rw [splitLedger_snoc]
  cases step with
  | draws drvPath systemFeatures outputs inputPaths timestamp =>
    have pushed := (a.push hashers drvPath systemFeatures outputs inputPaths timestamp).with_features
      s.queue.neededFeatures
    simpa [SplitEvent.drawn, SplitEvent.finished, SplitQueue.whole, BuildQueue.push,
      BuildQueue.newJob, Ledger.submit] using pushed
  | queues before after job drawn =>
    have perm : (s.queue.pending ++ ([job] ++ (before ++ after))).Perm s.whole.pending := by
      have middle : (job :: (before ++ after)).Perm (before ++ job :: after) :=
        List.perm_middle.symm
      simp only [SplitQueue.whole, drawn]
      exact middle.append_left _
    simpa [SplitEvent.drawn, SplitEvent.finished, SplitQueue.whole, BuildQueue.queueJob] using
      (a.reorder perm).with_features _
  | call e q whole step =>
    have recorded := whole_call a whole step
    rw [Ledger.record, whole] at recorded
    exact recorded
  | clears =>
    simpa [SplitEvent.drawn, SplitEvent.finished, SplitQueue.whole, BuildQueue.clearNeededFeatures]
      using a.with_features none
  | counts => simpa [SplitEvent.drawn, SplitEvent.finished] using a

/-- What is drawn is queued, or in hand. -/
theorem split_drawn {h : List SplitEvent} {s : SplitQueue}
    (run : Run (SplitStep hashers) ⟨.new ourId, []⟩ h s) :
    (h.filterMap SplitEvent.queued).length + s.drawn.length = (splitLedger h).jobs.length := by
  refine run.invariant (fun h s => (h.filterMap SplitEvent.queued).length + s.drawn.length =
    (splitLedger h).jobs.length) rfl ?_
  intro h s e t _ ih step
  rw [splitLedger_snoc, filterMap_snoc]
  cases step with
  | draws =>
    simp only [SplitEvent.queued, SplitEvent.drawn, Option.toList, List.append_nil,
      List.length_append, List.length_singleton]
    omega
  | queues before after job drawn =>
    rw [drawn] at ih
    simp only [SplitEvent.queued, SplitEvent.drawn, Option.toList, List.append_nil,
      List.length_append, List.length_nil, List.length_cons] at ih ⊢
    omega
  | call | clears | counts => simpa [SplitEvent.queued, SplitEvent.drawn] using ih

theorem call_splitLedger (h : List SplitEvent) {e : QueueEvent} (whole : e.pushed hashers = none) :
    splitLedger (h ++ [.call e]) = (splitLedger h).record hashers e := by
  rw [splitLedger_snoc, Ledger.record, whole]
  rfl

/-- Calls that are not interleaved are a run in which every job is queued once it is drawn. -/
theorem split_of_run {h : List QueueEvent} {q : BuildQueue} (run : QueueRun hashers ourId h q) :
    ∃ h', Run (SplitStep hashers) ⟨.new ourId, []⟩ h' ⟨q, []⟩ ∧ splitLedger h' = ledger hashers h := by
  induction run with
  | nil => exact ⟨[], .nil, rfl⟩
  | @snoc h q q' e run last ih =>
    obtain ⟨h', run', same⟩ := ih
    cases pushed : e.pushed hashers with
    | none =>
      refine ⟨_, run'.snoc (.call _ e q' pushed last), ?_⟩
      rw [call_splitLedger h' pushed, same, ledger_snoc]
    | some job =>
      cases last with
      | push drvPath systemFeatures outputs inputPaths timestamp =>
        have drawn := run'.snoc (.draws _ drvPath systemFeatures outputs inputPaths timestamp)
        have queued := drawn.snoc (.queues _ [] [] _ rfl)
        refine ⟨_, queued, ?_⟩
        rw [splitLedger_snoc, splitLedger_snoc, same, ledger_snoc, Ledger.record, pushed]
        cases pushed
        simp [SplitEvent.drawn, SplitEvent.finished, QueueEvent.finished, BuildQueue.newJob,
          BuildQueue.push]
      | _ => cases pushed

end Split

/-- A `push` that has queued its job, or a `stats` that has counted, and holds the lock of
`pending` while it waits for another. -/
inductive PendingHold where
  | queuing (before : List BuildJob) (job : BuildJob)
  | counting (n : Nat)

/-- A `check_timeouts`, or a `stats` that has counted, that holds the lock of `leased`. -/
inductive LeasedHold where
  | checking
  | counting (n : Nat)

/-- A queue in the hands of any number of threads: the calls that `LockedQueue` has, the
jobs of the pushes in progress, and the other calls that hold a lock while they wait. -/
structure SharedQueue where
  calls : LockedQueue
  drawn : List BuildJob
  pendingHeld : Option PendingHold
  leasedHeld : Option LeasedHold

def SharedQueue.new (ourId : EndpointId) : SharedQueue :=
  ⟨⟨.new ourId, none, none⟩, [], none, none⟩

/-- The span takes the lock of `pending`. -/
def TakesPending (s t : LockedQueue) : LockEvent → Prop
  | .effect (.pull _ _ _ none) => True
  | .inner => s.pendingHeld = none ∧ t.pendingHeld ≠ none
  | _ => False

/-- The span takes the lock of `leased`. -/
def TakesLeased (s t : LockedQueue) : LockEvent → Prop
  | .effect (.pull _ _ _ (some _)) | .effect (.heartbeat ..) | .effect (.complete _ _ _ false)
  | .effect (.fail _ _ _ false) => True
  | .inner => s.leasedHeld = none ∧ t.leasedHeld ≠ none
  | _ => False

/-- No call holds the lock. -/
def SharedQueue.PendingFree (s : SharedQueue) : Prop :=
  s.calls.pendingHeld = none ∧ s.pendingHeld = none

def SharedQueue.LeasedFree (s : SharedQueue) : Prop :=
  s.calls.leasedHeld = none ∧ s.leasedHeld = none

/-- The methods that change the queue, and `stats`, one span from a lock's acquisition to
the next. A span is seen as the step that takes effect in it. -/
inductive SharedStep (hashers : Hashers) : SharedQueue → Option SplitEvent → SharedQueue → Prop where
  | draws (s : SharedQueue) (drvPath : String) (systemFeatures outputs : List String)
      (inputPaths : List InputPath) (timestamp : UInt64) :
      SharedStep hashers s
        (some (.draws
          (s.calls.queue.newJob hashers drvPath systemFeatures outputs inputPaths timestamp)))
        { s with
          calls := { s.calls with
            queue := { s.calls.queue with nextJobId := s.calls.queue.nextJobId + 1 } }
          drawn := s.drawn ++
            [s.calls.queue.newJob hashers drvPath systemFeatures outputs inputPaths timestamp] }
  | appends (s : SharedQueue) (job : BuildJob) (drawn : job ∈ s.drawn) (free : s.PendingFree) :
      SharedStep hashers s none
        { s with
          calls := { s.calls with
            queue := { s.calls.queue with pending := s.calls.queue.pending ++ [job] } }
          pendingHeld := some (.queuing s.calls.queue.pending job) }
  | announces (s : SharedQueue) (waiting before after : List BuildJob) (job : BuildJob)
      (held : s.pendingHeld = some (.queuing waiting job)) (drawn : s.drawn = before ++ job :: after) :
      SharedStep hashers s
        (some (.queues job (waiting.isEmpty || s.calls.queue.neededFeatures.isNone)))
        { s with
          calls := { s.calls with
            queue := { s.calls.queue with
              neededFeatures := if waiting.isEmpty || s.calls.queue.neededFeatures.isNone
                then some job.systemFeatures else s.calls.queue.neededFeatures } }
          drawn := before ++ after
          pendingHeld := none }
  | call (s : SharedQueue) (e : LockEvent) (t : LockedQueue) (step : CallStep s.calls e t)
      (pendingFree : TakesPending s.calls t e → s.pendingHeld = none)
      (leasedFree : TakesLeased s.calls t e → s.leasedHeld = none) :
      SharedStep hashers s (e.call.map SplitEvent.call) { s with calls := t }
  | timeoutsTakes (s : SharedQueue) (free : s.LeasedFree) :
      SharedStep hashers s none { s with leasedHeld := some .checking }
  | timeoutsReturns (s : SharedQueue) (held : s.leasedHeld = some .checking) (free : s.PendingFree)
      (order : s.calls.queue.leased.Iter) (now : Instant) :
      SharedStep hashers s
        (some (.call (.checkTimeouts now (s.calls.queue.checkTimeouts order now).2)))
        { s with
          calls := { s.calls with queue := (s.calls.queue.checkTimeouts order now).1 }
          leasedHeld := none }
  | takes (s : SharedQueue) :
      SharedStep hashers s
        (some (.call (.takePendingFetches s.calls.queue.takePendingFetches.2)))
        { s with calls := { s.calls with queue := s.calls.queue.takePendingFetches.1 } }
  | clears (s : SharedQueue) :
      SharedStep hashers s (some .clears)
        { s with calls := { s.calls with queue := s.calls.queue.clearNeededFeatures } }
  | countsPending (s : SharedQueue) (free : s.PendingFree) :
      SharedStep hashers s none
        { s with pendingHeld := some (.counting s.calls.queue.pending.length) }
  | countsLeased (s : SharedQueue) (n : Nat) (held : s.pendingHeld = some (.counting n))
      (free : s.LeasedFree) :
      SharedStep hashers s none
        { s with leasedHeld := some (.counting s.calls.queue.leased.len) }
  | countsCompleted (s : SharedQueue) (n m : Nat) (held : s.pendingHeld = some (.counting n))
      (held' : s.leasedHeld = some (.counting m)) :
      SharedStep hashers s (some (.counts ⟨n, m, s.calls.queue.completed.len⟩))
        { s with pendingHeld := none, leasedHeld := none }

abbrev SharedRun (hashers : Hashers) (ourId : EndpointId) :
    List (Option SplitEvent) → SharedQueue → Prop :=
  Run (SharedStep hashers) (SharedQueue.new ourId)

namespace SharedQueue

/-- The jobs that wait, but for the one of a `push` that has not let go. -/
def waiting (s : SharedQueue) : List BuildJob :=
  match s.pendingHeld with
  | some (.queuing waiting _) => waiting
  | some (.counting _) | none => s.calls.allPending

/-- The queue as if every method but `push` were one step. -/
def view (s : SharedQueue) : SplitQueue :=
  ⟨{ s.calls.settled with pending := s.waiting }, s.drawn⟩

/-- A lock has one holder, and what is done or counted under it stays so. -/
structure Kept (s : SharedQueue) : Prop where
  guarded : s.calls.Guarded
  onePending : s.pendingHeld.isSome → s.calls.pendingHeld = none
  oneLeased : s.leasedHeld.isSome → s.calls.leasedHeld = none
  queuing : ∀ waiting job, s.pendingHeld = some (.queuing waiting job) →
    s.calls.queue.pending = waiting ++ [job]
  counted : ∀ n, s.pendingHeld = some (.counting n) → s.calls.queue.pending.length = n
  countedLeased : ∀ n, s.leasedHeld = some (.counting n) → s.calls.queue.leased.len = n

end SharedQueue

section Frames

variable {s t : LockedQueue} {e : LockEvent}

/-- Without the lock of `pending`, the jobs that wait stay as they are. -/
theorem CallStep.pending_frame (step : CallStep s e t) (free : s.pendingHeld = none)
    (apart : ¬ TakesPending s t e) :
    t.queue.pending = s.queue.pending ∧ t.pendingHeld = none ∧
      ∀ call, e.call = some call → leaseCall call = true := by
  cases step with
  | pullNone => exact (apart trivial).elim
  | pullTakes p => exact (apart ⟨free, by simp⟩).elim
  | pullLeases p held =>
    rw [held] at free
    cases free
  | heartbeat jobId builder status now =>
    refine ⟨?_, free, fun _ h => by cases h; rfl⟩
    rcases s.queue.heartbeat_cases jobId builder status now with ⟨hq, _⟩ | ⟨_, _, _, hq⟩ <;> rw [hq]
  | completeRefused jobId builder result q _ refused =>
    exact ⟨by rw [BuildQueue.complete_refused refused], free, fun _ h => by cases h; rfl⟩
  | failRefused jobId builder error q _ refused =>
    exact ⟨by rw [BuildQueue.fail_refused refused], free, fun _ h => by cases h; rfl⟩
  | completeTakes | completeReturns | failTakes => exact ⟨rfl, free, fun _ h => by cases h⟩
  | completeAppends | failReturns | broadcastLog => exact ⟨rfl, free, fun _ h => by cases h; rfl⟩

/-- Without the lock of `leased`, so do the leases. -/
theorem CallStep.leased_frame (step : CallStep s e t) (free : s.leasedHeld = none)
    (apart : ¬ TakesLeased s t e) :
    t.queue.leased = s.queue.leased ∧ t.leasedHeld = none := by
  cases step with
  | pullLeases | heartbeat | completeRefused | failRefused => exact (apart trivial).elim
  | completeTakes | failTakes => exact (apart ⟨free, by simp⟩).elim
  | completeAppends _ _ _ _ held | completeReturns _ _ _ _ held | failReturns _ _ _ _ held =>
    rw [held] at free
    cases free
  | pullNone | pullTakes | broadcastLog => exact ⟨rfl, free⟩

theorem CallStep.whole (step : CallStep s e t) (hashers : Hashers) {call : QueueEvent}
    (seen : e.call = some call) : call.pushed hashers = none := by
  cases step <;> cases seen <;> rfl

theorem settled_with_next (s : LockedQueue) (n : UInt64) :
    ({ s with queue := { s.queue with nextJobId := n } } : LockedQueue).settled =
      { s.settled with nextJobId := n } := by
  cases hs : s.leasedHeld with
  | none => simp only [LockedQueue.settled, hs]
  | some e => cases e <;> simp only [LockedQueue.settled, hs]

theorem settled_with_features (s : LockedQueue) (features : Option (List String)) :
    ({ s with queue := { s.queue with neededFeatures := features } } : LockedQueue).settled =
      { s.settled with neededFeatures := features } := by
  cases hs : s.leasedHeld with
  | none => simp only [LockedQueue.settled, hs]
  | some e => cases e <;> simp only [LockedQueue.settled, hs]

theorem settled_with_pending (s : LockedQueue) (jobs : List BuildJob) :
    ({ s with queue := { s.queue with pending := jobs } } : LockedQueue).settled =
      { s.settled with pending := jobs } := by
  cases hs : s.leasedHeld with
  | none => simp only [LockedQueue.settled, hs]
  | some e => cases e <;> simp only [LockedQueue.settled, hs]

theorem settled_fields (s : LockedQueue) : s.settled.nextJobId = s.queue.nextJobId ∧
    s.settled.neededFeatures = s.queue.neededFeatures := by
  cases hs : s.leasedHeld with
  | none => simp only [LockedQueue.settled, hs, and_self]
  | some e => cases e <;> simp only [LockedQueue.settled, hs, and_self]

end Frames

section Refines

variable {hashers : Hashers} {s t : SharedQueue}

open SharedQueue

theorem SharedQueue.Kept.new (ourId : EndpointId) : (SharedQueue.new ourId).Kept where
  guarded := ⟨by simp [SharedQueue.new], by simp [SharedQueue.new]⟩
  onePending := by simp [SharedQueue.new]
  oneLeased := by simp [SharedQueue.new]
  queuing := by simp [SharedQueue.new]
  counted := by simp [SharedQueue.new]
  countedLeased := by simp [SharedQueue.new]

theorem waiting_free (free : s.PendingFree) : s.waiting = s.calls.queue.pending := by
  simp only [waiting, LockedQueue.allPending, free.1, free.2]

theorem view_free (free : s.PendingFree) (leasedFree : s.calls.leasedHeld = none) :
    s.view = ⟨s.calls.queue, s.drawn⟩ := by
  rw [view, waiting_free free, settled_free leasedFree]

theorem view_announced (s : SharedQueue) (features : Option (List String)) (jobs : List BuildJob)
    (free : s.calls.pendingHeld = none) :
    ({ s with
        calls := { s.calls with queue := { s.calls.queue with neededFeatures := features } }
        drawn := jobs
        pendingHeld := none } : SharedQueue).view =
      ⟨{ s.calls.settled with neededFeatures := features, pending := s.calls.queue.pending },
        jobs⟩ := by
  rw [view, settled_with_features]
  simp only [waiting, LockedQueue.allPending, free]

theorem call_kept (kept : s.Kept) {e : LockEvent} {calls : LockedQueue}
    (step : CallStep s.calls e calls)
    (pendingFree : TakesPending s.calls calls e → s.pendingHeld = none)
    (leasedFree : TakesLeased s.calls calls e → s.leasedHeld = none) :
    ({ s with calls } : SharedQueue).Kept := by
  have guarded := (call_refines zeroHashers kept.guarded step).1
  have pendingFrame : s.pendingHeld.isSome →
      calls.queue.pending = s.calls.queue.pending ∧ calls.pendingHeld = none := by
    intro held
    have apart : ¬ TakesPending s.calls calls e := fun takes => by simp [pendingFree takes] at held
    obtain ⟨same, free, _⟩ := step.pending_frame (kept.onePending held) apart
    exact ⟨same, free⟩
  have leasedFrame : s.leasedHeld.isSome →
      calls.queue.leased = s.calls.queue.leased ∧ calls.leasedHeld = none := by
    intro held
    have apart : ¬ TakesLeased s.calls calls e := fun takes => by simp [leasedFree takes] at held
    exact step.leased_frame (kept.oneLeased held) apart
  refine ⟨guarded, fun held => (pendingFrame held).2, fun held => (leasedFrame held).2, ?_, ?_, ?_⟩
  · intro waiting job held
    exact (pendingFrame (Option.isSome_iff_exists.mpr ⟨_, held⟩)).1.trans (kept.queuing waiting job held)
  · intro n held
    rw [(pendingFrame (Option.isSome_iff_exists.mpr ⟨_, held⟩)).1]
    exact kept.counted n held
  · intro n held
    rw [(leasedFrame (Option.isSome_iff_exists.mpr ⟨_, held⟩)).1]
    exact kept.countedLeased n held

/-- A span of a call that `LockedQueue` has is seen as it is there. -/
theorem call_view (kept : s.Kept) {e : LockEvent} {calls : LockedQueue}
    (step : CallStep s.calls e calls)
    (pendingFree : TakesPending s.calls calls e → s.pendingHeld = none) :
    (e.call = none ∧ ({ s with calls } : SharedQueue).view = s.view) ∨
      ∃ call, e.call = some call ∧ SplitStep hashers s.view (.call call)
        ({ s with calls } : SharedQueue).view := by
  have refined := (call_refines hashers kept.guarded step).2
  by_cases held : s.pendingHeld = none
  · have view : s.view = ⟨s.calls.atomic, s.drawn⟩ := by
      simp only [SharedQueue.view, waiting, held, LockedQueue.atomic]
    have view' : ({ s with calls } : SharedQueue).view = ⟨calls.atomic, s.drawn⟩ := by
      simp only [SharedQueue.view, waiting, held, LockedQueue.atomic]
    rw [view, view']
    rcases refined with ⟨hidden, same⟩ | ⟨call, seen, step'⟩
    · exact .inl ⟨hidden, by rw [same]⟩
    · exact .inr ⟨call, seen, .call _ call _ (step.whole hashers seen) step'⟩
  · have isHeld : s.pendingHeld.isSome := Option.isSome_iff_ne_none.mpr held
    have apart : ¬ TakesPending s.calls calls e := fun takes => held (pendingFree takes)
    obtain ⟨same, free, onLeases⟩ := step.pending_frame (kept.onePending isHeld) apart
    have waits : ({ s with calls } : SharedQueue).waiting = s.waiting := by
      simp only [waiting, LockedQueue.allPending, free, kept.onePending isHeld, same]
    rcases refined with ⟨hidden, same'⟩ | ⟨call, seen, step'⟩
    · refine .inl ⟨hidden, ?_⟩
      have settled := congrArg
        (fun q : BuildQueue => SplitQueue.mk { q with pending := s.waiting } s.drawn) same'
      simp only [SharedQueue.view, waits]
      simpa only [LockedQueue.atomic] using settled
    · refine .inr ⟨call, seen, ?_⟩
      have step'' := step'.with_pending (onLeases call seen) s.waiting
      have stepped : SplitStep hashers s.view (.call call)
          { s.view with queue := { calls.atomic with pending := s.waiting } } :=
        .call s.view call _ (step.whole hashers seen) step''
      simpa only [SharedQueue.view, waits, LockedQueue.atomic] using stepped

/-- Counts are of the queue as it is when the last of them is taken. -/
theorem counts_view (kept : s.Kept) {n m : Nat} (held : s.pendingHeld = some (.counting n))
    (held' : s.leasedHeld = some (.counting m)) :
    s.view.queue.stats = ⟨n, m, s.calls.queue.completed.len⟩ := by
  have pendingFree : s.calls.pendingHeld = none :=
    kept.onePending (Option.isSome_iff_exists.mpr ⟨_, held⟩)
  have leasedFree : s.calls.leasedHeld = none :=
    kept.oneLeased (Option.isSome_iff_exists.mpr ⟨_, held'⟩)
  have counted := kept.counted n held
  have countedLeased := kept.countedLeased m held'
  simp only [BuildQueue.stats, view, waiting, held, LockedQueue.allPending, pendingFree,
    settled_free leasedFree, counted, countedLeased]

theorem timeouts_refines (hashers : Hashers) (kept : s.Kept) (held : s.leasedHeld = some .checking)
    (free : s.PendingFree) (order : s.calls.queue.leased.Iter) (now : Instant) :
    SplitStep hashers s.view
      (.call (.checkTimeouts now (s.calls.queue.checkTimeouts order now).2))
      ({ s with
          calls := { s.calls with queue := (s.calls.queue.checkTimeouts order now).1 }
          leasedHeld := none } : SharedQueue).view := by
  have leasedFree : s.calls.leasedHeld = none :=
    kept.oneLeased (Option.isSome_iff_exists.mpr ⟨_, held⟩)
  have after : ({ s with
      calls := { s.calls with queue := (s.calls.queue.checkTimeouts order now).1 }
      leasedHeld := none } : SharedQueue).view =
        ⟨(s.calls.queue.checkTimeouts order now).1, s.drawn⟩ := view_free free leasedFree
  rw [after, view_free free leasedFree]
  exact .call _ _ _ rfl (.checkTimeouts s.calls.queue order now)

theorem draws_refines (hashers : Hashers) (s : SharedQueue) (drvPath : String)
    (systemFeatures outputs : List String) (inputPaths : List InputPath) (timestamp : UInt64) :
    SplitStep hashers s.view
      (.draws (s.calls.queue.newJob hashers drvPath systemFeatures outputs inputPaths timestamp))
      ⟨{ s.calls.settled with
          nextJobId := s.calls.queue.nextJobId + 1
          pending := s.waiting },
        s.drawn ++
          [s.calls.queue.newJob hashers drvPath systemFeatures outputs inputPaths timestamp]⟩ := by
  have next : s.view.queue.nextJobId = s.calls.queue.nextJobId := (settled_fields s.calls).1
  have same : s.view.queue.newJob hashers drvPath systemFeatures outputs inputPaths timestamp =
      s.calls.queue.newJob hashers drvPath systemFeatures outputs inputPaths timestamp := by
    simp only [BuildQueue.newJob, next]
  have step : SplitStep hashers _ _ _ :=
    .draws s.view drvPath systemFeatures outputs inputPaths timestamp
  rw [same, next] at step
  exact step

theorem announces_refines (hashers : Hashers) {waiting before after : List BuildJob}
    {job : BuildJob} (held : s.pendingHeld = some (.queuing waiting job))
    (drawn : s.drawn = before ++ job :: after) :
    SplitStep hashers s.view
      (.queues job (waiting.isEmpty || s.calls.queue.neededFeatures.isNone))
      ⟨{ s.calls.settled with
          neededFeatures := if waiting.isEmpty || s.calls.queue.neededFeatures.isNone
            then some job.systemFeatures else s.calls.queue.neededFeatures
          pending := waiting ++ [job] },
        before ++ after⟩ := by
  have needed : s.view.queue.neededFeatures = s.calls.queue.neededFeatures :=
    (settled_fields s.calls).2
  have pending : s.view.queue.pending = waiting := by
    simp only [view, SharedQueue.waiting, held]
  have step : SplitStep hashers _ _ _ := .queues s.view before after job drawn
  rw [BuildQueue.queueJob, needed, pending] at step
  exact step

theorem takes_refines (hashers : Hashers) (kept : s.Kept) :
    ({ s with calls := { s.calls with queue := s.calls.queue.takePendingFetches.1 } }
      : SharedQueue).Kept ∧
    SplitStep hashers s.view (.call (.takePendingFetches s.calls.queue.takePendingFetches.2))
      ({ s with calls := { s.calls with queue := s.calls.queue.takePendingFetches.1 } }
        : SharedQueue).view := by
  obtain ⟨guarded, taken⟩ := take_refines hashers kept.guarded
  refine ⟨⟨guarded, kept.onePending, kept.oneLeased, kept.queuing, kept.counted,
    kept.countedLeased⟩, ?_⟩
  rcases taken with ⟨hidden, _⟩ | ⟨call, seen, step⟩
  · cases hidden
  · cases seen
    exact .call s.view _ _ rfl (step.with_pending rfl s.waiting)

/-- Locks are as good as methods of one step each, and pushes of two. -/
theorem shared_refines (kept : s.Kept) {e : Option SplitEvent} (step : SharedStep hashers s e t) :
    t.Kept ∧ ((e = none ∧ t.view = s.view) ∨
      ∃ e', e = some e' ∧ SplitStep hashers s.view e' t.view) := by
  cases step with
  | draws drvPath systemFeatures outputs inputPaths timestamp =>
    refine ⟨⟨⟨kept.guarded.pulling, kept.guarded.ending⟩, kept.onePending, kept.oneLeased,
      kept.queuing, kept.counted, kept.countedLeased⟩, .inr ⟨_, rfl, ?_⟩⟩
    have step := draws_refines hashers s drvPath systemFeatures outputs inputPaths timestamp
    simp only [view, settled_with_next]
    exact step
  | appends job drawn free =>
    refine ⟨⟨⟨?_, fun e h => ?_⟩, fun _ => free.1, kept.oneLeased, ?_, ?_, kept.countedLeased⟩,
      .inl ⟨rfl, ?_⟩⟩
    · intro p held
      cases free.1.symm.trans held
    · have took := kept.guarded.ending e h
      cases e <;> exact took
    · intro waiting job' h
      cases h
      rfl
    · intro n h
      cases h
    · simp only [view, settled_with_pending, waiting_free free]
      rfl
  | announces waiting before after job held drawn =>
    have queued := kept.queuing waiting job held
    have free := kept.onePending (Option.isSome_iff_exists.mpr ⟨_, held⟩)
    refine ⟨⟨⟨kept.guarded.pulling, kept.guarded.ending⟩, by simp, kept.oneLeased, by simp, by simp,
      kept.countedLeased⟩, .inr ⟨_, rfl, ?_⟩⟩
    rw [view_announced s _ _ free, queued]
    exact announces_refines hashers held drawn
  | call e calls step pendingFree leasedFree =>
    refine ⟨call_kept kept step pendingFree leasedFree, ?_⟩
    rcases call_view kept step pendingFree with ⟨hidden, same⟩ | ⟨call, seen, step'⟩
    · exact .inl ⟨by rw [hidden]; rfl, same⟩
    · exact .inr ⟨_, by rw [seen]; rfl, step'⟩
  | timeoutsTakes free =>
    refine ⟨⟨kept.guarded, kept.onePending, fun _ => free.1, kept.queuing, kept.counted, ?_⟩,
      .inl ⟨rfl, rfl⟩⟩
    intro n h
    cases h
  | timeoutsReturns held free order now =>
    have leasedFree : s.calls.leasedHeld = none :=
      kept.oneLeased (Option.isSome_iff_exists.mpr ⟨_, held⟩)
    refine ⟨⟨⟨?_, ?_⟩, fun _ => free.1, by simp, ?_, ?_, by simp⟩,
      .inr ⟨_, rfl, timeouts_refines hashers kept held free order now⟩⟩
    · intro p h
      cases free.1.symm.trans h
    · intro e h
      cases leasedFree.symm.trans h
    · intro waiting job h
      cases free.2.symm.trans h
    · intro n h
      cases free.2.symm.trans h
  | takes =>
    obtain ⟨kept', step⟩ := takes_refines hashers kept
    exact ⟨kept', .inr ⟨_, rfl, step⟩⟩
  | clears =>
    refine ⟨⟨⟨kept.guarded.pulling, kept.guarded.ending⟩, kept.onePending, kept.oneLeased,
      kept.queuing, kept.counted, kept.countedLeased⟩, .inr ⟨_, rfl, ?_⟩⟩
    simp only [view, BuildQueue.clearNeededFeatures, settled_with_features]
    exact .clears s.view
  | countsPending free =>
    refine ⟨⟨kept.guarded, fun _ => free.1, kept.oneLeased, ?_, ?_, kept.countedLeased⟩,
      .inl ⟨rfl, ?_⟩⟩
    · intro waiting job h
      cases h
    · intro n h
      cases h
      rfl
    · simp only [view, waiting, free.2]
  | countsLeased n held free =>
    refine ⟨⟨kept.guarded, kept.onePending, fun _ => free.1, kept.queuing, kept.counted, ?_⟩,
      .inl ⟨rfl, rfl⟩⟩
    intro n h
    cases h
    rfl
  | countsCompleted n m held held' =>
    refine ⟨⟨kept.guarded, by simp, by simp, by simp, by simp, by simp⟩, .inr ⟨_, rfl, ?_⟩⟩
    have same : ({ s with pendingHeld := none, leasedHeld := none } : SharedQueue).view = s.view := by
      simp only [view, waiting, held]
    rw [same, ← counts_view kept held held']
    exact .counts s.view

/-- What any number of threads do is what methods of one step each do, and pushes of two. -/
theorem shared_run {ourId : EndpointId} {h : List (Option SplitEvent)}
    (run : SharedRun hashers ourId h s) :
    s.Kept ∧ Run (SplitStep hashers) ⟨.new ourId, []⟩ (h.filterMap id) s.view := by
  have kept : ∀ {h s}, SharedRun hashers ourId h s → s.Kept := fun run =>
    run.invariant (fun _ s => s.Kept) (.new ourId) fun _ _ _ _ _ kept step =>
      (shared_refines kept step).1
  exact ⟨kept run, run.simulates view id rfl fun _ _ _ _ before step =>
    (shared_refines (kept before) step).2⟩

end Refines

/-- The places an identifier is in: in the hands of its push, waiting, leased, finished. -/
def SharedQueue.places (s : SharedQueue) (finished : List JobId) (j : JobId) : Nat :=
  s.drawn.countP (fun job => job.id == j) + pendingCount s.view.queue j + leaseCount s.view.queue j +
    finished.count j

/-- No job is lost or duplicated by threads, and what `build_push` prints of a count of
the jobs queued so far is the number of those finished. -/
structure ThreadsConserve (h : List SplitEvent) (s : SharedQueue) : Prop where
  distinct : ((splitLedger h).jobs.map BuildJob.id).Nodup
  placed : ∀ job ∈ (splitLedger h).jobs, s.places (splitLedger h).finished job.id = 1
  known : ∀ j, (∀ job ∈ (splitLedger h).jobs, job.id ≠ j) → s.places (splitLedger h).finished j = 0
  leased : ∀ j lease, s.view.queue.leased.get? j = some lease →
    lease.job ∈ (splitLedger h).jobs ∧ lease.job.id = j
  progress : ∀ before stats after, h = before ++ .counts stats :: after →
    buildProgress (before.filterMap SplitEvent.queued).length stats =
      some (splitLedger before).finished.length

section Conserve

variable {hashers : Hashers} {ourId : EndpointId} {h : List SplitEvent} {s : SplitQueue}

theorem split_progress (run : Run (SplitStep hashers) ⟨.new ourId, []⟩ h s)
    (few : (splitLedger h).jobs.length < 2 ^ 64) {before after : List SplitEvent}
    {stats : QueueStats} (parts : h = before ++ .counts stats :: after) :
    buildProgress (before.filterMap SplitEvent.queued).length stats =
      some (splitLedger before).finished.length := by
  obtain ⟨t, t', earlier, step⟩ := run.split parts
  have fewer : (splitLedger before).jobs.length < 2 ^ 64 := by
    simp only [parts, splitLedger, List.filterMap_append, List.length_append] at few ⊢
    omega
  have total := (split_accounts earlier).total fewer
  have drawn := split_drawn earlier
  cases step with
  | counts =>
    apply build_progress_some
    simp only [SplitQueue.whole, List.length_append] at total
    simp only [BuildQueue.stats]
    omega

end Conserve

/-- Any number of threads may call the methods, their spans in any order. -/
theorem threads_conserve (hashers : Hashers) (ourId : EndpointId) (h : List (Option SplitEvent))
    (s : SharedQueue) (run : SharedRun hashers ourId h s)
    (few : (splitLedger (h.filterMap id)).jobs.length < 2 ^ 64) :
    ThreadsConserve (h.filterMap id) s := by
  obtain ⟨_, split⟩ := shared_run run
  have accounts := split_accounts split
  have balance : ∀ j, s.places (splitLedger (h.filterMap id)).finished j =
      (splitLedger (h.filterMap id)).jobCount j := by
    intro j
    have sum := accounts.balance few j
    simp only [pendingCount, leaseCount, SplitQueue.whole, List.countP_append] at sum
    simp only [SharedQueue.places, pendingCount, leaseCount]
    have drawn : s.view.drawn = s.drawn := rfl
    rw [drawn] at sum
    omega
  refine ⟨accounts.ids_nodup few, ?_, ?_, accounts.leased, ?_⟩
  · intro job hj
    rw [balance, accounts.jobCount_eq_one few hj]
  · intro j absent
    rw [balance, Ledger.jobCount, List.countP_eq_zero]
    intro job hj
    simpa using absent job hj
  · intro before stats after parts
    exact split_progress split few parts

/-- The second of two pushes queues its job first, and `stats` is called in between. -/
theorem crossed_pushes_conserved : ∃ h s, SharedRun zeroHashers ⟨zeroBytes32⟩ h s ∧
    (h.filterMap id).filterMap SplitEvent.queued ≠ (splitLedger (h.filterMap id)).jobs ∧
      ThreadsConserve (h.filterMap id) s := by
  have start : SharedRun zeroHashers ⟨zeroBytes32⟩ [] (.new ⟨zeroBytes32⟩) := .nil
  have drawn := (start.snoc (.draws _ "/nix/store/a.drv" ["kvm"] [] [] 0)).snoc
    (.draws _ "/nix/store/b.drv" [] [] [] 0)
  have queued := (drawn.snoc (.appends _ _ (List.mem_append_right _ List.mem_cons_self)
    ⟨rfl, rfl⟩)).snoc (.announces _ _ [_] [] _ rfl rfl)
  have counted := ((queued.snoc (.countsPending _ ⟨rfl, rfl⟩)).snoc
    (.countsLeased _ _ rfl ⟨rfl, rfl⟩)).snoc (.countsCompleted _ _ _ rfl rfl)
  refine ⟨_, _, counted, fun same => ?_,
    threads_conserve zeroHashers ⟨zeroBytes32⟩ _ _ counted (by decide)⟩
  have lengths : 1 = 2 := congrArg List.length same
  omega

end IrohNix.Build
