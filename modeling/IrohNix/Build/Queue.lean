import IrohNix.Build.Job
import IrohNix.Lib.Bytes
import IrohNix.Lib.HashMap

namespace IrohNix.Build
open IrohNix.Lib

/-- The requester's queue: the contents of the mutexes of `BuildQueue`. -/
structure BuildQueue where
  ourId : EndpointId
  nextJobId : UInt64
  pending : List BuildJob
  leased : HashMap JobId LeasedJob
  completed : HashMap DrvHash JobOutcome
  pendingFetch : List BuildResult
  neededFeatures : Option (List String)
  logSubscribers : HashMap UInt64 (List LogSender)

structure QueueStats where
  pendingCount : Nat
  leasedCount : Nat
  completedCount : Nat

/-- Whether a builder offers every system feature a job requires. -/
def BuildJob.offeredBy (job : BuildJob) (builderFeatures : List String) : Bool :=
  job.systemFeatures.all (fun required => builderFeatures.contains required)

/-- The sender's non-blocking send: `none` when it fails, full or closed. -/
def LogSender.trySend (tx : LogSender) (entry : LogEntry) : Option LogSender :=
  if !tx.receiving then none
  else if 256 ≤ tx.buffered.length then none
  else some { tx with buffered := tx.buffered ++ [entry] }

namespace BuildQueue

def new (ourId : EndpointId) : BuildQueue :=
  { ourId, nextJobId := 1, pending := [], leased := ∅, completed := ∅, pendingFetch := [],
    neededFeatures := none, logSubscribers := ∅ }

/-- The job `push` queues, under the identifier it draws. -/
def newJob (hashers : Hashers) (q : BuildQueue) (drvPath : String)
    (systemFeatures outputs : List String) (inputPaths : List InputPath)
    (timestamp : UInt64) : BuildJob :=
  { id := ⟨q.nextJobId⟩, drvHash := DrvHash.fromDrvPath hashers drvPath, drvPath, systemFeatures,
    outputs, inputPaths, submittedAt := timestamp }

/-- The counter is a `u64` whose `+= 1` wraps, as a release build compiles it. -/
def push (hashers : Hashers) (q : BuildQueue) (drvPath : String)
    (systemFeatures outputs : List String) (inputPaths : List InputPath)
    (timestamp : UInt64) : BuildQueue × JobId × Bool :=
  let job := q.newJob hashers drvPath systemFeatures outputs inputPaths timestamp
  let wasEmpty := q.pending.isEmpty
  let shouldAnnounce := wasEmpty || q.neededFeatures.isNone
  ({ q with
      nextJobId := q.nextJobId + 1
      pending := q.pending ++ [job]
      neededFeatures := if shouldAnnounce then some systemFeatures else q.neededFeatures },
    job.id, shouldAnnounce)

def pull (q : BuildQueue) (builder : EndpointId) (builderFeatures : List String)
    (now : Instant) : BuildQueue × Option BuildJob :=
  match q.pending.findIdx? (fun job => job.offeredBy builderFeatures) with
  | none => (q, none)
  | some jobIndex =>
    match q.pending[jobIndex]? with
    | none => (q, none)
    | some job =>
      let leasedJob : LeasedJob :=
        { job, builder, leasedAt := now, lastHeartbeat := now, status := "starting" }
      ({ q with
          pending := q.pending.eraseIdx jobIndex
          leased := q.leased.insert job.id leasedJob },
        some job)

def heartbeat (q : BuildQueue) (jobId : JobId) (builder : EndpointId) (status : String)
    (now : Instant) : BuildQueue × Bool :=
  match q.leased.get? jobId with
  | none => (q, false)
  | some job =>
    if job.builder = builder then
      ({ q with leased := q.leased.insert jobId { job with lastHeartbeat := now, status } }, true)
    else (q, false)

def complete (q : BuildQueue) (jobId : JobId) (builder : EndpointId) (result : BuildResult) :
    BuildQueue × Bool :=
  match q.leased.get? jobId with
  | none => (q, false)
  | some job =>
    let leased := q.leased.erase jobId
    if job.builder = builder then
      ({ q with
          leased
          pendingFetch := q.pendingFetch ++ [result]
          completed := q.completed.insert job.job.drvHash (.completed result) },
        true)
    else
      -- wrong builder, put it back
      ({ q with leased := leased.insert jobId job }, false)

def fail (q : BuildQueue) (jobId : JobId) (builder : EndpointId) (error : String) :
    BuildQueue × Bool :=
  match q.leased.get? jobId with
  | none => (q, false)
  | some job =>
    let leased := q.leased.erase jobId
    if job.builder = builder then
      ({ q with
          leased
          completed := q.completed.insert job.job.drvHash (.failed builder error) },
        true)
    else ({ q with leased := leased.insert jobId job }, false)

/-- The body of `check_timeouts`'s `retain` at one lease, with the jobs reported
so far. `duration_since` saturates at zero. -/
def visitLease (now : Instant) (acc : BuildQueue × List JobId) (lease : JobId × LeasedJob) :
    BuildQueue × List JobId :=
  let (q, timedOut) := acc
  let (jobId, leasedJob) := lease
  if jobLeaseTimeout < now - leasedJob.lastHeartbeat then
    ({ q with
        pending := leasedJob.job :: q.pending
        leased := q.leased.erase jobId },
      timedOut ++ [jobId])
  else (q, timedOut)

def checkTimeouts (q : BuildQueue) (order : q.leased.Iter) (now : Instant) :
    BuildQueue × List JobId :=
  order.items.foldl (visitLease now) (q, [])

def hasPendingWork (q : BuildQueue) : Bool := !q.pending.isEmpty

def clearNeededFeatures (q : BuildQueue) : BuildQueue := { q with neededFeatures := none }

def stats (q : BuildQueue) : QueueStats :=
  { pendingCount := q.pending.length, leasedCount := q.leased.len,
    completedCount := q.completed.len }

def getOutcome (q : BuildQueue) (drvHash : DrvHash) : Option JobOutcome :=
  q.completed.get? drvHash

def listPending (q : BuildQueue) : List BuildJob := q.pending

def listLeased (q : BuildQueue) (order : q.leased.Iter) : List (JobId × LeasedJob) := order.items

def takePendingFetches (q : BuildQueue) : BuildQueue × List BuildResult :=
  ({ q with pendingFetch := [] }, q.pendingFetch)

def hasPendingFetches (q : BuildQueue) : Bool := !q.pendingFetch.isEmpty

/-- `retain(try_send(..).is_ok())` on the senders registered under one key. -/
def sendTo (subs : HashMap UInt64 (List LogSender)) (key : UInt64) (entry : LogEntry) :
    HashMap UInt64 (List LogSender) :=
  match subs.get? key with
  | none => subs
  | some subscribers => subs.insert key (subscribers.filterMap (fun tx => tx.trySend entry))

def broadcastLog (q : BuildQueue) (jobId : UInt64) (data : Bytes) (stream : UInt8) : BuildQueue :=
  let entry : LogEntry := { jobId, data, stream }
  -- key 0 is the wildcard of `subscribe_all_logs`
  { q with logSubscribers := sendTo (sendTo q.logSubscribers jobId entry) 0 entry }

end BuildQueue

end IrohNix.Build
