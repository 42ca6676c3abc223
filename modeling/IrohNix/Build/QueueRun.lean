import IrohNix.Build.QueueSpec
import IrohNix.Lib.Runs

namespace IrohNix.Build
open IrohNix.Lib

/-- One call on a `BuildQueue`, with its arguments, the clock readings it makes
and what it returns. -/
inductive QueueEvent where
  | push (drvPath : String) (systemFeatures outputs : List String) (inputPaths : List InputPath)
      (timestamp : UInt64) (jobId : JobId) (shouldAnnounce : Bool)
  | pull (builder : EndpointId) (features : List String) (now : Instant) (job : Option BuildJob)
  | heartbeat (jobId : JobId) (builder : EndpointId) (status : String) (now : Instant)
      (accepted : Bool)
  | complete (jobId : JobId) (builder : EndpointId) (result : BuildResult) (accepted : Bool)
  | fail (jobId : JobId) (builder : EndpointId) (error : String) (accepted : Bool)
  | checkTimeouts (now : Instant) (timedOut : List JobId)
  | takePendingFetches (taken : List BuildResult)
  | broadcastLog (jobId : UInt64) (data : Bytes) (stream : UInt8)

/-- The calls of the queue, each as one step. `check_timeouts` may visit the
leases in any order. -/
inductive QueueStep (hashers : Hashers) : BuildQueue → QueueEvent → BuildQueue → Prop where
  | push (q : BuildQueue) (drvPath : String) (systemFeatures outputs : List String)
      (inputPaths : List InputPath) (timestamp : UInt64) :
      QueueStep hashers q
        (.push drvPath systemFeatures outputs inputPaths timestamp
          (q.push hashers drvPath systemFeatures outputs inputPaths timestamp).2.1
          (q.push hashers drvPath systemFeatures outputs inputPaths timestamp).2.2)
        (q.push hashers drvPath systemFeatures outputs inputPaths timestamp).1
  | pull (q : BuildQueue) (builder : EndpointId) (features : List String) (now : Instant) :
      QueueStep hashers q (.pull builder features now (q.pull builder features now).2)
        (q.pull builder features now).1
  | heartbeat (q : BuildQueue) (jobId : JobId) (builder : EndpointId) (status : String)
      (now : Instant) :
      QueueStep hashers q
        (.heartbeat jobId builder status now (q.heartbeat jobId builder status now).2)
        (q.heartbeat jobId builder status now).1
  | complete (q : BuildQueue) (jobId : JobId) (builder : EndpointId) (result : BuildResult) :
      QueueStep hashers q (.complete jobId builder result (q.complete jobId builder result).2)
        (q.complete jobId builder result).1
  | fail (q : BuildQueue) (jobId : JobId) (builder : EndpointId) (error : String) :
      QueueStep hashers q (.fail jobId builder error (q.fail jobId builder error).2)
        (q.fail jobId builder error).1
  | checkTimeouts (q : BuildQueue) (order : q.leased.Iter) (now : Instant) :
      QueueStep hashers q (.checkTimeouts now (q.checkTimeouts order now).2)
        (q.checkTimeouts order now).1
  | takePendingFetches (q : BuildQueue) :
      QueueStep hashers q (.takePendingFetches q.takePendingFetches.2) q.takePendingFetches.1
  | broadcastLog (q : BuildQueue) (jobId : UInt64) (data : Bytes) (stream : UInt8) :
      QueueStep hashers q (.broadcastLog jobId data stream) (q.broadcastLog jobId data stream)

/-- Any calls, by anyone, in any order, on a new queue. -/
abbrev QueueRun (hashers : Hashers) (ourId : EndpointId) : List QueueEvent → BuildQueue → Prop :=
  Run (QueueStep hashers) (BuildQueue.new ourId)

/-- The job a push submits, under the identifier the push returned. -/
def QueueEvent.pushed (hashers : Hashers) : QueueEvent → Option BuildJob
  | .push drvPath systemFeatures outputs inputPaths timestamp jobId _ =>
    some ⟨jobId, DrvHash.fromDrvPath hashers drvPath, drvPath, systemFeatures, outputs, inputPaths,
      timestamp⟩
  | _ => none

/-- The job finished by a `complete` or `fail` call that returned true. -/
def QueueEvent.finished : QueueEvent → Option JobId
  | .complete jobId _ _ true | .fail jobId _ _ true => some jobId
  | _ => none

/-- What the outside of the queue knows: the jobs pushed, in order, and the jobs
reported finished, in order. -/
structure Ledger where
  jobs : List BuildJob
  finished : List JobId

/-- The jobs reported finished, once for each accepted report. -/
def finishedJobs (h : List QueueEvent) : List JobId := h.filterMap QueueEvent.finished

def ledger (hashers : Hashers) (h : List QueueEvent) : Ledger :=
  ⟨h.filterMap (QueueEvent.pushed hashers), finishedJobs h⟩

def Ledger.submit (l : Ledger) (job : BuildJob) : Ledger := { l with jobs := l.jobs ++ [job] }

def Ledger.finish (l : Ledger) (jobId : JobId) : Ledger :=
  { l with finished := l.finished ++ [jobId] }

/-- The ledger after one more call. -/
def Ledger.record (hashers : Hashers) (l : Ledger) (e : QueueEvent) : Ledger :=
  ⟨l.jobs ++ (e.pushed hashers).toList, l.finished ++ e.finished.toList⟩

theorem finishedJobs_snoc (h : List QueueEvent) (e : QueueEvent) :
    finishedJobs (h ++ [e]) = finishedJobs h ++ e.finished.toList := filterMap_snoc _ h e

theorem ledger_snoc (hashers : Hashers) (h : List QueueEvent) (e : QueueEvent) :
    ledger hashers (h ++ [e]) = (ledger hashers h).record hashers e := by
  rw [ledger, Ledger.record, finishedJobs_snoc, filterMap_snoc]
  rfl

theorem mem_finishedJobs {h : List QueueEvent} {j : JobId} :
    j ∈ finishedJobs h ↔
      (∃ builder result, .complete j builder result true ∈ h) ∨
        ∃ builder error, .fail j builder error true ∈ h := by
  simp only [finishedJobs, List.mem_filterMap]
  constructor
  · intro h
    obtain ⟨e, he, hj⟩ := h
    cases e with
    | complete jobId builder result accepted =>
      cases accepted <;> simp only [QueueEvent.finished, reduceCtorEq, Option.some.injEq] at hj
      exact .inl ⟨builder, result, hj ▸ he⟩
    | fail jobId builder error accepted =>
      cases accepted <;> simp only [QueueEvent.finished, reduceCtorEq, Option.some.injEq] at hj
      exact .inr ⟨builder, error, hj ▸ he⟩
    | push | pull | heartbeat | checkTimeouts | takePendingFetches | broadcastLog =>
      simp [QueueEvent.finished] at hj
  · intro h
    rcases h with ⟨builder, result, he⟩ | ⟨builder, error, he⟩
    · exact ⟨_, he, rfl⟩
    · exact ⟨_, he, rfl⟩

/-- A job reported both completed and failed was finished twice. -/
theorem finished_twice {h : List QueueEvent} {j : JobId} {builder builder' : EndpointId}
    {result : BuildResult} {error : String} (hc : .complete j builder result true ∈ h)
    (hf : .fail j builder' error true ∈ h) : 2 ≤ (finishedJobs h).count j :=
  two_le_count_filterMap hc hf (by simp) rfl rfl

section LifeCycle

def sampleJob : BuildJob :=
  ⟨⟨1⟩, ⟨zeroBytes32⟩, "/nix/store/a.drv", ["kvm"], ["/nix/store/a"], [], 0⟩

def sampleResult : BuildResult := ⟨⟨1⟩, ⟨zeroBytes32⟩, zeroBytes32, [], zeroBytes32, zeroBytes32⟩

/-- One job submitted, leased and completed. -/
def lifeCycle : List QueueEvent :=
  [.push "/nix/store/a.drv" ["kvm"] ["/nix/store/a"] [] 0 ⟨1⟩ true,
    .pull ⟨zeroBytes32⟩ ["kvm"] 5 (some sampleJob), .complete ⟨1⟩ ⟨zeroBytes32⟩ sampleResult true]

theorem life_cycle_run : ∃ q, QueueRun zeroHashers ⟨zeroBytes32⟩ lifeCycle q := by
  have start : QueueRun zeroHashers ⟨zeroBytes32⟩ [] _ := .nil
  have run := ((start.snoc (.push _ "/nix/store/a.drv" ["kvm"] ["/nix/store/a"] [] 0)).snoc
    (.pull _ ⟨zeroBytes32⟩ ["kvm"] 5)).snoc (.complete _ ⟨1⟩ ⟨zeroBytes32⟩ sampleResult)
  exact ⟨_, run⟩

end LifeCycle

end IrohNix.Build
