import IrohNix.Builder.WorkerSpec

namespace IrohNix.Builder
open IrohNix.Lib IrohNix.Build

/-- The job a request names. -/
def BuildQueueRequest.jobId : BuildQueueRequest → Option JobId
  | .pull .. => none
  | .heartbeat jobId _ | .buildLog jobId _ _ | .complete jobId _ _ _ | .fail jobId _ => some ⟨jobId⟩

/-- The builder holds the lease of the job, and outside this lease, the outcome of the
job's derivation and the pending fetches the queue is as before. -/
structure TouchesOnly (builder : EndpointId) (jobId : JobId) (lease : LeasedJob)
    (q q' : BuildQueue) : Prop where
  held : q.leased.get? jobId = some lease
  holder : lease.builder = builder
  otherLeases : ∀ j, j ≠ jobId → q'.leased.get? j = q.leased.get? j
  otherOutcomes : ∀ d, d ≠ lease.job.drvHash → q'.completed.get? d = q.completed.get? d
  elsewhere : q' = { q with
    leased := q'.leased, completed := q'.completed, pendingFetch := q'.pendingFetch }

/-- What an answer may change, by what it says. -/
def Framed (q : BuildQueue) (builder : EndpointId) (request : BuildQueueRequest) :
    BuildQueue × BuildQueueResponse → Prop
  | (q', .error _) | (q', .noJob) => q' = q
  | (q', .heartbeatAck) => ∃ jobId lease, request.jobId = some jobId ∧
      TouchesOnly builder jobId lease q q' ∧
      (∃ now status, q'.leased.get? jobId = some { lease with lastHeartbeat := now, status }) ∧
      q'.completed = q.completed ∧ q'.pendingFetch = q.pendingFetch
  | (q', .completeAck) => ∃ jobId lease, request.jobId = some jobId ∧
      TouchesOnly builder jobId lease q q' ∧ q'.leased.get? jobId = none ∧
      ∃ result, q'.completed.get? lease.job.drvHash = some (.completed result) ∧
        q'.pendingFetch = q.pendingFetch ++ [result]
  | (q', .failAck) => ∃ jobId lease, request.jobId = some jobId ∧
      TouchesOnly builder jobId lease q q' ∧ q'.leased.get? jobId = none ∧
      (∃ error, q'.completed.get? lease.job.drvHash = some (.failed builder error)) ∧
      q'.pendingFetch = q.pendingFetch
  | (_, .job ..) | (_, .logAck) => True

section Touches

variable {q : BuildQueue} {builder : EndpointId} {jobId : JobId} {lease : LeasedJob}

theorem TouchesOnly.renewed (held : q.leased.get? jobId = some lease)
    (holder : lease.builder = builder) (lease' : LeasedJob) :
    TouchesOnly builder jobId lease q { q with leased := q.leased.insert jobId lease' } where
  held := held
  holder := holder
  otherLeases := by
    intro j hj
    rw [HashMap.get_insert, if_neg hj]
  otherOutcomes := fun _ _ => rfl
  elsewhere := rfl

theorem TouchesOnly.ended (held : q.leased.get? jobId = some lease)
    (holder : lease.builder = builder) (outcome : JobOutcome) (pendingFetch : List BuildResult) :
    TouchesOnly builder jobId lease q { q with
      leased := q.leased.erase jobId
      completed := q.completed.insert lease.job.drvHash outcome
      pendingFetch } where
  held := held
  holder := holder
  otherLeases := by
    intro j hj
    rw [HashMap.get_erase, if_neg hj]
  otherOutcomes := by
    intro d hd
    rw [HashMap.get_insert, if_neg hd]
  elsewhere := rfl

end Touches

/-- Whatever lease was looked up for a completion, an answer keeps to its frame. -/
theorem answer_framed (q : BuildQueue) (order : q.leased.Iter) (now : Instant)
    (builder : EndpointId) (request : BuildQueueRequest) (found : Option LeasedJob) :
    Framed q builder request (answerRequest q order now builder request found) := by
  cases request with
  | pull features streamLogs =>
    simp only [answerRequest, handleBuildQueueRequest]
    rcases q.pull_cases builder features now with ⟨_, hq⟩ | ⟨before, job, after, _, _, _, hq⟩
    · rw [hq]
      rfl
    · rw [hq]
      trivial
  | heartbeat jobId status =>
    simp only [answerRequest, handleBuildQueueRequest]
    rcases q.heartbeat_cases ⟨jobId⟩ builder status now with ⟨hq, _⟩ | ⟨lease, hl, hb, hq⟩
    · rw [hq]
      rfl
    · rw [hq]
      refine ⟨⟨jobId⟩, lease, rfl, .renewed hl hb _, ⟨now, status, ?_⟩, rfl, rfl⟩
      exact HashMap.get_insert_self ..
  | complete jobId outputs r s =>
    cases found with
    | none => rfl
    | some looked =>
      simp only [answerRequest]
      rcases q.complete_cases ⟨jobId⟩ builder (completedResult looked builder jobId outputs r s) with
        ⟨hq, _⟩ | ⟨lease, hl, hb, hq⟩
      · rw [hq]
        rfl
      · rw [hq]
        refine ⟨⟨jobId⟩, lease, rfl, .ended hl hb _ _, ?_, _, HashMap.get_insert_self .., rfl⟩
        simp [HashMap.get_erase]
  | fail jobId error =>
    simp only [answerRequest, handleBuildQueueRequest]
    rcases q.fail_cases ⟨jobId⟩ builder error with ⟨hq, _⟩ | ⟨lease, hl, hb, hq⟩
    · rw [hq]
      rfl
    · rw [hq]
      refine ⟨⟨jobId⟩, lease, rfl, .ended hl hb _ _, ?_, ⟨error, HashMap.get_insert_self ..⟩, rfl⟩
      simp [HashMap.get_erase]
  | buildLog jobId data stream => trivial

/-- A request that is refused changes nothing, and one that is accepted changes only the
lease its sender holds on the job it names, and what comes of that job. -/
theorem request_framed (q : BuildQueue) (order : q.leased.Iter) (now : Instant)
    (builder : EndpointId) (request : BuildQueueRequest) :
    Framed q builder request (handleBuildQueueRequest q order now builder request) := by
  rw [← answer_lookUp]
  exact answer_framed q order now builder request (lookUp q request)

end IrohNix.Builder
