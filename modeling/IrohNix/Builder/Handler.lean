import IrohNix.Build.QueueRun

namespace IrohNix.Builder
open IrohNix.Lib IrohNix.Build

structure InputPathProto where
  storePath : String
  blake3 : Bytes32
deriving DecidableEq

structure BuildOutputProto where
  storePath : String
  blake3 : Bytes32
  sha256 : Bytes32
  narSize : UInt64
deriving DecidableEq

/-- Request message from builder to requester. -/
inductive BuildQueueRequest where
  | pull (systemFeatures : List String) (streamLogs : Bool)
  | heartbeat (jobId : UInt64) (status : String)
  | buildLog (jobId : UInt64) (data : Bytes) (stream : UInt8)
  | complete (jobId : UInt64) (outputs : List BuildOutputProto) (signatureR signatureS : Bytes32)
  | fail (jobId : UInt64) (error : String)
deriving DecidableEq

/-- Response message from requester to builder. -/
inductive BuildQueueResponse where
  | job (jobId : UInt64) (drvHash : Bytes32) (drvPath : String) (outputs : List String)
      (inputPaths : List InputPathProto)
  | noJob
  | heartbeatAck
  | completeAck
  | failAck
  | logAck
  | error (message : String)
deriving DecidableEq

def InputPathProto.ofInputPath (ip : InputPath) : InputPathProto := ⟨ip.storePath, ip.blake3⟩

def BuildOutputProto.toBuildOutput (o : BuildOutputProto) : BuildOutput :=
  ⟨o.storePath, o.blake3, o.sha256, o.narSize⟩

def jobResponse (job : BuildJob) : BuildQueueResponse :=
  .job job.id.val job.drvHash.bytes job.drvPath job.outputs
    (job.inputPaths.map InputPathProto.ofInputPath)

/-- The result a completion request reports, of the job it names. -/
def completedResult (leasedJob : LeasedJob) (builderId : EndpointId) (jobId : UInt64)
    (outputs : List BuildOutputProto) (signatureR signatureS : Bytes32) : BuildResult :=
  { jobId := ⟨jobId⟩, drvHash := leasedJob.job.drvHash, builder := builderId.asBytes
    outputs := outputs.map BuildOutputProto.toBuildOutput, signatureR, signatureS }

/-- A request is answered for the builder the connection is from. -/
def handleBuildQueueRequest (q : BuildQueue) (order : q.leased.Iter) (now : Instant)
    (builderId : EndpointId) : BuildQueueRequest → BuildQueue × BuildQueueResponse
  | .pull systemFeatures _ =>
    match q.pull builderId systemFeatures now with
    | (q', some job) => (q', jobResponse job)
    | (q', none) => (q', .noJob)
  | .heartbeat jobId status =>
    match q.heartbeat ⟨jobId⟩ builderId status now with
    | (q', true) => (q', .heartbeatAck)
    | (q', false) => (q', .error "invalid job or builder")
  | .complete jobId outputs signatureR signatureS =>
    match (q.listLeased order).find? (fun e => e.1 == ⟨jobId⟩) with
    | some (_, leasedJob) =>
      match q.complete ⟨jobId⟩ builderId
          (completedResult leasedJob builderId jobId outputs signatureR signatureS) with
      | (q', true) => (q', .completeAck)
      | (q', false) => (q', .error "failed to complete job")
    | none => (q, .error "job not found")
  | .fail jobId error =>
    match q.fail ⟨jobId⟩ builderId error with
    | (q', true) => (q', .failAck)
    | (q', false) => (q', .error "invalid job or builder")
  | .buildLog jobId data stream => (q.broadcastLog jobId data stream, .logAck)

/-- The call a request makes on the queue, with what the call returns. A
completion of a job no lease is found for is one that is refused. -/
def requestCall (q : BuildQueue) (now : Instant) (builderId : EndpointId) :
    BuildQueueRequest → QueueEvent
  | .pull systemFeatures _ =>
    .pull builderId systemFeatures now (q.pull builderId systemFeatures now).2
  | .heartbeat jobId status =>
    .heartbeat ⟨jobId⟩ builderId status now (q.heartbeat ⟨jobId⟩ builderId status now).2
  | .complete jobId outputs signatureR signatureS =>
    match q.leased.get? ⟨jobId⟩ with
    | some leasedJob =>
      let result := completedResult leasedJob builderId jobId outputs signatureR signatureS
      .complete ⟨jobId⟩ builderId result (q.complete ⟨jobId⟩ builderId result).2
    | none =>
      .complete ⟨jobId⟩ builderId
        ⟨⟨jobId⟩, ⟨zeroBytes32⟩, builderId.asBytes, outputs.map BuildOutputProto.toBuildOutput,
          signatureR, signatureS⟩ false
  | .fail jobId error =>
    .fail ⟨jobId⟩ builderId error (q.fail ⟨jobId⟩ builderId error).2
  | .buildLog jobId data stream => .broadcastLog jobId data stream

/-- Answering a request is one call on the queue. -/
theorem handle_request_step (hashers : Hashers) (q : BuildQueue) (order : q.leased.Iter)
    (now : Instant) (builderId : EndpointId) (request : BuildQueueRequest) :
    QueueStep hashers q (requestCall q now builderId request)
      (handleBuildQueueRequest q order now builderId request).1 := by
  cases request with
  | pull systemFeatures streamLogs =>
    have step : QueueStep hashers _ _ _ := QueueStep.pull q builderId systemFeatures now
    simp only [requestCall, handleBuildQueueRequest]
    generalize q.pull builderId systemFeatures now = answer at step ⊢
    obtain ⟨q', job⟩ := answer
    cases job <;> exact step
  | heartbeat jobId status =>
    have step : QueueStep hashers _ _ _ := QueueStep.heartbeat q ⟨jobId⟩ builderId status now
    simp only [requestCall, handleBuildQueueRequest]
    generalize q.heartbeat ⟨jobId⟩ builderId status now = answer at step ⊢
    obtain ⟨q', accepted⟩ := answer
    cases accepted <;> exact step
  | buildLog jobId data stream => exact .broadcastLog q jobId data stream
  | complete jobId outputs signatureR signatureS =>
    simp only [requestCall, handleBuildQueueRequest, BuildQueue.listLeased, HashMap.Iter.find_key]
    cases hl : q.leased.get? (JobId.mk jobId) with
    | none =>
      have step : QueueStep hashers _ _ _ := QueueStep.complete q ⟨jobId⟩ builderId
        ⟨⟨jobId⟩, ⟨zeroBytes32⟩, builderId.asBytes, outputs.map BuildOutputProto.toBuildOutput,
          signatureR, signatureS⟩
      simpa [BuildQueue.complete, hl] using step
    | some leasedJob =>
      have step : QueueStep hashers _ _ _ := QueueStep.complete q ⟨jobId⟩ builderId
        (completedResult leasedJob builderId jobId outputs signatureR signatureS)
      simp only [Option.map_some]
      generalize q.complete ⟨jobId⟩ builderId
        (completedResult leasedJob builderId jobId outputs signatureR signatureS) = answer at step ⊢
      obtain ⟨q', accepted⟩ := answer
      cases accepted <;> exact step
  | fail jobId error =>
    have step : QueueStep hashers _ _ _ := QueueStep.fail q ⟨jobId⟩ builderId error
    simp only [requestCall, handleBuildQueueRequest]
    generalize q.fail ⟨jobId⟩ builderId error = answer at step ⊢
    obtain ⟨q', accepted⟩ := answer
    cases accepted <;> exact step

/-- An accepted completion is one of a leased job, of what the request reports. -/
theorem requestCall_complete {q : BuildQueue} {now : Instant} {builderId builder : EndpointId}
    {request : BuildQueueRequest} {jobId : JobId} {result : BuildResult}
    (h : requestCall q now builderId request = .complete jobId builder result true) :
    ∃ outputs r s lease, request = .complete jobId.val outputs r s ∧ builder = builderId ∧
      q.leased.get? jobId = some lease ∧
      result = completedResult lease builderId jobId.val outputs r s := by
  cases request with
  | pull | heartbeat | buildLog | fail => simp [requestCall] at h
  | complete j outputs r s =>
    simp only [requestCall] at h
    cases hl : q.leased.get? (JobId.mk j) with
    | none => simp [hl] at h
    | some lease =>
      simp only [hl, QueueEvent.complete.injEq] at h
      obtain ⟨rfl, rfl, rfl, _⟩ := h
      exact ⟨outputs, r, s, lease, rfl, rfl, hl, rfl⟩

/-- Any builder has any request answered. -/
inductive RequestStep : BuildQueue → QueueEvent → BuildQueue → Prop where
  | request (q : BuildQueue) (order : q.leased.Iter) (now : Instant) (builderId : EndpointId)
      (request : BuildQueueRequest) :
      RequestStep q (requestCall q now builderId request)
        (handleBuildQueueRequest q order now builderId request).1

theorem RequestStep.queueStep {q q' : BuildQueue} {e : QueueEvent} (step : RequestStep q e q')
    (hashers : Hashers) : QueueStep hashers q e q' := by
  cases step with
  | request order now builderId request =>
    exact handle_request_step hashers q order now builderId request

/-- The calls a builder's request can make. -/
def builderCall : QueueEvent → Bool
  | .pull .. | .heartbeat .. | .complete .. | .fail .. | .broadcastLog .. => true
  | .push .. | .checkTimeouts .. | .takePendingFetches .. => false

/-- The requester's own calls; CancelBuild is a failure it reports itself. -/
def ownCall : QueueEvent → Bool
  | .push .. | .fail .. | .checkTimeouts .. | .takePendingFetches .. => true
  | .pull .. | .heartbeat .. | .complete .. | .broadcastLog .. => false

theorem requestCall_builder (q : BuildQueue) (now : Instant) (builderId : EndpointId)
    (request : BuildQueueRequest) : builderCall (requestCall q now builderId request) = true := by
  cases request with
  | pull | heartbeat | buildLog | fail => rfl
  | complete jobId outputs signatureR signatureS =>
    simp only [requestCall]
    cases q.leased.get? (JobId.mk jobId) <;> rfl

theorem RequestStep.builderCall {q q' : BuildQueue} {e : QueueEvent} (step : RequestStep q e q') :
    builderCall e = true := by
  cases step with
  | request order now builderId request => exact requestCall_builder q now builderId request

theorem RequestStep.pushed {q q' : BuildQueue} {e : QueueEvent} (step : RequestStep q e q')
    (hashers : Hashers) : e.pushed hashers = none := by
  have hb := step.builderCall
  cases e with
  | push => simp [Builder.builderCall] at hb
  | _ => rfl

theorem handle_pull_queue (q : BuildQueue) (order : q.leased.Iter) (now : Instant)
    (builder : EndpointId) (features : List String) (streamLogs : Bool) :
    (handleBuildQueueRequest q order now builder (.pull features streamLogs)).1 =
      (q.pull builder features now).1 := by
  simp only [handleBuildQueueRequest]
  obtain ⟨q', job⟩ := q.pull builder features now
  cases job <;> rfl

theorem handle_complete_queue {q : BuildQueue} {jobId : UInt64} {lease : LeasedJob}
    (hl : q.leased.get? ⟨jobId⟩ = some lease) (order : q.leased.Iter) (now : Instant)
    (builder : EndpointId) (outputs : List BuildOutputProto) (r s : Bytes32) :
    (handleBuildQueueRequest q order now builder (.complete jobId outputs r s)).1 =
      (q.complete ⟨jobId⟩ builder (completedResult lease builder jobId outputs r s)).1 := by
  simp only [handleBuildQueueRequest, BuildQueue.listLeased, HashMap.Iter.find_key, hl,
    Option.map_some]
  obtain ⟨q', accepted⟩ := q.complete ⟨jobId⟩ builder
    (completedResult lease builder jobId outputs r s)
  cases accepted <;> rfl

theorem RequestStep.pull (q : BuildQueue) (builder : EndpointId) (features : List String)
    (now : Instant) :
    RequestStep q (.pull builder features now (q.pull builder features now).2)
      (q.pull builder features now).1 := by
  obtain ⟨order⟩ := HashMap.iter_exists q.leased
  have step := RequestStep.request q order now builder (.pull features false)
  rw [handle_pull_queue] at step
  exact step

theorem RequestStep.complete {q : BuildQueue} {jobId : UInt64} {lease : LeasedJob}
    (hl : q.leased.get? ⟨jobId⟩ = some lease) (builder : EndpointId)
    (outputs : List BuildOutputProto) (r s : Bytes32) :
    RequestStep q
      (.complete ⟨jobId⟩ builder (completedResult lease builder jobId outputs r s)
        (q.complete ⟨jobId⟩ builder (completedResult lease builder jobId outputs r s)).2)
      (q.complete ⟨jobId⟩ builder (completedResult lease builder jobId outputs r s)).1 := by
  obtain ⟨order⟩ := HashMap.iter_exists q.leased
  have step := RequestStep.request q order 0 builder (.complete jobId outputs r s)
  rw [handle_complete_queue hl] at step
  simpa only [requestCall, hl] using step

end IrohNix.Builder
