import IrohNix.Build.Leases
import IrohNix.Builder.Frames
import IrohNix.Builder.WorkerSpec
import IrohNix.Lib.Service

namespace IrohNix.Builder
open IrohNix.Lib IrohNix.Build IrohNix.Transfer

variable {ι : Type}

/-- `handle_build_queue_accepted`, on any number of connections, each from a known peer.
A completion is answered with whatever lease was looked up for it. -/
def handleBuildQueueAccepted (hashers : Hashers) (requests : Postcard BuildQueueRequest)
    (responses : Postcard BuildQueueResponse) (finishedEarly : String)
    (remoteId : ι → EndpointId) :
    Service BuildQueue ι (Option QueueEvent) String Error BuildQueueRequest BuildQueueResponse where
  limit := maxMessageSize
  tooLarge msgLen := .protocol ("message too large: " ++ toString msgLen ++ " bytes")
  lengthCut _ := .ok ()
  bodyCut failure := .protocol ("failed to read message: " ++ failure.getD finishedEarly)
  decode msgBuf := protocolError "failed to decode request: " (requests.fromBytes msgBuf)
  encode response := protocolError "failed to encode response: " (responses.toAllocvec response)
  writeCut out failure := .protocol
    ((if out < 4 then "failed to write response length: " else "failed to write response: ") ++
      failure)
  answers i q request call response q' := ∃ (order : q.leased.Iter) (now : Instant)
    (found : Option LeasedJob),
      answerRequest q order now (remoteId i) request found = (q', response) ∧
      call = answerCall q now (remoteId i) request found
  own q call q' := ∃ e, call = some e ∧ ownCall e = true ∧ QueueStep hashers q e q'

/-- The call is one that the request asks for, of the builder that it names. -/
inductive Asks (builderId : EndpointId) : BuildQueueRequest → QueueEvent → Prop where
  | pull (features : List String) (streamLogs : Bool) (now : Instant) (job : Option BuildJob) :
      Asks builderId (.pull features streamLogs) (.pull builderId features now job)
  | heartbeat (jobId : UInt64) (status : String) (now : Instant) (accepted : Bool) :
      Asks builderId (.heartbeat jobId status) (.heartbeat ⟨jobId⟩ builderId status now accepted)
  | buildLog (jobId : UInt64) (data : Bytes) (stream : UInt8) :
      Asks builderId (.buildLog jobId data stream) (.broadcastLog jobId data stream)
  | complete (jobId : UInt64) (outputs : List BuildOutputProto) (r s : Bytes32)
      (leasedJob : LeasedJob) (accepted : Bool) :
      Asks builderId (.complete jobId outputs r s)
        (.complete ⟨jobId⟩ builderId (completedResult leasedJob builderId jobId outputs r s)
          accepted)
  | fail (jobId : UInt64) (error : String) (accepted : Bool) :
      Asks builderId (.fail jobId error) (.fail ⟨jobId⟩ builderId error accepted)

theorem answerCall_asks {q : BuildQueue} {now : Instant} {builderId : EndpointId}
    {request : BuildQueueRequest} {found : Option LeasedJob} {e : QueueEvent}
    (h : answerCall q now builderId request found = some e) : Asks builderId request e := by
  cases request with
  | pull | heartbeat | buildLog | fail =>
    cases h
    constructor
  | complete jobId outputs r s =>
    cases found with
    | none => cases h
    | some leasedJob =>
      cases h
      exact .complete ..

/-- A request is not answered by a call of the requester's own, a failure apart. -/
theorem Asks.builder {builderId : EndpointId} {request : BuildQueueRequest} {e : QueueEvent}
    (asks : Asks builderId request e) : builderCall e = true := by
  cases asks <;> rfl

/-- Who reports that a job has ended. -/
def reporter : QueueEvent → Option EndpointId
  | .complete _ builder _ _ | .fail _ builder _ _ => some builder
  | _ => none

theorem Asks.reporter {builderId builder : EndpointId} {request : BuildQueueRequest}
    {e : QueueEvent} (asks : Asks builderId request e) (reported : reporter e = some builder) :
    builder = builderId := by
  cases asks with
  | pull | heartbeat | buildLog => cases reported
  | complete | fail => exact (Option.some.inj reported).symm

/-- A job ends only by a report of the builder that holds it. -/
theorem finished_held {hashers : Hashers} {q q' : BuildQueue} {e : QueueEvent} {j : JobId}
    (step : QueueStep hashers q e q') (ends : e.finished = some j) :
    ∃ lease, q.leased.get? j = some lease ∧ reporter e = some lease.builder := by
  cases step with
  | push | pull | heartbeat | checkTimeouts | takePendingFetches | broadcastLog => cases ends
  | complete jobId builder result =>
    rcases q.complete_cases jobId builder result with ⟨hq, _⟩ | ⟨lease, hl, hb, hq⟩
    · rw [hq] at ends
      cases ends
    · rw [hq] at ends
      cases ends
      exact ⟨lease, hl, congrArg some hb.symm⟩
  | fail jobId builder error =>
    rcases q.fail_cases jobId builder error with ⟨hq, _⟩ | ⟨lease, hl, hb, hq⟩
    · rw [hq] at ends
      cases ends
    · rw [hq] at ends
      cases ends
      exact ⟨lease, hl, congrArg some hb.symm⟩

/-- A pull is answered with the job that it takes, or with none. -/
theorem pull_answer {q q' : BuildQueue} {order : q.leased.Iter} {now now' : Instant}
    {builderId builder : EndpointId} {request : BuildQueueRequest} {found : Option LeasedJob}
    {response : BuildQueueResponse} {features : List String} {job : BuildJob}
    (answer : answerRequest q order now builderId request found = (q', response))
    (call : answerCall q now builderId request found =
      some (.pull builder features now' (some job))) :
    builder = builderId ∧ response = jobResponse job ∧
      ∃ streamLogs, request = .pull features streamLogs := by
  cases request with
  | pull features' streamLogs =>
    simp only [answerCall, requestCall, Option.some.injEq, QueueEvent.pull.injEq] at call
    obtain ⟨rfl, rfl, rfl, taken⟩ := call
    simp only [answerRequest, handleBuildQueueRequest] at answer
    generalize q.pull builderId features' now = pulled at answer taken
    obtain ⟨q'', taken'⟩ := pulled
    cases taken
    cases answer
    exact ⟨rfl, rfl, streamLogs, rfl⟩
  | heartbeat | buildLog | fail => cases call
  | complete => cases found <;> cases call

section Connections

variable [DecidableEq ι] {hashers : Hashers} {requests : Postcard BuildQueueRequest}
  {responses : Postcard BuildQueueResponse} {finishedEarly : String} {remoteId : ι → EndpointId}

abbrev AcceptedEvent (ι : Type) :=
  ServiceEvent ι (Option QueueEvent) String Error BuildQueueRequest BuildQueueResponse

/-- The calls on the queue, in order. -/
def acceptedCalls (h : List (AcceptedEvent ι)) : List QueueEvent :=
  (Service.calls h).filterMap id

theorem accepted_queue_run {ourId : EndpointId} {h : List (AcceptedEvent ι)}
    {s : Served BuildQueue ι String Error}
    (run : Run (handleBuildQueueAccepted hashers requests responses finishedEarly remoteId).Step
      (Service.init (.new ourId)) h s) : QueueRun hashers ourId (acceptedCalls h) s.state := by
  refine (Service.state_run run).simulates id id rfl ?_
  intro _ q call q' _ step
  rcases step with ⟨i, request, response, order, now, found, answer, rfl⟩ | ⟨e, rfl, _, step⟩
  · exact answer_step hashers answer
  · exact .inr ⟨e, rfl, step⟩

/-- The job was last granted to this peer, in answer to a pull that came from it. -/
def GrantedTo (svc : Service BuildQueue ι (Option QueueEvent) String Error BuildQueueRequest
    BuildQueueResponse) (remoteId : ι → EndpointId) (h : List (AcceptedEvent ι))
    (builderId : EndpointId) (j : JobId) : Prop :=
  ∃ i features streamLogs job, remoteId i = builderId ∧
    latest (QueueEvent.grant j) (acceptedCalls h) = some (builderId, features, job) ∧
    .pull features streamLogs ∈ svc.requests (Service.arrivedOn i h) ∧
    (.pull features streamLogs, jobResponse job) ∈ Service.handledOn i h

/-- What a grant says was said in an answer to a pull. -/
theorem grant_answered {ourId : EndpointId} {h : List (AcceptedEvent ι)}
    {s : Served BuildQueue ι String Error}
    (run : Run (handleBuildQueueAccepted hashers requests responses finishedEarly remoteId).Step
      (Service.init (.new ourId)) h s) {j : JobId} {builder : EndpointId} {features : List String}
    {job : BuildJob} (granted : latest (QueueEvent.grant j) (acceptedCalls h) =
      some (builder, features, job)) :
    GrantedTo (handleBuildQueueAccepted hashers requests responses finishedEarly remoteId) remoteId
      h builder j := by
  obtain ⟨e, called, he⟩ := List.mem_filterMap.mp (List.mem_of_getLast? granted)
  obtain ⟨now, rfl⟩ : ∃ now, e = .pull builder features now (some job) := by
    cases e with
    | pull builder' features' now job' =>
      cases job' with
      | none => cases he
      | some job' =>
        simp only [QueueEvent.grant] at he
        split at he <;> cases he
        exact ⟨now, rfl⟩
    | _ => cases he
  obtain ⟨call, hcall, rfl⟩ := List.mem_filterMap.mp called
  rcases Service.call_cases run hcall with ⟨i, request, response, t, t', handled, order, now',
    found, answer, made⟩ | ⟨t, t', e, made, isOwn, _⟩
  · obtain ⟨rfl, rfl, streamLogs, rfl⟩ := pull_answer answer made.symm
    exact ⟨i, features, streamLogs, job, rfl, granted, Service.request_arrived run handled,
      List.mem_filterMap.mpr ⟨_, handled, if_pos rfl⟩⟩
  · cases made
    cases isOwn

/-- Whatever peers send, a call made for a peer is one that a request of this peer asks for,
in its name, and any other is the requester's own; and a peer ends no job but one that it was
itself last granted. -/
structure Confined (svc : Service BuildQueue ι (Option QueueEvent) String Error BuildQueueRequest
    BuildQueueResponse) (remoteId : ι → EndpointId) (h : List (AcceptedEvent ι)) : Prop where
  asked : ∀ before i request e response after,
    h = before ++ .handles i request (some e) response :: after →
      request ∈ svc.requests (Service.arrivedOn i before) ∧ Asks (remoteId i) request e
  own : ∀ call, .own call ∈ h → ∃ e, call = some e ∧ ownCall e = true
  earned : ∀ before i request e response after j,
    h = before ++ .handles i request (some e) response :: after → e.finished = some j →
      GrantedTo svc remoteId before (remoteId i) j

/-- Builders on any number of connections, with any bytes on them. -/
theorem builders_confined (hashers : Hashers) (requests : Postcard BuildQueueRequest)
    (responses : Postcard BuildQueueResponse) (finishedEarly : String) (remoteId : ι → EndpointId)
    (ourId : EndpointId) (h : List (AcceptedEvent ι)) (s : Served BuildQueue ι String Error)
    (run : Run (handleBuildQueueAccepted hashers requests responses finishedEarly remoteId).Step
      (Service.init (.new ourId)) h s) :
    QueueRun hashers ourId (acceptedCalls h) s.state ∧
      Confined (handleBuildQueueAccepted hashers requests responses finishedEarly remoteId)
        remoteId h ∧
      ∀ i, (handleBuildQueueAccepted hashers requests responses finishedEarly remoteId).InOrder i h
        (s.conn i) := by
  refine ⟨accepted_queue_run run, ⟨?_, ?_, ?_⟩, fun i => (Service.kept_run run i).inOrder⟩
  · intro before i request e response after parts
    obtain ⟨t, t', run', step⟩ := run.split parts
    have arrived := Service.request_arrived (run'.snoc step)
      (List.mem_append_right before (List.mem_singleton_self _))
    rw [Service.arrivedOn_handles] at arrived
    cases step with
    | handles _ _ rest _ _ state lost running takes answer =>
      obtain ⟨order, now, found, _, made⟩ := answer
      exact ⟨arrived, answerCall_asks made.symm⟩
  · intro call called
    obtain ⟨before, after, parts⟩ := List.append_of_mem called
    obtain ⟨t, t', _, step⟩ := run.split parts
    cases step with
    | own _ _ made =>
      obtain ⟨e, he, isOwn, _⟩ := made
      exact ⟨e, he, isOwn⟩
  · intro before i request e response after j parts ends
    obtain ⟨t, t', run', step⟩ := run.split parts
    cases step with
    | handles _ _ rest _ _ state lost running takes answer =>
      obtain ⟨order, now, found, answer, made⟩ := answer
      have told := leasesTold_run (accepted_queue_run run')
      rcases answer_step hashers answer with ⟨silent, _⟩ | ⟨e', made', step⟩
      · rw [silent] at made
        cases made
      · rw [made'] at made
        cases made
        obtain ⟨lease, held, reported⟩ := finished_held step ends
        obtain ⟨features, granted, _⟩ := (told j lease held).granted
        have who := (answerCall_asks made').reporter reported
        exact who ▸ grant_answered run' granted

end Connections

section Sample

/-- One connection, from the sample's builder. -/
def sampleService : Service BuildQueue Unit (Option QueueEvent) String Error BuildQueueRequest
    BuildQueueResponse :=
  handleBuildQueueAccepted zeroHashers (.ofWire requestWire) (.ofWire responseWire)
    "stream finished early" fun _ => ⟨zeroBytes32⟩

/-- A request that fits can be sent on a quiet connection and is answered. -/
theorem sample_exchange {h : List (AcceptedEvent Unit)} {s : Served BuildQueue Unit String Error}
    (run : Run sampleService.Step (Service.init (.new ⟨zeroBytes32⟩)) h s)
    (quiet : Service.Quiet (s.conn ())) (request : BuildQueueRequest)
    (fits : (requestWire.write request).length ≤ maxMessageSize) (now : Instant) :
    ∃ order response conn, Run sampleService.Step (Service.init (.new ⟨zeroBytes32⟩))
        (h ++ [.arrives () (framed (requestWire.write request))] ++
          [.handles () request
            (answerCall s.state now ⟨zeroBytes32⟩ request (lookUp s.state request)) response])
        ⟨(answerRequest s.state order now ⟨zeroBytes32⟩ request (lookUp s.state request)).1, conn⟩ ∧
      Service.Quiet (conn ()) := by
  obtain ⟨order⟩ := HashMap.iter_exists s.state.leased
  obtain ⟨bytes, encoded, decoded⟩ := Postcard.ofWire_roundTrips requestWire request
  obtain rfl : requestWire.write request = bytes := Except.ok.inj encoded
  obtain ⟨q', response, answer⟩ : ∃ q' response, answerRequest s.state order now ⟨zeroBytes32⟩
      request (lookUp s.state request) = (q', response) := ⟨_, _, rfl⟩
  obtain ⟨⟨_, conn⟩, run', rfl, quiet', _⟩ := Service.exchange run () quiet
    (requestWire.write request) fits (by decide)
    (by simp [sampleService, handleBuildQueueAccepted, decoded, protocolError, Except.mapError])
    ⟨order, now, lookUp s.state request, answer, rfl⟩ rfl
  exact ⟨order, response, conn, by rw [answer]; exact run', quiet'⟩

/-- The builder pulls the job that is submitted, and completes it. -/
theorem sample_run : ∃ h response s, Run sampleService.Step
    (Service.init (.new ⟨zeroBytes32⟩))
    (h ++ [.handles () (.complete 1 [] zeroBytes32 zeroBytes32)
      (some (.complete ⟨1⟩ ⟨zeroBytes32⟩ sampleResult true)) response]) s := by
  have start : Run sampleService.Step (Service.init (.new ⟨zeroBytes32⟩)) [] _ := .nil
  have pushed := start.snoc (.own _ _ _ ⟨_, rfl, rfl,
    .push _ "/nix/store/a.drv" ["kvm"] ["/nix/store/a"] [] 0⟩)
  obtain ⟨order, response, conn, pulled, quiet⟩ := sample_exchange pushed ⟨rfl, rfl, rfl⟩
    (.pull ["kvm"] false) (by decide +kernel) 5
  obtain ⟨order', response', conn', completed, quiet'⟩ := sample_exchange pulled quiet
    (.complete 1 [] zeroBytes32 zeroBytes32) (by decide +kernel) 6
  exact ⟨_, response', _, completed⟩

/-- What it completes was granted to it. -/
theorem sample_confined : ∃ before, GrantedTo sampleService (fun _ => ⟨zeroBytes32⟩) before
    ⟨zeroBytes32⟩ ⟨1⟩ := by
  obtain ⟨before, response, s, run⟩ := sample_run
  exact ⟨before, (builders_confined zeroHashers (.ofWire requestWire) (.ofWire responseWire)
    "stream finished early" (fun _ => ⟨zeroBytes32⟩) ⟨zeroBytes32⟩ _ s run).2.1.earned before () _ _
    response [] ⟨1⟩ rfl rfl⟩

end Sample

end IrohNix.Builder
