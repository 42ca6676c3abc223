import IrohNix.Build.Signing
import IrohNix.Builder.Handler
import Mathlib.Logic.Function.Basic

namespace IrohNix.Builder
open IrohNix.Lib IrohNix.Build

def BuildOutputProto.ofBuildOutput (o : BuildOutput) : BuildOutputProto :=
  ⟨o.storePath, o.blake3, o.sha256, o.narSize⟩

/-- The request that reports a signed result. -/
def completeRequest (result : BuildResult) : BuildQueueRequest :=
  .complete result.jobId.val (result.outputs.map .ofBuildOutput) result.signatureR
    result.signatureS

/-- What a worker keeps of the job it was given, for its reports. -/
structure JobContext where
  jobId : UInt64
  drvHash : DrvHash

/-- Where a worker is in `connect_and_work` and `execute_job_with_heartbeat`. -/
inductive Phase where
  | idle
  | pulling
  | awaitJob
  | working (ctx : JobContext)
  | awaitAck (ctx : JobContext)
  | awaitComplete (ctx : JobContext) (signed : BuildResult)
  | failing (ctx : JobContext)
  | awaitFail (ctx : JobContext)

namespace Phase

/-- What a worker may send, and how it goes on. While it fetches dependencies and
builds, heartbeats and log lines come in any order and number. -/
inductive Sends (crypto : Ed25519) (key : crypto.SecretKey) :
    Phase → BuildQueueRequest → Phase → Prop where
  | pull (features : List String) (streamLogs : Bool) :
      Sends crypto key .pulling (.pull features streamLogs) .awaitJob
  | heartbeat (ctx : JobContext) (status : String) :
      Sends crypto key (.working ctx) (.heartbeat ctx.jobId status) (.awaitAck ctx)
  | buildLog (ctx : JobContext) (data : Bytes) (stream : UInt8) :
      Sends crypto key (.working ctx) (.buildLog ctx.jobId data stream) (.awaitAck ctx)
  | complete (ctx : JobContext) (outputs : List BuildOutput) (signed : BuildResult)
      (signs : signed = signBuildResult crypto key ⟨ctx.jobId⟩ ctx.drvHash outputs) :
      Sends crypto key (.working ctx) (completeRequest signed) (.awaitComplete ctx signed)
  | fail (ctx : JobContext) (error : String) :
      Sends crypto key (.failing ctx) (.fail ctx.jobId error) (.awaitFail ctx)

def awaiting : Phase → Bool
  | .awaitJob | .awaitAck _ | .awaitComplete .. | .awaitFail _ => true
  | .idle | .pulling | .working _ | .failing _ => false

/-- How a worker takes a response. -/
def afterRead : Phase → BuildQueueResponse → Phase
  | .awaitJob, .job jobId drvHash _ _ _ => .working ⟨jobId, ⟨drvHash⟩⟩
  | .awaitJob, .noJob => .pulling
  | .awaitJob, _ => .idle
  | .awaitAck ctx, _ => .working ctx
  | .awaitComplete _ _, .completeAck => .pulling
  | .awaitComplete ctx _, _ => .failing ctx
  | .awaitFail _, _ => .pulling
  | phase, _ => phase

/-- How a worker takes an error of its stream. A failure report is given up. -/
def afterError : Phase → Phase
  | .idle | .pulling | .awaitJob => .idle
  | .working ctx | .awaitAck ctx | .awaitComplete ctx _ => .failing ctx
  | .failing _ | .awaitFail _ => .pulling

/-- Giving up of its own: cancelled, idle for too long, or failing to build. -/
def giveUp : Phase → Phase
  | .pulling => .idle
  | .working ctx => .failing ctx
  | phase => phase

def context : Phase → Option JobContext
  | .working ctx | .awaitAck ctx | .awaitComplete ctx _ | .failing ctx | .awaitFail ctx => some ctx
  | .idle | .pulling | .awaitJob => none

end Phase

/-- A request on its way, by number among those of its sender, with the lease that
was looked up for it once that is done. -/
structure Message where
  number : Nat
  request : BuildQueueRequest
  found : Option (Option LeasedJob)

/-- A response, with the request it was made for. -/
structure Reply where
  number : Nat
  request : BuildQueueRequest
  response : BuildQueueResponse

/-- A connection that has not broken: what was sent on it and not answered, and what
was answered and not read, in order. -/
structure Link where
  requests : List Message
  replies : List Reply

structure Worker where
  phase : Phase
  link : Option Link
  sent : Nat

/-- The requester's queue and all workers. Requests sent on connections that broke
may still be answered, to nobody, or not. -/
structure World (ι : Type) where
  queue : BuildQueue
  worker : ι → Worker
  late : List (ι × Message)

/-- A completion is answered in two turns: the lease is looked up, and then the queue
is called. -/
def answerRequest (q : BuildQueue) (order : q.leased.Iter) (now : Instant) (builderId : EndpointId)
    (request : BuildQueueRequest) (found : Option LeasedJob) : BuildQueue × BuildQueueResponse :=
  match request with
  | .complete jobId outputs signatureR signatureS =>
    match found with
    | some leasedJob =>
      match q.complete ⟨jobId⟩ builderId
          (completedResult leasedJob builderId jobId outputs signatureR signatureS) with
      | (q', true) => (q', .completeAck)
      | (q', false) => (q', .error "failed to complete job")
    | none => (q, .error "job not found")
  | request => handleBuildQueueRequest q order now builderId request

/-- The call on the queue that an answer makes, if it makes one. -/
def answerCall (q : BuildQueue) (now : Instant) (builderId : EndpointId)
    (request : BuildQueueRequest) (found : Option LeasedJob) : Option QueueEvent :=
  match request with
  | .complete jobId outputs signatureR signatureS =>
    found.map fun leasedJob =>
      let result := completedResult leasedJob builderId jobId outputs signatureR signatureS
      .complete ⟨jobId⟩ builderId result (q.complete ⟨jobId⟩ builderId result).2
  | request => some (requestCall q now builderId request)

/-- The lease a completion is answered with. -/
def lookUp (q : BuildQueue) : BuildQueueRequest → Option LeasedJob
  | .complete jobId .. => q.leased.get? ⟨jobId⟩
  | _ => none

/-- With nothing between its turns, an answer is that of `handle_build_queue_request`. -/
theorem answer_lookUp (q : BuildQueue) (order : q.leased.Iter) (now : Instant)
    (builderId : EndpointId) (request : BuildQueueRequest) :
    answerRequest q order now builderId request (lookUp q request) =
      handleBuildQueueRequest q order now builderId request := by
  cases request with
  | pull | heartbeat | buildLog | fail => rfl
  | complete jobId outputs r s =>
    simp only [answerRequest, lookUp, handleBuildQueueRequest, BuildQueue.listLeased,
      HashMap.Iter.find_key]
    cases q.leased.get? (JobId.mk jobId) <;> rfl

def Message.lookUp (q : BuildQueue) (m : Message) : Message :=
  { m with found := some (Builder.lookUp q m.request) }

/-- Everything but a completion is answered at once. -/
def Message.Ready (m : Message) : Prop :=
  ∀ jobId outputs r s, m.request = .complete jobId outputs r s → m.found.isSome

inductive WorkEvent (ι : Type) where
  | own (call : QueueEvent)
  | sends (i : ι) (number : Nat) (request : BuildQueueRequest)
  | answers (i : ι) (reply : Reply) (call : Option QueueEvent) (before after : BuildQueue)
  | reads (i : ι) (reply : Reply)
  | moves (i : ι)

variable {ι : Type} [DecidableEq ι]

namespace World

def new (ourId : EndpointId) : World ι := ⟨.new ourId, fun _ => ⟨.idle, none, 0⟩, []⟩

def setWorker (s : World ι) (i : ι) (w : Worker) : World ι :=
  { s with worker := Function.update s.worker i w }

def setPhase (s : World ι) (i : ι) (phase : Phase) : World ι :=
  s.setWorker i { s.worker i with phase }

/-- The connection of a worker is gone; what it sent may still arrive. -/
def disconnect (s : World ι) (i : ι) : World ι :=
  match (s.worker i).link with
  | some link =>
    { s.setWorker i { s.worker i with link := none } with
      late := s.late ++ link.requests.map fun m => (i, m) }
  | none => s

def connect (s : World ι) (i : ι) : World ι :=
  (s.disconnect i).setWorker i { s.worker i with phase := .pulling, link := some ⟨[], []⟩ }

def send (s : World ι) (i : ι) (request : BuildQueueRequest) (phase : Phase) : World ι :=
  let w := s.worker i
  let m : Message := ⟨w.sent, request, none⟩
  match w.link with
  | some link =>
    s.setWorker i
      { phase, link := some { link with requests := link.requests ++ [m] }, sent := w.sent + 1 }
  | none =>
    { s.setWorker i { w with phase, sent := w.sent + 1 } with late := s.late ++ [(i, m)] }

end World

/-- Workers and the requester, one turn at a time. -/
inductive WorkStep (hashers : Hashers) (crypto : Ed25519) (key : ι → crypto.SecretKey) :
    World ι → WorkEvent ι → World ι → Prop where
  | own (s : World ι) (call : QueueEvent) (q : BuildQueue) (isOwn : ownCall call = true)
      (step : QueueStep hashers s.queue call q) :
      WorkStep hashers crypto key s (.own call) { s with queue := q }
  | connects (s : World ι) (i : ι) (idle : (s.worker i).phase = .idle) :
      WorkStep hashers crypto key s (.moves i) (s.connect i)
  | breaks (s : World ι) (i : ι) : WorkStep hashers crypto key s (.moves i) (s.disconnect i)
  | fails (s : World ι) (i : ι) (broken : (s.worker i).link = none) :
      WorkStep hashers crypto key s (.moves i) (s.setPhase i (s.worker i).phase.afterError)
  | givesUp (s : World ι) (i : ι) :
      WorkStep hashers crypto key s (.moves i) (s.setPhase i (s.worker i).phase.giveUp)
  | sends (s : World ι) (i : ι) (request : BuildQueueRequest) (phase : Phase)
      (may : Phase.Sends crypto (key i) (s.worker i).phase request phase) :
      WorkStep hashers crypto key s (.sends i (s.worker i).sent request) (s.send i request phase)
  | looksUp (s : World ι) (i : ι) (m : Message) (rest : List Message) (replies : List Reply)
      (next : (s.worker i).link = some ⟨m :: rest, replies⟩) :
      WorkStep hashers crypto key s (.moves i)
        (s.setWorker i { s.worker i with link := some ⟨m.lookUp s.queue :: rest, replies⟩ })
  | answers (s : World ι) (i : ι) (m : Message) (rest : List Message) (replies : List Reply)
      (next : (s.worker i).link = some ⟨m :: rest, replies⟩) (ready : m.Ready)
      (order : s.queue.leased.Iter) (now : Instant) (q : BuildQueue) (response : BuildQueueResponse)
      (answer : answerRequest s.queue order now (crypto.publicKey (key i)) m.request m.found.join =
        (q, response)) :
      WorkStep hashers crypto key s
        (.answers i ⟨m.number, m.request, response⟩
          (answerCall s.queue now (crypto.publicKey (key i)) m.request m.found.join) s.queue q)
        { s.setWorker i { s.worker i with
            link := some ⟨rest, replies ++ [⟨m.number, m.request, response⟩]⟩ } with queue := q }
  | looksUpLate (s : World ι) (i : ι) (m : Message) (before after : List (ι × Message))
      (late : s.late = before ++ (i, m) :: after) :
      WorkStep hashers crypto key s (.moves i)
        { s with late := before ++ (i, m.lookUp s.queue) :: after }
  | answersLate (s : World ι) (i : ι) (m : Message) (before after : List (ι × Message))
      (late : s.late = before ++ (i, m) :: after) (ready : m.Ready)
      (order : s.queue.leased.Iter) (now : Instant) (q : BuildQueue) (response : BuildQueueResponse)
      (answer : answerRequest s.queue order now (crypto.publicKey (key i)) m.request m.found.join =
        (q, response)) :
      WorkStep hashers crypto key s
        (.answers i ⟨m.number, m.request, response⟩
          (answerCall s.queue now (crypto.publicKey (key i)) m.request m.found.join) s.queue q)
        { s with late := before ++ after, queue := q }
  | reads (s : World ι) (i : ι) (reply : Reply) (requests : List Message) (replies : List Reply)
      (next : (s.worker i).link = some ⟨requests, reply :: replies⟩)
      (awaits : (s.worker i).phase.awaiting = true) :
      WorkStep hashers crypto key s (.reads i reply)
        (s.setWorker i { s.worker i with
          phase := (s.worker i).phase.afterRead reply.response, link := some ⟨requests, replies⟩ })

end IrohNix.Builder
