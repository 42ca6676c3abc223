import IrohNix.Control.PollRace
import IrohNix.Lib.Effects
import IrohNix.Lib.Service
import IrohNix.Nix.Protocol

namespace IrohNix.Control
open IrohNix.Lib IrohNix.Build IrohNix.Gossip IrohNix.Nix

/-- Maximum frame size: 1 MB. -/
def maxFrameSize : Nat := 1024 * 1024

/-- `serde_json` on one message type, with the texts of its errors. -/
structure SerdeJson (α : Type) where
  toVec : α → Except String Bytes
  fromSlice : Bytes → Except String α

structure ControlJson where
  request : SerdeJson ControlRequest
  response : SerdeJson ControlResponse

/-- The error of a `read_exact` that meets the end of a socket. -/
def earlyEof : Error := .io .other "early eof"

def cutShort : Option IoError → Error
  | none => earlyEof
  | some e => ioError e

/-- What a request sets off: a call on the queue, and a message to the gossip service. -/
structure ControlCall where
  queue : Option QueueEvent
  announced : Option GossipMessage

/-- The call on the queue that a request makes, with what it returns. -/
def controlCall (hashers : Hashers) (q : BuildQueue) (timestamp : UInt64) :
    ControlRequest → Option QueueEvent
  | .submitBuild drvPath system requiredFeatures inputPaths expectedOutputs =>
    let inputs := inputPaths.map fun ip => InputPath.mk ip.storePath ip.blake3
    let (_, jobId, shouldAnnounce) :=
      q.push hashers drvPath (system :: requiredFeatures) expectedOutputs inputs timestamp
    some (.push drvPath (system :: requiredFeatures) expectedOutputs inputs timestamp jobId
      shouldAnnounce)
  | .cancelBuild jobId =>
    (q.leased.get? ⟨jobId⟩).map fun leasedJob =>
      .fail ⟨jobId⟩ leasedJob.builder "cancelled by build-hook"
        (q.fail ⟨jobId⟩ leasedJob.builder "cancelled by build-hook").2
  | .pollBuild _ | .hasBuilders _ => none

/-- A request is handled on the queue as it is then, with the leases listed in any order.
Where it looks at the queue more than once, its earlier looks may be of any queue. -/
inductive ControlAnswers (hashers : Hashers) : BuildQueue → ControlRequest → ControlCall →
    ControlResponse → BuildQueue → Prop where
  | handled (q : BuildQueue) (first second : q.leased.Iter) (timestamp : UInt64)
      (request : ControlRequest) :
      ControlAnswers hashers q request
        ⟨controlCall hashers q timestamp request,
          (handleControlRequest hashers q first second timestamp request).announced⟩
        (handleControlRequest hashers q first second timestamp request).response
        (handleControlRequest hashers q first second timestamp request).queue
  | polled (q q₁ q₂ q₃ q₄ : BuildQueue) (first : q₁.leased.Iter) (second : q₃.leased.Iter)
      (jobId : UInt64) :
      ControlAnswers hashers q (.pollBuild jobId) ⟨none, none⟩
        (pollReads q₁ first q₂ q₃ second q₄ q jobId) q
  | cancelled (q : BuildQueue) (jobId : UInt64) (builder : EndpointId) :
      ControlAnswers hashers q (.cancelBuild jobId)
        ⟨some (.fail ⟨jobId⟩ builder "cancelled by build-hook"
          (q.fail ⟨jobId⟩ builder "cancelled by build-hook").2), none⟩
        (.buildStatus (.failed "cancelled")) (q.fail ⟨jobId⟩ builder "cancelled by build-hook").1

variable {ι : Type}

/-- `handle_control_connection`, on any number of sockets. The rest of the daemon has
calls of its own on the queue. -/
def handleControlConnection (hashers : Hashers) (json : ControlJson) :
    Service BuildQueue ι ControlCall IoError Error ControlRequest ControlResponse where
  limit := maxFrameSize
  tooLarge frameLen := .protocol ("control frame too large: " ++ toString frameLen ++ " bytes")
  lengthCut
    | none => .ok ()
    | some e => .error (ioError e)
  bodyCut := cutShort
  decode frameBuf := (json.request.fromSlice frameBuf).mapError fun e =>
    .protocol ("invalid control request: " ++ e)
  encode response := (json.response.toVec response).mapError fun e =>
    .protocol ("failed to serialize response: " ++ e)
  writeCut _ e := ioError e
  answers _ := ControlAnswers hashers
  own q call q' := call.announced = none ∧ ∃ e, call.queue = some e ∧ QueueStep hashers q e q'

namespace ControlClient

/-- The response to a request, and what is left on the socket. -/
def readResponse (json : ControlJson) (stream : Reader IoError) :
    Except Error (ControlResponse × Reader IoError) :=
  match front maxFrameSize stream.rest with
  | .noLength | .noBody _ => .error (cutShort stream.failure)
  | .tooLarge frameLen =>
    .error (.protocol ("response frame too large: " ++ toString frameLen ++ " bytes"))
  | .frame frameBuf rest =>
    ((json.response.fromSlice frameBuf).mapError fun e =>
      .protocol ("invalid control response: " ++ e)).map fun response =>
        (response, { stream with rest })

/-- Send a request and receive a response. -/
def request (json : ControlJson) (writeFails : Option IoError) (req : ControlRequest)
    (stream : Reader IoError) : Logged Bytes Error (ControlResponse × Reader IoError) := do
  let reqBytes ← .lift ((json.request.toVec req).mapError fun e =>
    .protocol ("failed to serialize request: " ++ e))
  match writeFails with
  | some e => .fail (ioError e)
  | none => do
    .perform (framed reqBytes)
    .lift (readResponse json stream)

/-- What requests made one after the other return, if all that comes back is this. -/
def readResponses (json : ControlJson) : Nat → Reader IoError →
    Except Error (List ControlResponse × Reader IoError)
  | 0, stream => .ok ([], stream)
  | n + 1, stream => do
    let (response, stream) ← readResponse json stream
    let (responses, stream) ← readResponses json n stream
    pure (response :: responses, stream)

end ControlClient

/-- A message whose text is read back, and is of acceptable size. -/
def Carried {α : Type} (json : SerdeJson α) (message : α) : Prop :=
  ∃ text, json.toVec message = .ok text ∧ json.fromSlice text = .ok message ∧
    text.length ≤ maxFrameSize

/-- What the client writes of a request. -/
def requestBytes (json : ControlJson) (req : ControlRequest) : Bytes :=
  match json.request.toVec req with
  | .error _ => []
  | .ok reqBytes => framed reqBytes

theorem maxFrameSize_small : maxFrameSize < 256 ^ 4 := by decide

theorem control_step (hashers : Hashers) {q q' : BuildQueue} {request : ControlRequest}
    {call : ControlCall} {response : ControlResponse}
    (answer : ControlAnswers hashers q request call response q') :
    (call.queue = none ∧ q' = q) ∨ ∃ e, call.queue = some e ∧ QueueStep hashers q e q' := by
  cases answer with
  | handled first second timestamp =>
    cases request with
    | submitBuild drvPath system requiredFeatures inputPaths expectedOutputs =>
      exact .inr ⟨_, rfl, .push q drvPath (system :: requiredFeatures) expectedOutputs _ timestamp⟩
    | pollBuild jobId => exact .inl ⟨rfl, rfl⟩
    | hasBuilders systemFeatures => exact .inl ⟨rfl, rfl⟩
    | cancelBuild jobId =>
      simp only [controlCall, handleControlRequest, cancelBuild, BuildQueue.listLeased,
        HashMap.Iter.find_key]
      cases hl : q.leased.get? (JobId.mk jobId) with
      | none => exact .inl ⟨rfl, rfl⟩
      | some leasedJob =>
        exact .inr ⟨_, rfl, .fail q ⟨jobId⟩ leasedJob.builder "cancelled by build-hook"⟩
  | polled => exact .inl ⟨rfl, rfl⟩
  | cancelled jobId builder =>
    exact .inr ⟨_, rfl, .fail q ⟨jobId⟩ builder "cancelled by build-hook"⟩

section Sessions

variable [DecidableEq ι] {hashers : Hashers} {json : ControlJson}

/-- The calls on the queue, in order. -/
def queueCalls (h : List (ServiceEvent ι ControlCall IoError Error ControlRequest
    ControlResponse)) : List QueueEvent := (Service.calls h).filterMap ControlCall.queue

theorem queue_run {ourId : EndpointId}
    {h : List (ServiceEvent ι ControlCall IoError Error ControlRequest ControlResponse)}
    {s : Served BuildQueue ι IoError Error}
    (run : Run (handleControlConnection hashers json).Step (Service.init (.new ourId)) h s) :
    QueueRun hashers ourId (queueCalls h) s.state := by
  refine (Service.state_run run).simulates id ControlCall.queue rfl ?_
  intro _ q call q' _ step
  rcases step with ⟨_, request, response, answer⟩ | ⟨_, e, made, step⟩
  · exact control_step hashers answer
  · exact .inr ⟨e, made, step⟩

omit [DecidableEq ι] in
theorem requestBytes_carried {req : ControlRequest} (carried : Carried json.request req) :
    ∃ text, requestBytes json req = framed text ∧ text.length ≤ maxFrameSize ∧
      (handleControlConnection (ι := ι) hashers json).decode text = .ok req := by
  obtain ⟨text, written, read, fits⟩ := carried
  refine ⟨text, by rw [requestBytes, written], fits, ?_⟩
  simp [handleControlConnection, read, Except.mapError]

omit [DecidableEq ι] in
/-- The client reads one response from its frame, and no byte behind it. -/
theorem readResponse_framed {response : ControlResponse} (carried : Carried json.response response)
    (more : Bytes) (failure : Option IoError) :
    ControlClient.readResponse json
      ⟨(handleControlConnection (ι := ι) hashers json).responseBytes response ++ more, failure⟩ =
        .ok (response, ⟨more, failure⟩) := by
  obtain ⟨text, written, read, fits⟩ := carried
  have bytes : (handleControlConnection (ι := ι) hashers json).responseBytes response =
      framed text := by
    simp [Service.responseBytes, handleControlConnection, written, Except.mapError]
  rw [bytes, ControlClient.readResponse, front_framed fits maxFrameSize_small]
  simp only [read]
  rfl

omit [DecidableEq ι] in
theorem readResponses_framed {responses : List ControlResponse}
    (carried : ∀ response ∈ responses, Carried json.response response) (more : Bytes)
    (failure : Option IoError) :
    ControlClient.readResponses json responses.length
      ⟨responses.flatMap (handleControlConnection (ι := ι) hashers json).responseBytes ++ more,
        failure⟩ = .ok (responses, ⟨more, failure⟩) := by
  induction responses with
  | nil => rfl
  | cons response responses ih =>
    rw [List.flatMap_cons, List.append_assoc, List.length_cons, ControlClient.readResponses,
      readResponse_framed (carried response (by simp)), except_ok_bind]
    simp only
    rw [ih fun r hr => carried r (by simp [hr])]
    rfl

/-- What a client gets back that sends these requests: some first ones are handled, and the
responses it reads are theirs. -/
def Answered (json : ControlJson) (sent : List ControlRequest)
    (handled : List (ControlRequest × ControlResponse)) (c : Conn IoError Error) : Prop :=
  handled.map Prod.fst <+: sent ∧
    ∀ n ≤ handled.length, (∀ e ∈ handled.take n, Carried json.response e.2) →
      (∀ e, c.returned ≠ some (.error e)) → ∀ failure, ∃ rest,
        ControlClient.readResponses json n ⟨c.written, failure⟩ =
          .ok ((handled.take n).map Prod.snd, rest)

/-- Any number of sockets, with any bytes on them, drive the queue by whole calls, each
socket's requests in order; a client of well-formed requests reads the answers to them. -/
theorem control_answered_in_order (hashers : Hashers) (json : ControlJson) (ourId : EndpointId)
    (h : List (ServiceEvent ι ControlCall IoError Error ControlRequest ControlResponse))
    (s : Served BuildQueue ι IoError Error)
    (run : Run (handleControlConnection hashers json).Step (Service.init (.new ourId)) h s) :
    QueueRun hashers ourId (queueCalls h) s.state ∧
      ∀ i, (handleControlConnection hashers json).InOrder i h (s.conn i) ∧
        ∀ sent : List ControlRequest, (∀ req ∈ sent, Carried json.request req) →
          Service.arrivedOn i h <+: sent.flatMap (requestBytes json) →
          Answered json sent (Service.handledOn i h) (s.conn i) := by
  refine ⟨queue_run run, fun i => ?_⟩
  have kept := Service.kept_run run i
  refine ⟨kept.inOrder, fun sent carried arrived => ⟨?_, ?_⟩⟩
  · have whole : (handleControlConnection (ι := ι) hashers json).requests
        (sent.flatMap (requestBytes json)) = sent :=
      Service.requests_sent maxFrameSize_small fun req hr => requestBytes_carried (carried req hr)
    exact kept.inOrder.handled.trans (whole ▸ Service.requests_prefix arrived)
  · intro n _ readable whole failure
    obtain ⟨later, written⟩ : ∃ later, (s.conn i).written =
        ((((Service.handledOn i h).take n).map Prod.snd).flatMap
          (handleControlConnection (ι := ι) hashers json).responseBytes) ++ later := by
      refine ⟨((Service.handledOn i h).drop n).flatMap fun e =>
        (handleControlConnection (ι := ι) hashers json).responseBytes e.2, ?_⟩
      rw [kept.whole whole, List.flatMap_map, ← List.flatMap_append, List.take_append_drop]
    have length : (((Service.handledOn i h).take n).map Prod.snd).length = n := by
      simp only [List.length_map, List.length_take]
      omega
    have read : ControlClient.readResponses json
        (((Service.handledOn i h).take n).map Prod.snd).length
        ⟨(((Service.handledOn i h).take n).map Prod.snd).flatMap
          (handleControlConnection (ι := ι) hashers json).responseBytes ++ later, failure⟩ =
        .ok (((Service.handledOn i h).take n).map Prod.snd, ⟨later, failure⟩) :=
      readResponses_framed (List.forall_mem_map.mpr readable) later failure
    rw [length, ← written] at read
    exact ⟨_, read⟩

end Sessions

section Asking

/-- The texts of one request and its answer. -/
def askText : Bytes := utf8 "\x7b\"HasBuilders\":\x7b\"system_features\":[]\x7d\x7d"

def answerText : Bytes := 
  utf8 "\x7b\"HasBuilders\":\x7b\"available\":true,\"count\":1\x7d\x7d"

/-- `serde_json` on these two. -/
def askJson : ControlJson where
  request := {
    toVec := fun
      | .hasBuilders [] => .ok askText
      | _ => .error "not written"
    fromSlice := fun text => if text = askText then .ok (.hasBuilders []) else .error "not read" }
  response := {
    toVec := fun
      | .hasBuilders true 1 => .ok answerText
      | _ => .error "not written"
    fromSlice := fun text =>
      if text = answerText then .ok (.hasBuilders true 1) else .error "not read" }

theorem ask_carried : Carried askJson.request (.hasBuilders []) :=
  ⟨askText, rfl, by simp [askJson], by decide⟩

theorem answer_carried : Carried askJson.response (.hasBuilders true 1) :=
  ⟨answerText, rfl, by simp [askJson], by decide⟩

/-- One client asks for builders, in two pieces, and is answered. -/
theorem ask_run : ∃ h s, Run (handleControlConnection (ι := Unit) zeroHashers askJson).Step
    (Service.init (.new ⟨zeroBytes32⟩)) h s ∧ Service.arrivedOn () h = framed askText ∧
      Service.handledOn () h = [(.hasBuilders [], .hasBuilders true 1)] ∧
      (s.conn ()).returned = none := by
  obtain ⟨order⟩ := HashMap.iter_exists (BuildQueue.new ⟨zeroBytes32⟩).leased
  have start : Run (handleControlConnection (ι := Unit) zeroHashers askJson).Step
    (Service.init (.new ⟨zeroBytes32⟩)) [] _ := .nil
  have asked : ControlAnswers zeroHashers (.new ⟨zeroBytes32⟩) (.hasBuilders []) ⟨none, none⟩
    (.hasBuilders true 1) (.new ⟨zeroBytes32⟩) := .handled _ order order 0 (.hasBuilders [])
  have decoded : (handleControlConnection (ι := Unit) zeroHashers askJson).decode askText =
    .ok (.hasBuilders []) := by simp [handleControlConnection, askJson, Except.mapError]
  have encoded : (handleControlConnection (ι := Unit) zeroHashers askJson).encode
    (.hasBuilders true 1) = .ok answerText := rfl
  obtain ⟨s, run, _, quiet, _⟩ := Service.exchange start () ⟨rfl, rfl, rfl⟩ askText (by decide)
    maxFrameSize_small decoded asked encoded
  exact ⟨_, s, run, by simp [Service.arrivedOn], rfl, quiet.running⟩

/-- The client reads the answer to what it asked. -/
theorem ask_answered : ∃ s : Served BuildQueue Unit IoError Error, ∃ rest,
    ControlClient.readResponses askJson 1 ⟨(s.conn ()).written, none⟩ =
      .ok ([.hasBuilders true 1], rest) := by
  obtain ⟨h, s, run, arrived, handled, running⟩ := ask_run
  have answered := ((control_answered_in_order zeroHashers askJson ⟨zeroBytes32⟩ h s run).2 ()).2
    [.hasBuilders []] (by simpa using ask_carried) (by simp [arrived, requestBytes, askJson])
  rw [handled] at answered
  refine ⟨s, answered.2 1 (by simp) (by simpa using answer_carried) (by simp [running]) none⟩

end Asking

end IrohNix.Control
