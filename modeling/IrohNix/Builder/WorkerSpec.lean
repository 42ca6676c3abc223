import IrohNix.Builder.Worker

namespace IrohNix.Builder
open IrohNix.Lib IrohNix.Build

variable {ι : Type}

section Answer

variable {q q' : BuildQueue} {order : q.leased.Iter} {now : Instant} {builder : EndpointId}
  {request : BuildQueueRequest} {response : BuildQueueResponse} {found : Option LeasedJob}

/-- Everything but a completion is answered in one turn. -/
theorem answer_other (other : ∀ jobId outputs r s, request ≠ .complete jobId outputs r s) :
    answerRequest q order now builder request found =
      handleBuildQueueRequest q order now builder request := by
  cases request with
  | complete jobId outputs r s => exact absurd rfl (other jobId outputs r s)
  | pull | heartbeat | buildLog | fail => rfl

theorem answerCall_other (other : ∀ jobId outputs r s, request ≠ .complete jobId outputs r s) :
    answerCall q now builder request found = some (requestCall q now builder request) := by
  cases request with
  | complete jobId outputs r s => exact absurd rfl (other jobId outputs r s)
  | pull | heartbeat | buildLog | fail => rfl

/-- An answer makes the one call on the queue that it names, or none. -/
theorem answer_step (hashers : Hashers)
    (h : answerRequest q order now builder request found = (q', response)) :
    (answerCall q now builder request found = none ∧ q' = q) ∨
      ∃ e, answerCall q now builder request found = some e ∧ QueueStep hashers q e q' := by
  by_cases other : ∀ jobId outputs r s, request ≠ .complete jobId outputs r s
  · have same : answerRequest q order now builder request found =
        handleBuildQueueRequest q order now builder request := answer_other other
    have called : answerCall q now builder request found =
        some (requestCall q now builder request) := answerCall_other other
    have step := handle_request_step hashers q order now builder request
    rw [← same, h] at step
    exact .inr ⟨_, called, step⟩
  · simp only [not_forall, ne_eq, Classical.not_not] at other
    obtain ⟨jobId, outputs, r, s, rfl⟩ := other
    cases found with
    | none =>
      cases h
      exact .inl ⟨rfl, rfl⟩
    | some lease =>
      have moved : (q.complete ⟨jobId⟩ builder
          (completedResult lease builder jobId outputs r s)).1 = q' := by
        simp only [answerRequest] at h
        split at h <;> rename_i hc <;> cases h <;> rw [hc]
      exact .inr ⟨_, rfl, moved ▸ .complete q _ builder _⟩

/-- A job that is handed out was pending and is then leased to the builder. -/
theorem answer_job {features : List String} {streamLogs : Bool}
    (h : answerRequest q order now builder (.pull features streamLogs) found = (q', response)) :
    response = .noJob ∨ ∃ job ∈ q.pending, response = jobResponse job ∧
      ∃ lease, q'.leased.get? job.id = some lease ∧ lease.job = job ∧ lease.builder = builder := by
  simp only [answerRequest, handleBuildQueueRequest] at h
  rcases q.pull_cases builder features now with ⟨_, hq⟩ | ⟨before, job, after, hp, _, _, hq⟩
  · rw [hq] at h
    cases h
    exact .inl rfl
  · rw [hq] at h
    cases h
    refine .inr ⟨job, by simp [hp], rfl, _, HashMap.get_insert_self .., rfl, rfl⟩

/-- A completion is acknowledged when it takes the lease of the builder, and then
what is stored is the result reported. -/
theorem answer_completeAck
    (h : answerRequest q order now builder request found = (q', .completeAck)) :
    ∃ jobId outputs r s looked lease, request = .complete jobId outputs r s ∧
      found = some looked ∧ q.leased.get? ⟨jobId⟩ = some lease ∧ lease.builder = builder ∧
      q' = { q with
        leased := q.leased.erase ⟨jobId⟩
        pendingFetch := q.pendingFetch ++ [completedResult looked builder jobId outputs r s]
        completed := q.completed.insert lease.job.drvHash
          (.completed (completedResult looked builder jobId outputs r s)) } := by
  cases request with
  | complete jobId outputs r s =>
    cases found with
    | none => cases h
    | some looked =>
      simp only [answerRequest] at h
      rcases q.complete_cases ⟨jobId⟩ builder (completedResult looked builder jobId outputs r s) with
        ⟨hq, _⟩ | ⟨lease, hl, hb, hq⟩
      · rw [hq] at h
        cases h
      · rw [hq] at h
        cases h
        exact ⟨jobId, outputs, r, s, looked, lease, rfl, rfl, hl, hb, rfl⟩
  | pull features streamLogs =>
    rcases answer_job h with hr | ⟨job, _, hr, _⟩ <;> cases hr
  | heartbeat jobId status =>
    simp only [answerRequest, handleBuildQueueRequest] at h
    split at h <;> cases h
  | buildLog jobId data stream => cases h
  | fail jobId error =>
    simp only [answerRequest, handleBuildQueueRequest] at h
    split at h <;> cases h

end Answer

namespace Phase

variable {crypto : Ed25519} {key : crypto.SecretKey} {phase phase' : Phase}
  {request : BuildQueueRequest}

theorem Sends.quiet (sends : Sends crypto key phase request phase') : phase.awaiting = false := by
  cases sends <;> rfl

theorem Sends.awaits (sends : Sends crypto key phase request phase') : phase'.awaiting = true := by
  cases sends <;> rfl

/-- A worker that asks for a job has none, and otherwise it keeps the one it has. -/
theorem Sends.context (sends : Sends crypto key phase request phase') :
    phase'.context = phase.context := by
  cases sends <;> rfl

theorem Sends.awaitJob (sends : Sends crypto key phase request .awaitJob) :
    ∃ features streamLogs, request = .pull features streamLogs := by
  cases sends with
  | pull features streamLogs => exact ⟨features, streamLogs, rfl⟩

/-- A completion is of the result the worker signed for its job. -/
theorem Sends.complete_inv {jobId : UInt64} {outputs : List BuildOutputProto} {r s : Bytes32}
    (sends : Sends crypto key phase (.complete jobId outputs r s) phase') :
    ∃ ctx built,
      phase' = .awaitComplete ctx (signBuildResult crypto key ⟨ctx.jobId⟩ ctx.drvHash built) ∧
      BuildQueueRequest.complete jobId outputs r s =
        completeRequest (signBuildResult crypto key ⟨ctx.jobId⟩ ctx.drvHash built) := by
  generalize hr : BuildQueueRequest.complete jobId outputs r s = request at sends
  cases sends with
  | complete ctx built signed signs => exact ⟨ctx, built, signs ▸ rfl, signs ▸ rfl⟩
  | pull | heartbeat | buildLog | fail => cases hr

theorem afterRead_quiet (awaits : phase.awaiting = true) (response : BuildQueueResponse) :
    (phase.afterRead response).awaiting = false := by
  cases phase with
  | awaitJob | awaitComplete => cases response <;> rfl
  | awaitAck | awaitFail => rfl
  | idle | pulling | working | failing => cases awaits

/-- A worker has a job from before, or the one it has just been handed. -/
theorem afterRead_context {response : BuildQueueResponse} {ctx : JobContext}
    (h : (phase.afterRead response).context = some ctx) :
    phase.context = some ctx ∨ phase = .awaitJob ∧ ∃ drvHash drvPath outputs inputPaths,
      response = .job ctx.jobId drvHash drvPath outputs inputPaths ∧ ctx.drvHash = ⟨drvHash⟩ := by
  cases phase with
  | awaitJob =>
    cases response with
    | job jobId drvHash drvPath outputs inputPaths =>
      cases h
      exact .inr ⟨rfl, drvHash, drvPath, outputs, inputPaths, rfl, rfl⟩
    | noJob | heartbeatAck | completeAck | failAck | logAck | error => cases h
  | awaitComplete ctx' signed =>
    cases response with
    | completeAck => cases h
    | job | noJob | heartbeatAck | failAck | logAck | error => exact .inl h
  | awaitFail => cases h
  | idle | pulling | working | awaitAck | failing => exact .inl h

theorem afterError_context {ctx : JobContext} (h : phase.afterError.context = some ctx) :
    phase.context = some ctx := by
  cases phase with
  | working | awaitAck | awaitComplete => exact h
  | idle | pulling | awaitJob | failing | awaitFail => cases h

theorem giveUp_context {ctx : JobContext} (h : phase.giveUp.context = some ctx) :
    phase.context = some ctx := by
  cases phase with
  | pulling => cases h
  | idle | awaitJob | working | awaitAck | awaitComplete | failing | awaitFail => exact h

/-- A worker that waits does not give up on its own. -/
theorem giveUp_awaiting (awaits : phase.giveUp.awaiting = true) : phase.giveUp = phase := by
  cases phase with
  | pulling | working => cases awaits
  | idle | awaitJob | awaitAck | awaitComplete | failing | awaitFail => rfl

theorem giveUp_quiet (quiet : phase.giveUp.awaiting = false) : phase.awaiting = false := by
  cases phase with
  | pulling | working => rfl
  | idle | awaitJob | awaitAck | awaitComplete | failing | awaitFail => exact quiet

end Phase

/-- The message is on its way, on a connection or from one that broke. -/
def World.InFlight (s : World ι) (m : Message) : Prop :=
  (∃ i link, (s.worker i).link = some link ∧ m ∈ link.requests) ∨ ∃ i, (i, m) ∈ s.late

variable [DecidableEq ι]

/-- Other workers are left alone. -/
@[simp] theorem World.setWorker_worker (s : World ι) (i j : ι) (w : Worker) :
    (s.setWorker i w).worker j = if j = i then w else s.worker j := by
  by_cases hj : j = i
  · subst hj
    simp [World.setWorker]
  · simp [World.setWorker, hj]

@[simp] theorem World.setWorker_queue (s : World ι) (i : ι) (w : Worker) :
    (s.setWorker i w).queue = s.queue := rfl

@[simp] theorem World.setWorker_late (s : World ι) (i : ι) (w : Worker) :
    (s.setWorker i w).late = s.late := rfl

@[simp] theorem World.disconnect_queue (s : World ι) (i : ι) :
    (s.disconnect i).queue = s.queue := by
  unfold World.disconnect
  split <;> rfl

theorem World.disconnect_worker (s : World ι) (i j : ι) :
    (s.disconnect i).worker j = { s.worker j with link := if j = i then none
      else (s.worker j).link } := by
  unfold World.disconnect
  cases hl : (s.worker i).link with
  | some link => by_cases hj : j = i <;> simp [hj]
  | none =>
    by_cases hj : j = i
    · subst hj
      simp [← hl]
    · simp [hj]

@[simp] theorem World.send_queue (s : World ι) (i : ι) (request : BuildQueueRequest)
    (phase : Phase) : (s.send i request phase).queue = s.queue := by
  cases hl : (s.worker i).link <;> simp [World.send, hl]

theorem World.send_late (s : World ι) (i : ι) (request : BuildQueueRequest) (phase : Phase) :
    (s.send i request phase).late = s.late ++
      if (s.worker i).link = none then [(i, ⟨(s.worker i).sent, request, none⟩)] else [] := by
  cases hl : (s.worker i).link <;> simp [World.send, hl]

theorem World.disconnect_late (s : World ι) (i : ι) :
    (s.disconnect i).late = s.late ++
      ((s.worker i).link.map fun link => link.requests.map fun m => (i, m)).getD [] := by
  cases hl : (s.worker i).link <;> simp [World.disconnect, hl]

theorem World.send_worker (s : World ι) (i j : ι) (request : BuildQueueRequest) (phase : Phase) :
    (s.send i request phase).worker j = if j = i then
      { phase, sent := (s.worker i).sent + 1
        link := (s.worker i).link.map fun link =>
          { link with requests := link.requests ++ [⟨(s.worker i).sent, request, none⟩] } }
      else s.worker j := by
  unfold World.send
  cases hl : (s.worker i).link <;> by_cases hj : j = i <;> simp [hj, hl]

/-- The worker an event is of. -/
def WorkEvent.worker : WorkEvent ι → Option ι
  | .own _ => none
  | .sends i .. | .answers i .. | .reads i _ | .moves i => some i

/-- A step is of one worker at most, and leaves the others as they are. -/
theorem other_worker {hashers : Hashers} {crypto : Ed25519} {key : ι → crypto.SecretKey}
    {s t : World ι} {e : WorkEvent ι} (step : WorkStep hashers crypto key s e t) {j : ι}
    (other : e.worker ≠ some j) : t.worker j = s.worker j := by
  cases step with
  | own | looksUpLate | answersLate => rfl
  | answers i =>
    have hj : j ≠ i := fun h => other (congrArg some h.symm)
    exact (s.setWorker_worker i j _).trans (if_neg hj)
  | connects i | breaks i | fails i | givesUp i | sends i | looksUp i | reads i =>
    have hj : j ≠ i := fun h => other (congrArg some h.symm)
    simp [World.connect, World.setPhase, World.disconnect_worker, World.send_worker, hj]

theorem World.InFlight.of_disconnect {s : World ι} {i : ι} {m : Message}
    (h : (s.disconnect i).InFlight m) : s.InFlight m := by
  rcases h with ⟨j, link, hl, hm⟩ | ⟨j, hm⟩
  · rw [disconnect_worker] at hl
    by_cases hj : j = i
    · simp [hj] at hl
    · exact .inl ⟨j, link, by simpa [hj] using hl, hm⟩
  · rw [disconnect_late] at hm
    cases hl : (s.worker i).link with
    | none => exact .inr ⟨j, by simpa [hl] using hm⟩
    | some link =>
      rcases List.mem_append.mp hm with hm | hm
      · exact .inr ⟨j, hm⟩
      · simp only [hl, Option.map_some, Option.getD_some, List.mem_map, Prod.mk.injEq] at hm
        obtain ⟨m', hm', _, rfl⟩ := hm
        exact .inl ⟨i, link, hl, hm'⟩

/-- A worker may change while what it sent stays on its way or is taken off. -/
theorem World.InFlight.of_setWorker {s : World ι} {i : ι} {w : Worker} {m : Message}
    (h : (s.setWorker i w).InFlight m)
    (kept : ∀ link, w.link = some link → m ∈ link.requests → s.InFlight m) : s.InFlight m := by
  rcases h with ⟨j, link, hl, hm⟩ | ⟨j, hm⟩
  · rw [setWorker_worker] at hl
    by_cases hj : j = i
    · exact kept link (by simpa [hj] using hl) hm
    · exact .inl ⟨j, link, by simpa [hj] using hl, hm⟩
  · exact .inr ⟨j, hm⟩

/-- Requests come onto the way without a lease, and get one from the queue. -/
theorem inFlight_step {hashers : Hashers} {crypto : Ed25519} {key : ι → crypto.SecretKey}
    {s t : World ι} {e : WorkEvent ι} (step : WorkStep hashers crypto key s e t) {m : Message}
    (h : t.InFlight m) :
    s.InFlight m ∨ m.found = none ∨ ∃ m₀ : Message, m = m₀.lookUp s.queue := by
  cases step with
  | own call q isOwn step => exact .inl h
  | connects i idle =>
    exact .inl (h.of_setWorker fun link hl hm => by cases hl; cases hm).of_disconnect
  | breaks i => exact .inl h.of_disconnect
  | fails i broken => exact .inl (h.of_setWorker fun link hl hm => .inl ⟨i, link, hl, hm⟩)
  | givesUp i => exact .inl (h.of_setWorker fun link hl hm => .inl ⟨i, link, hl, hm⟩)
  | sends i request phase may =>
    rcases h with ⟨j, link, hl, hm⟩ | ⟨j, hm⟩
    · rw [World.send_worker] at hl
      by_cases hj : j = i
      · rw [if_pos hj] at hl
        obtain ⟨link', hl', rfl⟩ := Option.map_eq_some_iff.mp hl
        rcases List.mem_append.mp hm with hm | hm
        · exact .inl (.inl ⟨i, link', hl', hm⟩)
        · exact .inr (.inl (by rw [List.mem_singleton.mp hm]))
      · exact .inl (.inl ⟨j, link, by simpa [hj] using hl, hm⟩)
    · rw [World.send_late] at hm
      rcases List.mem_append.mp hm with hm | hm
      · exact .inl (.inr ⟨j, hm⟩)
      · split at hm
        · cases List.mem_singleton.mp hm
          exact .inr (.inl rfl)
        · cases hm
  | looksUp i m₀ rest replies next =>
    by_cases hm₀ : m = m₀.lookUp s.queue
    · exact .inr (.inr ⟨m₀, hm₀⟩)
    · refine .inl (h.of_setWorker fun link hl hm => .inl ⟨i, _, next, ?_⟩)
      cases hl
      exact List.mem_cons_of_mem _ ((List.mem_cons.mp hm).resolve_left hm₀)
  | answers i m₀ rest replies next ready order now q response answer =>
    have h : (s.setWorker i _).InFlight m := h
    refine .inl (h.of_setWorker fun link hl hm => .inl ⟨i, _, next, ?_⟩)
    cases hl
    exact List.mem_cons_of_mem _ hm
  | looksUpLate i m₀ before after late =>
    rcases h with ⟨j, link, hl, hm⟩ | ⟨j, hm⟩
    · exact .inl (.inl ⟨j, link, hl, hm⟩)
    · simp only [List.mem_append, List.mem_cons, Prod.mk.injEq] at hm
      rcases hm with hm | ⟨_, hm⟩ | hm
      · exact .inl (.inr ⟨j, by simp [late, hm]⟩)
      · exact .inr (.inr ⟨m₀, hm⟩)
      · exact .inl (.inr ⟨j, by simp [late, hm]⟩)
  | answersLate i m₀ before after late ready order now q response answer =>
    rcases h with ⟨j, link, hl, hm⟩ | ⟨j, hm⟩
    · exact .inl (.inl ⟨j, link, hl, hm⟩)
    · refine .inl (.inr ⟨j, ?_⟩)
      rcases List.mem_append.mp hm with hm | hm <;> simp [late, hm]
  | reads i reply requests replies next awaits =>
    refine .inl (h.of_setWorker fun link hl hm => .inl ⟨i, _, next, ?_⟩)
    cases hl
    exact hm

end IrohNix.Builder
