import IrohNix.Builder.Agreement

namespace IrohNix.Builder
open IrohNix.Lib IrohNix.Build

variable {ι : Type}

/-- The job whose end a reply acknowledges. -/
def Reply.acknowledged (reply : Reply) : Option JobId :=
  match reply.request, reply.response with
  | .complete jobId _ _ _, .completeAck | .fail jobId _, .failAck => some ⟨jobId⟩
  | _, _ => none

/-- The job moves from leased, to this builder, to completed with this result, and
nothing else in the queue changes. -/
def Completes (builder : EndpointId) (job : BuildJob) (result : BuildResult)
    (before after : BuildQueue) : Prop :=
  (∃ lease, before.leased.get? job.id = some lease ∧ lease.job = job ∧ lease.builder = builder) ∧
    after = { before with
      leased := before.leased.erase job.id
      pendingFetch := before.pendingFetch ++ [result]
      completed := before.completed.insert job.drvHash (.completed result) }

/-- The reply is to the request the worker sent last, and it is the handler's. -/
def AnswersLast [DecidableEq ι] (h : List (WorkEvent ι)) (i : ι) (reply : Reply) : Prop :=
  lastSent i h = some (reply.number, reply.request) ∧
    ∃ call before after, .answers i reply call before after ∈ h

/-- A worker that reads `CompleteAck` was leased the job by a Pull of its own, and the
handler completed the job with the very result the worker signed, which verifies. -/
def CompletionAgrees (crypto : Ed25519) (key : crypto.SecretKey) (h : List (WorkEvent ι)) (i : ι)
    (phase : Phase) (reply : Reply) : Prop :=
  ∃ job ctx built call before after,
    let signed := signBuildResult crypto key job.id job.drvHash built
    phase = .awaitComplete ctx signed ∧ reply.request = completeRequest signed ∧
    LeasedByPull h i (crypto.publicKey key) job ∧ .answers i reply call before after ∈ h ∧
    Completes (crypto.publicKey key) job signed before after ∧
    verifyBuildResult crypto signed = true

/-- What a worker is about to read agrees with what the requester did, and nobody else
has read that the same job ended. -/
def OutcomeAgrees (crypto : Ed25519) (key : ι → crypto.SecretKey) (h : List (WorkEvent ι))
    (s : World ι) (i : ι) (reply : Reply) : Prop :=
  (reply.response = .completeAck →
      CompletionAgrees crypto (key i) h i (s.worker i).phase reply) ∧
    ∀ j reply' jobId, .reads j reply' ∈ h → reply'.acknowledged = some jobId →
      reply.acknowledged = some jobId → j = i

theorem toBuildOutput_ofBuildOutput (outputs : List BuildOutput) :
    (outputs.map BuildOutputProto.ofBuildOutput).map BuildOutputProto.toBuildOutput = outputs := by
  simp [Function.comp_def, BuildOutputProto.ofBuildOutput, BuildOutputProto.toBuildOutput]

/-- The handler rebuilds the result from the lease and the connection as it was signed. -/
theorem completedResult_signed {crypto : Ed25519} {key : crypto.SecretKey} {lease : LeasedJob}
    {jobId : UInt64} {outputs : List BuildOutput} :
    let signed := signBuildResult crypto key ⟨jobId⟩ lease.job.drvHash outputs
    completedResult lease (crypto.publicKey key) jobId
      (signed.outputs.map BuildOutputProto.ofBuildOutput) signed.signatureR signed.signatureS =
        signed := by
  simp only [completedResult, toBuildOutput_ofBuildOutput]
  rfl

/-- An acknowledged completion takes a lease of the builder's on the job it names. -/
theorem completes_of_ack {jobs : List BuildJob} {q q' : BuildQueue} {order : q.leased.Iter}
    {now : Instant} {builder : EndpointId} {request : BuildQueueRequest} {found : Option LeasedJob}
    (of : OfJobs jobs q)
    (answer : answerRequest q order now builder request found = (q', .completeAck)) :
    ∃ jobId outputs r s lease job, request = .complete jobId outputs r s ∧ found = some lease ∧
      job ∈ jobs ∧ job.id = ⟨jobId⟩ ∧
      Completes builder job (completedResult lease builder jobId outputs r s) q q' := by
  obtain ⟨jobId, outputs, r, s, looked, lease, hr, hf, hl, hb, hq⟩ := answer_completeAck answer
  obtain ⟨hj, hid⟩ := of.leased _ lease hl
  refine ⟨jobId, outputs, r, s, looked, lease.job, hr, hf, hj, hid, ⟨lease, ?_, rfl, hb⟩, ?_⟩
  · rw [hid, hl]
  · rw [hq, hid]

/-- An acknowledged end is a call that ended the job. -/
theorem answerCall_finished {q q' : BuildQueue} {order : q.leased.Iter} {now : Instant}
    {builder : EndpointId} {number : Nat} {request : BuildQueueRequest}
    {response : BuildQueueResponse} {found : Option LeasedJob} {jobId : JobId}
    (answer : answerRequest q order now builder request found = (q', response))
    (h : Reply.acknowledged ⟨number, request, response⟩ = some jobId) :
    (answerCall q now builder request found).bind QueueEvent.finished = some jobId := by
  cases request with
  | complete j outputs r s =>
    cases response <;> simp only [Reply.acknowledged, reduceCtorEq, Option.some.injEq] at h
    subst h
    cases found with
    | none => cases answer
    | some lease =>
      simp only [answerRequest] at answer
      split at answer
      · rename_i hc
        simp [answerCall, hc, QueueEvent.finished]
      · cases answer
  | fail j error =>
    cases response <;> simp only [Reply.acknowledged, reduceCtorEq, Option.some.injEq] at h
    subst h
    simp only [answerRequest, handleBuildQueueRequest] at answer
    split at answer
    · rename_i hc
      simp [answerCall, requestCall, hc, QueueEvent.finished]
    · cases answer
  | pull | heartbeat | buildLog => simp [Reply.acknowledged] at h

section Sole

variable {hashers : Hashers} {crypto : Ed25519} {key : Unit → crypto.SecretKey}
  {ourId : EndpointId} {h : List (WorkEvent Unit)} {q q' : BuildQueue} {n : Nat}
  {late : List (Unit × Message)}

/-- A requester with one worker. -/
def sole (queue : BuildQueue) (worker : Worker) (late : List (Unit × Message)) : World Unit :=
  ⟨queue, fun _ => worker, late⟩

/-- The worker connects, asks for a job that is pending, and is handed it. -/
theorem sole_pulls {job : BuildJob}
    (run : Run (WorkStep hashers crypto key) (World.new ourId) h (sole q ⟨.idle, none, n⟩ late))
    (answer : q.pull (crypto.publicKey (key ())) [] 0 = (q', some job)) :
    ∃ call, Run (WorkStep hashers crypto key) (World.new ourId)
      (h ++ [.moves ()] ++ [.sends () n (.pull [] false)] ++
        [.answers () ⟨n, .pull [] false, jobResponse job⟩ call q q'] ++
        [.reads () ⟨n, .pull [] false, jobResponse job⟩])
      (sole q' ⟨.working ⟨job.id.val, job.drvHash⟩, some ⟨[], []⟩, n + 1⟩ late) := by
  obtain ⟨order⟩ := HashMap.iter_exists q.leased
  have connected : Run _ _ _ (sole q ⟨.pulling, some ⟨[], []⟩, n⟩ late) :=
    run.snoc (.connects _ () rfl)
  have asked : Run _ _ _ (sole q ⟨.awaitJob, some ⟨[⟨n, .pull [] false, none⟩], []⟩, n + 1⟩ late) :=
    connected.snoc (.sends _ () _ _ (.pull [] false))
  have handed : answerRequest q order 0 (crypto.publicKey (key ())) (.pull [] false) none =
      (q', jobResponse job) := by
    simp [answerRequest, handleBuildQueueRequest, answer]
  have answered : Run _ _ _ (sole q' ⟨.awaitJob, some ⟨[], [⟨n, _, _⟩]⟩, n + 1⟩ late) :=
    asked.snoc (.answers _ () ⟨n, .pull [] false, none⟩ [] [] rfl (by simp [Message.Ready]) order 0
      q' _ handed)
  exact ⟨_, answered.snoc (.reads _ () _ _ _ rfl rfl)⟩

/-- The worker reports a result for the job of a lease it holds. -/
theorem sole_completes {ctx : JobContext} {lease : LeasedJob}
    (run : Run (WorkStep hashers crypto key) (World.new ourId) h
      (sole q ⟨.working ctx, some ⟨[], []⟩, n⟩ late))
    (held : q.leased.get? ⟨ctx.jobId⟩ = some lease)
    (builder : lease.builder = crypto.publicKey (key ())) :
    let signed := signBuildResult crypto (key ()) ⟨ctx.jobId⟩ ctx.drvHash []
    ∃ call q', Run (WorkStep hashers crypto key) (World.new ourId)
      (h ++ [.sends () n (completeRequest signed)] ++ [.moves ()] ++
        [.answers () ⟨n, completeRequest signed, .completeAck⟩ call q q'])
      (sole q' ⟨.awaitComplete ctx signed,
        some ⟨[], [⟨n, completeRequest signed, .completeAck⟩]⟩, n + 1⟩ late) := by
  intro signed
  obtain ⟨order⟩ := HashMap.iter_exists q.leased
  have reported : Run _ _ _ (sole q
      ⟨.awaitComplete ctx signed, some ⟨[⟨n, completeRequest signed, none⟩], []⟩, n + 1⟩ late) :=
    run.snoc (.sends _ () _ _ (.complete ctx [] signed rfl))
  have found : Message.lookUp q ⟨n, completeRequest signed, none⟩ =
      ⟨n, completeRequest signed, some (some lease)⟩ := by
    simp only [Message.lookUp, completeRequest, lookUp]
    rw [show signed.jobId.val = ctx.jobId from rfl, held]
  have looked : Run (WorkStep hashers crypto key) (World.new ourId)
      (h ++ [.sends () n (completeRequest signed)] ++ [.moves ()])
      (sole q ⟨.awaitComplete ctx signed,
        some ⟨[⟨n, completeRequest signed, some (some lease)⟩], []⟩, n + 1⟩ late) :=
    found ▸ reported.snoc (.looksUp _ () _ _ _ rfl)
  obtain ⟨q', accepted⟩ : ∃ q', q.complete ⟨ctx.jobId⟩ (crypto.publicKey (key ()))
      (completedResult lease (crypto.publicKey (key ())) ctx.jobId [] signed.signatureR
        signed.signatureS) = (q', true) := by
    rcases q.complete_cases ⟨ctx.jobId⟩ (crypto.publicKey (key ())) _ with
      ⟨_, refused⟩ | ⟨_, _, _, accepted⟩
    · exact absurd builder (refused lease held)
    · exact ⟨_, accepted⟩
  have answer : answerRequest q order 0 (crypto.publicKey (key ())) (completeRequest signed)
      (some lease) = (q', .completeAck) := by
    simp only [answerRequest, completeRequest]
    rw [show signed.jobId.val = ctx.jobId from rfl, show signed.outputs = [] from rfl,
      List.map_nil, accepted]
  exact ⟨_, _, looked.snoc (.answers _ () ⟨n, completeRequest signed, some (some lease)⟩ [] [] rfl
    (by simp [Message.Ready]) order 0 _ _ answer)⟩

theorem sole_push {w : Worker} (drvPath : String) (features : List String)
    (run : Run (WorkStep hashers crypto key) (World.new ourId) h (sole q w late)) :
    ∃ call, Run (WorkStep hashers crypto key) (World.new ourId) (h ++ [.own call])
      (sole (q.push hashers drvPath features [] [] 0).1 w late) :=
  ⟨_, run.snoc (.own _ _ _ rfl (.push q drvPath features [] [] 0))⟩

/-- Jobs that no plain builder can take are submitted, any number of times. -/
theorem sole_pushes {w : Worker} (k : Nat)
    (run : Run (WorkStep hashers crypto key) (World.new ourId) h (sole q w late)) :
    ∃ pushes q' more, Run (WorkStep hashers crypto key) (World.new ourId) (h ++ pushes)
      (sole q' w late) ∧ (∀ e ∈ pushes, ∃ call, e = .own call) ∧ q'.leased = q.leased ∧
      q'.nextJobId = q.nextJobId + UInt64.ofNat k ∧ q'.pending = q.pending ++ more ∧
      ∀ job ∈ more, job.offeredBy [] = false := by
  induction k with
  | zero => exact ⟨[], q, [], by simpa using run, by simp, rfl, by simp, by simp, by simp⟩
  | succ k ih =>
    obtain ⟨pushes, q', more, run', own, hleased, hnext, hpending, needs⟩ := ih
    obtain ⟨call, step⟩ := sole_push "/nix/store/vm.drv" ["kvm"] run'
    refine ⟨pushes ++ [.own call], (q'.push hashers "/nix/store/vm.drv" ["kvm"] [] [] 0).1,
      more ++ [q'.newJob hashers "/nix/store/vm.drv" ["kvm"] [] [] 0],
      List.append_assoc _ _ _ ▸ step, ?_, hleased, ?_, ?_, ?_⟩
    · intro e he
      rcases List.mem_append.mp he with he | he
      · exact own e he
      · exact ⟨call, List.mem_singleton.mp he⟩
    · simp only [BuildQueue.push, hnext, UInt64.add_assoc, UInt64.ofNat_add]
      rfl
    · simp only [BuildQueue.push, hpending, List.append_assoc]
    · intro job hj
      rcases List.mem_append.mp hj with hj | hj
      · exact needs job hj
      · rw [List.mem_singleton.mp hj]
        rfl

/-- Of jobs that only the last of can be taken, that one is handed out. -/
theorem pull_last (q : BuildQueue) (before : List BuildJob) (job : BuildJob)
    (features : List String) (pending : q.pending = before ++ [job])
    (needs : ∀ j ∈ before, j.offeredBy features = false)
    (offered : job.offeredBy features = true) (builder : EndpointId) (now : Instant) :
    q.pull builder features now =
      ({ q with
          pending := before
          leased := q.leased.insert job.id ⟨job, builder, now, now, "starting"⟩ },
        some job) := by
  have first := q.pull_first pending needs offered builder now
  rwa [List.append_nil] at first

end Sole

section Run

variable [DecidableEq ι] {hashers : Hashers} {crypto : Ed25519} {key : ι → crypto.SecretKey}
  {ourId : EndpointId} {h : List (WorkEvent ι)} {s t : World ι}

/-- While identifiers are distinct, one answer at most acknowledges the end of a job. -/
theorem Agreement.acknowledged_once (a : Agreement hashers crypto key ourId h s)
    (hb : (jobsPushed hashers h).length < 2 ^ 64) {i j : ι} {reply reply' : Reply}
    {call call' : Option QueueEvent} {before after before' after' : BuildQueue} {jobId : JobId}
    (he : .answers i reply call before after ∈ h) (he' : .answers j reply' call' before' after' ∈ h)
    (ack : reply.acknowledged = some jobId) (ack' : reply'.acknowledged = some jobId) : j = i := by
  by_contra hne
  have ended : ∀ {k : ι} {reply : Reply} {call : Option QueueEvent} {before after : BuildQueue},
      .answers k reply call before after ∈ h → reply.acknowledged = some jobId →
      call.bind QueueEvent.finished = some jobId := by
    intro k reply call before after he ack
    obtain ⟨_, order, now, found, _, rfl, answer⟩ := a.answered k reply call before after he
    exact answerCall_finished answer ack
  have differ : (WorkEvent.answers i reply call before after) ≠
      .answers j reply' call' before' after' := by
    intro same
    cases same
    exact hne rfl
  have twice := two_le_count_filterMap
    (f := fun e : WorkEvent ι => e.call.bind QueueEvent.finished) he he' differ
    (ended he ack) (ended he' ack')
  have accounts := accounts_run a.calls
  have balance := accounts.balance hb jobId
  have one := accounts.jobCount_le hb jobId
  have counted : (ledger hashers (queueCalls h)).finished =
      h.filterMap fun e => e.call.bind QueueEvent.finished := by
    simp only [ledger, finishedJobs, queueCalls, List.filterMap_filterMap]
  rw [counted] at balance
  omega

/-- What is acknowledged as completed is what the worker signed. -/
theorem Agreement.completion_agrees (a : Agreement hashers crypto key ourId h s)
    (genuine : crypto.Genuine) (hb : (jobsPushed hashers h).length < 2 ^ 64) {i : ι} {reply : Reply}
    {requests : List Message} {replies : List Reply}
    (next : (s.worker i).link = some ⟨requests, reply :: replies⟩)
    (ack : reply.response = .completeAck) :
    CompletionAgrees crypto (key i) h i (s.worker i).phase reply := by
  obtain ⟨_, _, _, ⟨phase, sent⟩, call, before, after, he⟩ := (a.channel i).reply next
  obtain ⟨of, order, now, found, looked, _, answer⟩ := a.answered i reply call before after he
  rw [ack] at answer
  obtain ⟨jobId, outputs, r, s', lease, job', hrequest, rfl, hj', hid', completes⟩ :=
    completes_of_ack of answer
  obtain ⟨hfj, hfid⟩ := looked lease rfl
  have hfid := hfid _ _ _ _ hrequest
  rw [hrequest] at sent
  obtain ⟨⟨_, _⟩, built, hphase, hsigned⟩ := sent.complete_inv
  obtain ⟨job, hj, leasedBy, hid, hdrv⟩ := a.context i _ (by rw [hphase]; rfl)
  simp only at hid hdrv
  subst hid hdrv
  have hnamed := hrequest.trans hsigned
  simp only [completeRequest, BuildQueueRequest.complete.injEq] at hsigned
  obtain ⟨rfl, rfl, rfl, rfl⟩ := hsigned
  -- the lease looked up, the lease taken and the job handed out are of one job
  have accounts := accounts_run a.calls
  obtain rfl : job' = job := accounts.job_unique hb hj' hj hid'
  have sameJob : lease.job = job' := accounts.job_unique hb hfj hj hfid
  have stored : completedResult lease (crypto.publicKey (key i)) job'.id.val
      ((signBuildResult crypto (key i) job'.id job'.drvHash built).outputs.map .ofBuildOutput)
      (signBuildResult crypto (key i) job'.id job'.drvHash built).signatureR
      (signBuildResult crypto (key i) job'.id job'.drvHash built).signatureS =
        signBuildResult crypto (key i) job'.id job'.drvHash built := by
    rw [← sameJob]
    exact completedResult_signed
  exact ⟨job', _, built, call, before, after, hphase, hnamed, leasedBy, he, stored ▸ completes,
    sign_verifies genuine _ _ _ _⟩

/-- Every reply read answers the request sent last; and until the identifiers wrap, an
acknowledged completion stored what was signed, and one worker at most is told of the
end of a job. -/
theorem outcomes_agree (genuine : crypto.Genuine)
    (run : Run (WorkStep hashers crypto key) (World.new ourId) h s) {i : ι} {reply : Reply}
    (step : WorkStep hashers crypto key s (.reads i reply) t) :
    AnswersLast h i reply ∧
      ((jobsPushed hashers h).length < 2 ^ 64 → OutcomeAgrees crypto key h s i reply) := by
  have a := agreement_run run
  cases step with
  | reads _ _ requests replies next awaits =>
    obtain ⟨_, _, last, _, call, before, after, he⟩ := (a.channel i).reply next
    refine ⟨⟨last, call, before, after, he⟩, fun hb => ⟨?_, ?_⟩⟩
    · intro ack
      exact a.completion_agrees genuine hb next ack
    · intro j reply' jobId read ack' ack
      obtain ⟨call', before', after', he'⟩ := a.read j reply' read
      exact a.acknowledged_once hb he he' ack ack'

end Run
theorem jobsPushed_le (hashers : Hashers) (h : List (WorkEvent ι)) :
    (jobsPushed hashers h).length ≤ h.length :=
  (List.length_filterMap_le _ _).trans (List.length_filterMap_le _ _)

/-- A worker that builds the one job submitted reads that it was completed. -/
theorem outcomes_agree_one_job :
    ∃ (h : List (WorkEvent Unit)) (s : World Unit) (reply : Reply),
      reply.response = .completeAck ∧ AnswersLast h () reply ∧
        OutcomeAgrees plainCrypto (fun _ => ⟨zeroBytes32⟩) h s () reply := by
  have start : Run (WorkStep zeroHashers plainCrypto fun _ => ⟨zeroBytes32⟩)
      (World.new ⟨zeroBytes32⟩) [] (sole (.new ⟨zeroBytes32⟩) ⟨.idle, none, 0⟩ []) := .nil
  obtain ⟨_, pushed⟩ := sole_push "/nix/store/a.drv" [] start
  obtain ⟨_, pulled⟩ := sole_pulls pushed (pull_last _ [] _ [] rfl (by simp) rfl ⟨zeroBytes32⟩ 0)
  obtain ⟨_, _, completed⟩ := sole_completes pulled (HashMap.get_insert_self ..) rfl
  have agree := outcomes_agree ⟨fun _ => rfl, fun _ _ => rfl⟩ completed (.reads _ () _ _ _ rfl rfl)
  exact ⟨_, _, _, rfl, agree.1, agree.2 ((jobsPushed_le _ _).trans_lt (by simp))⟩

section Wrapped

/-- Digests that tell byte strings of different lengths apart. -/
def pathHashers : Hashers :=
  ⟨fun bytes => Vector.replicate 32 (UInt8.ofNat bytes.length), fun _ => zeroBytes32⟩

def wrappedQueue : BuildQueue :=
  ((BuildQueue.new ⟨zeroBytes32⟩).push pathHashers "/nix/store/a.drv" [] [] [] 0).1

def soleKey : Unit → plainCrypto.SecretKey := fun _ => ⟨zeroBytes32⟩

/-- A worker builds job 1 when a Pull of its own that arrives late leases it another job
under that identifier, which is taken up again after `2^64` pushes. -/
theorem sole_wraps :
    ∃ h q lease, Run (WorkStep pathHashers plainCrypto soleKey) (World.new ⟨zeroBytes32⟩) h
        (sole q ⟨.working ⟨1, .fromDrvPath pathHashers "/nix/store/a.drv"⟩, some ⟨[], []⟩, 2⟩ []) ∧
      q.leased.get? ⟨1⟩ = some lease ∧ lease.builder = ⟨zeroBytes32⟩ ∧
      lease.job.drvHash = .fromDrvPath pathHashers "/nix/store/bb.drv" ∧
      ∀ i reply call before after, .answers i reply call before after ∈ h → reply.number ≠ 2 := by
  let late : List (Unit × Message) := [((), ⟨0, .pull [] false, none⟩)]
  have start : Run (WorkStep pathHashers plainCrypto soleKey) (World.new ⟨zeroBytes32⟩) []
      (sole (.new ⟨zeroBytes32⟩) ⟨.idle, none, 0⟩ []) := .nil
  have connected : Run _ _ _ (sole (.new ⟨zeroBytes32⟩) ⟨.pulling, some ⟨[], []⟩, 0⟩ []) :=
    start.snoc (.connects _ () rfl)
  have asked : Run _ _ _ (sole (.new ⟨zeroBytes32⟩)
      ⟨.awaitJob, some ⟨[⟨0, .pull [] false, none⟩], []⟩, 1⟩ []) :=
    connected.snoc (.sends _ () _ _ (.pull [] false))
  have broken : Run _ _ _ (sole (.new ⟨zeroBytes32⟩) ⟨.awaitJob, none, 1⟩ late) :=
    asked.snoc (.breaks _ ())
  have idle : Run _ _ _ (sole (.new ⟨zeroBytes32⟩) ⟨.idle, none, 1⟩ late) :=
    broken.snoc (.fails _ () rfl)
  obtain ⟨_, pushed⟩ := sole_push "/nix/store/a.drv" [] idle
  obtain ⟨_, pulled⟩ := sole_pulls pushed
    (pull_last wrappedQueue [] _ [] rfl (by simp) rfl ⟨zeroBytes32⟩ 0)
  obtain ⟨pushes, q, more, more_pushed, own, hleased, hnext, hpending, needs⟩ :=
    sole_pushes (2 ^ 64 - 1) pulled
  obtain ⟨_, reused⟩ := sole_push "/nix/store/bb.drv" [] more_pushed
  obtain ⟨job, hjob⟩ : ∃ job, job = q.newJob pathHashers "/nix/store/bb.drv" [] [] [] 0 := ⟨_, rfl⟩
  obtain ⟨q', hq'⟩ : ∃ q', q' = (q.push pathHashers "/nix/store/bb.drv" [] [] [] 0).1 := ⟨_, rfl⟩
  have wraps : (1 + 1 + UInt64.ofNat (2 ^ 64 - 1) : UInt64) = 1 := by decide +kernel
  have sameId : job.id = ⟨1⟩ := hjob ▸ congrArg JobId.mk (hnext.trans wraps)
  rw [← hq'] at reused
  have pull := pull_last q' q.pending job [] (by rw [hq', hjob]; rfl)
    (by rw [hpending]; exact needs) (by rw [hjob]; rfl) ⟨zeroBytes32⟩ 0
  obtain ⟨order⟩ := HashMap.iter_exists q'.leased
  obtain ⟨lease, hlease⟩ : ∃ lease, lease = LeasedJob.mk job ⟨zeroBytes32⟩ 0 0 "starting" :=
    ⟨_, rfl⟩
  rw [← hlease] at pull
  have answer : answerRequest q' order 0 ⟨zeroBytes32⟩ (.pull [] false) none =
      ({ q' with pending := q.pending, leased := q'.leased.insert job.id lease },
        jobResponse job) := by
    simp only [answerRequest, handleBuildQueueRequest]
    rw [pull]
  have leased := reused.snoc (.answersLate _ () ⟨0, .pull [] false, none⟩ [] [] rfl
    (by simp [Message.Ready]) order 0 _ _ answer)
  refine ⟨_, _, lease, leased, ?_, by rw [hlease], ?_, ?_⟩
  · rw [sameId]
    exact HashMap.get_insert_self ..
  · rw [hlease, hjob]
    rfl
  · intro i reply call before after he
    have notPushed : ∀ call b a, WorkEvent.answers i reply call b a ∉ pushes := by
      intro call b a he
      obtain ⟨_, hc⟩ := own _ he
      cases hc
    simp only [List.mem_append, List.mem_singleton, List.not_mem_nil, notPushed, reduceCtorEq,
      WorkEvent.answers.injEq, false_or, or_false] at he
    rcases he with ⟨_, rfl, _⟩ | ⟨_, rfl, _⟩ <;> simp

/-- What is stored is then not what the worker signed, although it reads `CompleteAck`. -/
theorem outcome_of_reused_id :
    ¬ ∀ (hashers : Hashers) (crypto : Ed25519) (key : Unit → crypto.SecretKey)
      (ourId : EndpointId) (h : List (WorkEvent Unit)) (s t : World Unit) (i : Unit)
      (reply : Reply),
      crypto.Genuine → Run (WorkStep hashers crypto key) (World.new ourId) h s →
      WorkStep hashers crypto key s (.reads i reply) t →
      AnswersLast h i reply ∧ OutcomeAgrees crypto key h s i reply := by
  intro hall
  obtain ⟨h, q, other, run, held, builder, hother, numbers⟩ := sole_wraps
  obtain ⟨_, _, completed⟩ := sole_completes run held builder
  have agree := hall _ _ _ _ _ _ _ _ _ ⟨fun _ => rfl, fun _ _ => rfl⟩ completed
    (.reads _ () _ _ _ rfl rfl)
  obtain ⟨job, ctx, built, call, before, after, hphase, _, _, he, ⟨⟨lease, hl, hlj, _⟩, _⟩, _⟩ :=
    agree.2.1 rfl
  have signed := (Phase.awaitComplete.inj hphase).2
  have hid : (⟨1⟩ : JobId) = job.id := congrArg BuildResult.jobId signed
  have hdrv : DrvHash.fromDrvPath pathHashers "/nix/store/a.drv" = job.drvHash :=
    congrArg BuildResult.drvHash signed
  simp only [List.mem_append, List.mem_singleton, reduceCtorEq, or_false,
    WorkEvent.answers.injEq, true_and] at he
  rcases he with he | ⟨_, rfl, _⟩
  · exact numbers _ _ _ _ _ he rfl
  · rw [← hid, held] at hl
    cases hl
    rw [← hlj, hother] at hdrv
    exact absurd hdrv (by decide +kernel)

end Wrapped

end IrohNix.Builder
