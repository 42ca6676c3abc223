import IrohNix.Build.Conservation
import IrohNix.Builder.WorkerSpec
import IrohNix.Lib.Collect

namespace IrohNix.Builder
open IrohNix.Lib IrohNix.Build

variable {ι : Type}

/-- The call on the queue that an event is. -/
def WorkEvent.call : WorkEvent ι → Option QueueEvent
  | .own call => some call
  | .answers _ _ call _ _ => call
  | .sends .. | .reads .. | .moves _ => none

def queueCalls (h : List (WorkEvent ι)) : List QueueEvent := h.filterMap WorkEvent.call

def jobsPushed (hashers : Hashers) (h : List (WorkEvent ι)) : List BuildJob :=
  (ledger hashers (queueCalls h)).jobs

/-- The request a worker sent last, with its number. -/
def lastSent [DecidableEq ι] (i : ι) (h : List (WorkEvent ι)) : Option (Nat × BuildQueueRequest) :=
  h.foldl (fun last e => match e with
    | .sends j number request => if j = i then some (number, request) else last
    | _ => last) none

/-- All jobs in the queue are among these, each under its own identifier. -/
structure OfJobs (jobs : List BuildJob) (q : BuildQueue) : Prop where
  pending : ∀ job ∈ q.pending, job ∈ jobs
  leased : ∀ j lease, q.leased.get? j = some lease → lease.job ∈ jobs ∧ lease.job.id = j

/-- A lease that was looked up for a request is of the job the request names. -/
def FoundFor (jobs : List BuildJob) (request : BuildQueueRequest) (found : Option LeasedJob) :
    Prop :=
  ∀ lease, found = some lease → lease.job ∈ jobs ∧
    ∀ jobId outputs r s, request = .complete jobId outputs r s → lease.job.id = ⟨jobId⟩

/-- A reply was made by the handler, for a builder, on one state of the queue. -/
def Answered (jobs : List BuildJob) (builder : EndpointId) (reply : Reply)
    (call : Option QueueEvent) (before after : BuildQueue) : Prop :=
  OfJobs jobs before ∧ ∃ order now found, FoundFor jobs reply.request found ∧
    call = answerCall before now builder reply.request found ∧
    answerRequest before order now builder reply.request found = (after, reply.response)

/-- The builder was handed the job in answer to a Pull of its own, and the job, which
was pending, was leased to it then. -/
def LeasedByPull (h : List (WorkEvent ι)) (i : ι) (builder : EndpointId) (job : BuildJob) : Prop :=
  ∃ number features logs call before after lease,
    .answers i ⟨number, .pull features logs, jobResponse job⟩ call before after ∈ h ∧
    job ∈ before.pending ∧ after.leased.get? job.id = some lease ∧ lease.job = job ∧
    lease.builder = builder

/-- What a worker knows of its job is of one that it was leased. -/
def Granted (hashers : Hashers) (h : List (WorkEvent ι)) (i : ι) (builder : EndpointId)
    (ctx : JobContext) : Prop :=
  ∃ job ∈ jobsPushed hashers h, LeasedByPull h i builder job ∧ job.id.val = ctx.jobId ∧
    job.drvHash = ctx.drvHash

/-- An unbroken connection holds nothing unless the worker waits, and then only the
request it sent last or the reply to that. -/
def Channel [DecidableEq ι] (crypto : Ed25519) (key : crypto.SecretKey) (h : List (WorkEvent ι))
    (i : ι) (w : Worker) : Prop :=
  ∀ link, w.link = some link →
    if w.phase.awaiting then
      ∃ number request, lastSent i h = some (number, request) ∧
        (∃ phase, Phase.Sends crypto key phase request w.phase) ∧
        ((∃ found, link = ⟨[⟨number, request, found⟩], []⟩) ∨
          ∃ response call before after, link = ⟨[], [⟨number, request, response⟩]⟩ ∧
            .answers i ⟨number, request, response⟩ call before after ∈ h)
    else link = ⟨[], []⟩

/-- What holds after every run of workers and the requester. -/
structure Agreement [DecidableEq ι] (hashers : Hashers) (crypto : Ed25519)
    (key : ι → crypto.SecretKey) (ourId : EndpointId) (h : List (WorkEvent ι)) (s : World ι) : Prop where
  calls : QueueRun hashers ourId (queueCalls h) s.queue
  channel : ∀ i, Channel crypto (key i) h i (s.worker i)
  context : ∀ i ctx, (s.worker i).phase.context = some ctx →
    Granted hashers h i (crypto.publicKey (key i)) ctx
  found : ∀ m, s.InFlight m → FoundFor (jobsPushed hashers h) m.request m.found.join
  answered : ∀ i reply call before after, .answers i reply call before after ∈ h →
    Answered (jobsPushed hashers h) (crypto.publicKey (key i)) reply call before after
  read : ∀ i reply, .reads i reply ∈ h → ∃ call before after,
    .answers i reply call before after ∈ h

theorem queueCalls_snoc (h : List (WorkEvent ι)) (e : WorkEvent ι) :
    queueCalls (h ++ [e]) = queueCalls h ++ e.call.toList := filterMap_snoc _ h e

theorem jobsPushed_mono {hashers : Hashers} {h : List (WorkEvent ι)} {e : WorkEvent ι}
    {job : BuildJob} (hj : job ∈ jobsPushed hashers h) : job ∈ jobsPushed hashers (h ++ [e]) := by
  simp only [jobsPushed, ledger, queueCalls_snoc, List.filterMap_append]
  exact List.mem_append_left _ hj

theorem OfJobs.mono {jobs jobs' : List BuildJob} {q : BuildQueue} (of : OfJobs jobs q)
    (more : ∀ job ∈ jobs, job ∈ jobs') : OfJobs jobs' q where
  pending := fun job hj => more job (of.pending job hj)
  leased := fun j lease hl => ⟨more _ (of.leased j lease hl).1, (of.leased j lease hl).2⟩

theorem FoundFor.mono {jobs jobs' : List BuildJob} {request : BuildQueueRequest}
    {found : Option LeasedJob} (of : FoundFor jobs request found)
    (more : ∀ job ∈ jobs, job ∈ jobs') : FoundFor jobs' request found :=
  fun lease hl => ⟨more _ (of lease hl).1, (of lease hl).2⟩

theorem Answered.mono {jobs jobs' : List BuildJob} {builder : EndpointId} {reply : Reply}
    {call : Option QueueEvent} {before after : BuildQueue}
    (answered : Answered jobs builder reply call before after)
    (more : ∀ job ∈ jobs, job ∈ jobs') : Answered jobs' builder reply call before after := by
  obtain ⟨of, order, now, found, looked, rest⟩ := answered
  exact ⟨of.mono more, order, now, found, looked.mono more, rest⟩

theorem Granted.mono {hashers : Hashers} {h : List (WorkEvent ι)} {i : ι} {builder : EndpointId}
    {ctx : JobContext} (granted : Granted hashers h i builder ctx) (e : WorkEvent ι) :
    Granted hashers (h ++ [e]) i builder ctx := by
  obtain ⟨job, hj, ⟨number, features, logs, call, before, after, lease, he, rest⟩, same⟩ := granted
  exact ⟨job, jobsPushed_mono hj,
    ⟨number, features, logs, call, before, after, lease, List.mem_append_left _ he, rest⟩, same⟩

theorem FoundFor.lookUp {jobs : List BuildJob} {q : BuildQueue} (of : OfJobs jobs q)
    (m : Message) : FoundFor jobs (m.lookUp q).request (m.lookUp q).found.join := by
  intro lease hl
  cases hr : m.request with
  | complete jobId outputs r s =>
    have held : q.leased.get? ⟨jobId⟩ = some lease := by
      simpa [Message.lookUp, Builder.lookUp, hr] using hl
    obtain ⟨hj, hid⟩ := of.leased _ _ held
    refine ⟨hj, fun j o r' s' he => ?_⟩
    simp only [Message.lookUp, hr, BuildQueueRequest.complete.injEq] at he
    rw [hid, he.1]
  | pull | heartbeat | buildLog | fail => simp [Message.lookUp, Builder.lookUp, hr] at hl

theorem ofJobs_run {hashers : Hashers} {ourId : EndpointId} {h : List (WorkEvent ι)}
    {q : BuildQueue} (calls : QueueRun hashers ourId (queueCalls h) q) :
    OfJobs (jobsPushed hashers h) q where
  pending := (accounts_run calls).pending
  leased := (accounts_run calls).leased

variable [DecidableEq ι]

section Step

variable {hashers : Hashers} {crypto : Ed25519} {key : ι → crypto.SecretKey} {s t : World ι}
  {e : WorkEvent ι}

theorem lastSent_sends (i j : ι) (number : Nat) (request : BuildQueueRequest)
    (h : List (WorkEvent ι)) :
    lastSent i (h ++ [.sends j number request]) =
      if j = i then some (number, request) else lastSent i h := by
  simp [lastSent]

theorem lastSent_other {i : ι} {e : WorkEvent ι} (h : List (WorkEvent ι))
    (other : ∀ number request, e ≠ .sends i number request) :
    lastSent i (h ++ [e]) = lastSent i h := by
  cases e with
  | sends j number request =>
    rw [lastSent_sends, if_neg]
    intro hj
    exact other number request (hj ▸ rfl)
  | own | answers | reads | moves => simp [lastSent]

/-- A worker's connection is as before while it neither sends nor is answered. -/
theorem Channel.mono {cryptoKey : crypto.SecretKey} {h : List (WorkEvent ι)} {i : ι} {w : Worker}
    (channel : Channel crypto cryptoKey h i w)
    (other : ∀ number request, e ≠ .sends i number request) :
    Channel crypto cryptoKey (h ++ [e]) i w := by
  intro link hl
  have held := channel link hl
  rw [lastSent_other h other]
  split
  · rename_i awaits
    rw [if_pos awaits] at held
    obtain ⟨number, request, last, sent, place⟩ := held
    refine ⟨number, request, last, sent, ?_⟩
    rcases place with place | ⟨response, call, before, after, hlink, he⟩
    · exact .inl place
    · exact .inr ⟨response, call, before, after, hlink, List.mem_append_left _ he⟩
  · rename_i quiet
    rwa [if_neg quiet] at held

theorem Channel.of_no_link {cryptoKey : crypto.SecretKey} {h : List (WorkEvent ι)} {i : ι}
    {w : Worker} (none : w.link = none) : Channel crypto cryptoKey h i w := by
  intro link hl
  rw [none] at hl
  cases hl

theorem Channel.of_empty {cryptoKey : crypto.SecretKey} {h : List (WorkEvent ι)} {i : ι}
    {w : Worker} (quiet : w.phase.awaiting = false) (empty : w.link = some ⟨[], []⟩) :
    Channel crypto cryptoKey h i w := by
  intro link hl
  rw [empty] at hl
  cases hl
  rw [if_neg (by simp [quiet])]

/-- What waits on a connection to be answered is the one request its worker sent last. -/
theorem Channel.request {cryptoKey : crypto.SecretKey} {h : List (WorkEvent ι)} {i : ι}
    {w : Worker} (channel : Channel crypto cryptoKey h i w) {m : Message} {rest : List Message}
    {replies : List Reply} (next : w.link = some ⟨m :: rest, replies⟩) :
    rest = [] ∧ replies = [] ∧ w.phase.awaiting = true ∧
      lastSent i h = some (m.number, m.request) ∧
      ∃ phase, Phase.Sends crypto cryptoKey phase m.request w.phase := by
  have held := channel _ next
  by_cases awaits : w.phase.awaiting = true
  · rw [if_pos awaits] at held
    obtain ⟨number, request, last, sent, ⟨found, hlink⟩ | ⟨_, _, _, _, hlink, _⟩⟩ := held
    · simp only [Link.mk.injEq, List.cons.injEq] at hlink
      obtain ⟨⟨rfl, rfl⟩, rfl⟩ := hlink
      exact ⟨rfl, rfl, awaits, last, sent⟩
    · cases hlink
  · rw [if_neg awaits] at held
    cases held

/-- What waits to be read is the answer to the request its worker sent last. -/
theorem Channel.reply {cryptoKey : crypto.SecretKey} {h : List (WorkEvent ι)} {i : ι}
    {w : Worker} (channel : Channel crypto cryptoKey h i w) {requests : List Message}
    {reply : Reply} {replies : List Reply} (next : w.link = some ⟨requests, reply :: replies⟩) :
    requests = [] ∧ replies = [] ∧ lastSent i h = some (reply.number, reply.request) ∧
      (∃ phase, Phase.Sends crypto cryptoKey phase reply.request w.phase) ∧
      ∃ call before after, .answers i reply call before after ∈ h := by
  have held := channel _ next
  by_cases awaits : w.phase.awaiting = true
  · rw [if_pos awaits] at held
    obtain ⟨number, request, last, sent, ⟨found, hlink⟩ | ⟨response, call, before, after, hlink, he⟩⟩
      := held
    · cases hlink
    · simp only [Link.mk.injEq, List.cons.injEq] at hlink
      obtain ⟨rfl, rfl, rfl⟩ := hlink
      exact ⟨rfl, rfl, last, sent, call, before, after, he⟩
  · rw [if_neg awaits] at held
    cases held

theorem channel_step {h : List (WorkEvent ι)}
    (channel : ∀ i, Channel crypto (key i) h i (s.worker i))
    (step : WorkStep hashers crypto key s e t) (j : ι) :
    Channel crypto (key j) (h ++ [e]) j (t.worker j) := by
  by_cases mine : e.worker = some j
  · cases step with
    | own => cases mine
    | connects i idle =>
      cases mine
      rw [World.connect, World.setWorker_worker, if_pos rfl]
      exact .of_empty rfl rfl
    | breaks i =>
      cases mine
      exact .of_no_link (by simp [World.disconnect_worker])
    | fails i broken =>
      cases mine
      rw [World.setPhase, World.setWorker_worker, if_pos rfl]
      exact .of_no_link broken
    | givesUp i =>
      cases mine
      rw [World.setPhase, World.setWorker_worker, if_pos rfl]
      by_cases awaits : (s.worker j).phase.giveUp.awaiting = true
      · rw [Phase.giveUp_awaiting awaits]
        exact (channel j).mono (by simp)
      · intro link hl
        have held := channel j link hl
        rw [if_neg (by simpa using Phase.giveUp_quiet (by simpa using awaits))] at held
        rw [if_neg awaits]
        exact held
    | sends i request phase may =>
      cases mine
      rw [World.send_worker, if_pos rfl]
      intro link hl
      obtain ⟨link', hl', rfl⟩ := Option.map_eq_some_iff.mp hl
      have held := channel j link' hl'
      rw [if_neg (by simp [may.quiet])] at held
      subst held
      rw [if_pos may.awaits]
      exact ⟨_, _, by rw [lastSent_sends, if_pos rfl], ⟨_, may⟩, .inl ⟨none, rfl⟩⟩
    | looksUp i m rest replies next =>
      cases mine
      obtain ⟨rfl, rfl, awaits, last, sent⟩ := (channel j).request next
      rw [World.setWorker_worker, if_pos rfl]
      intro link hl
      cases hl
      rw [if_pos awaits]
      exact ⟨_, _, (lastSent_other h (by simp)).trans last, sent, .inl ⟨_, rfl⟩⟩
    | answers i m rest replies next ready order now q response answer =>
      cases mine
      obtain ⟨rfl, rfl, awaits, last, sent⟩ := (channel j).request next
      show Channel crypto (key j) _ j ((s.setWorker j _).worker j)
      rw [World.setWorker_worker, if_pos rfl]
      intro link hl
      cases hl
      rw [if_pos awaits]
      exact ⟨_, _, (lastSent_other h (by simp)).trans last, sent,
        .inr ⟨_, _, _, _, rfl, List.mem_append_right _ List.mem_cons_self⟩⟩
    | looksUpLate | answersLate => exact (channel j).mono (by simp)
    | reads i reply requests replies next awaits =>
      cases mine
      obtain ⟨rfl, rfl, _⟩ := (channel j).reply next
      rw [World.setWorker_worker, if_pos rfl]
      exact .of_empty (Phase.afterRead_quiet awaits _) rfl
  · rw [other_worker step mine]
    exact (channel j).mono fun number request he => mine (he ▸ rfl)

/-- All that a step can do to the queue is one call. -/
theorem calls_step {ourId : EndpointId} {h : List (WorkEvent ι)}
    (calls : QueueRun hashers ourId (queueCalls h) s.queue)
    (step : WorkStep hashers crypto key s e t) :
    QueueRun hashers ourId (queueCalls (h ++ [e])) t.queue := by
  have answered : ∀ {i : ι} {m : Message} {order : s.queue.leased.Iter} {now : Instant}
      {q : BuildQueue} {response : BuildQueueResponse},
      answerRequest s.queue order now (crypto.publicKey (key i)) m.request m.found.join =
        (q, response) →
      QueueRun hashers ourId (queueCalls h ++
        (answerCall s.queue now (crypto.publicKey (key i)) m.request m.found.join).toList) q := by
    intro i m order now q response answer
    rcases answer_step hashers answer with ⟨hc, rfl⟩ | ⟨call, hc, step⟩
    · rw [hc, Option.toList_none, List.append_nil]
      exact calls
    · rw [hc]
      exact calls.snoc step
  rw [queueCalls_snoc]
  cases step with
  | own call q isOwn step => exact calls.snoc step
  | answers i m rest replies next ready order now q response answer => exact answered answer
  | answersLate i m before after late ready order now q response answer => exact answered answer
  | connects | breaks | fails | givesUp | sends | looksUp | looksUpLate | reads =>
    simpa [WorkEvent.call, World.connect, World.setPhase] using calls

/-- A worker that has read an answer has the job it had, or the one its Pull was answered
with. -/
theorem granted_of_read {ourId : EndpointId} {h : List (WorkEvent ι)}
    (a : Agreement hashers crypto key ourId h s) {j : ι} {reply : Reply}
    {requests : List Message} {replies : List Reply}
    (next : (s.worker j).link = some ⟨requests, reply :: replies⟩) {ctx : JobContext}
    (hctx : ((s.worker j).phase.afterRead reply.response).context = some ctx) :
    (s.worker j).phase.context = some ctx ∨
      Granted hashers h j (crypto.publicKey (key j)) ctx := by
  rcases Phase.afterRead_context hctx with
    held | ⟨hphase, drvHash, path, outputs, inputs, hr, hd⟩
  · exact .inl held
  · obtain ⟨_, _, _, ⟨phase, sent⟩, call, before, after, he⟩ := (a.channel j).reply next
    obtain ⟨features, logs, hpull⟩ := (hphase ▸ sent).awaitJob
    obtain ⟨of, order, now, found, _, _, answer⟩ := a.answered j reply call before after he
    rw [hpull] at answer
    rcases answer_job answer with hno | ⟨job, hjob, hresponse, lease, hl, hlj, hlb⟩
    · rw [hno] at hr
      cases hr
    · right
      obtain ⟨number, request, response⟩ := reply
      subst hpull hresponse
      refine ⟨job, of.pending job hjob,
        ⟨number, features, logs, call, before, after, lease, he, hjob, hl, hlj, hlb⟩, ?_⟩
      simp only [jobResponse, BuildQueueResponse.job.injEq] at hr
      exact ⟨hr.1, by rw [hd, ← hr.2.1]⟩

/-- A worker's job is one that it was leased by a Pull of its own. -/
theorem context_step {ourId : EndpointId} {h : List (WorkEvent ι)}
    (a : Agreement hashers crypto key ourId h s) (step : WorkStep hashers crypto key s e t)
    {j : ι} {ctx : JobContext} (hctx : (t.worker j).phase.context = some ctx) :
    Granted hashers (h ++ [e]) j (crypto.publicKey (key j)) ctx := by
  suffices held : (s.worker j).phase.context = some ctx ∨
      Granted hashers h j (crypto.publicKey (key j)) ctx by
    rcases held with held | granted
    · exact (a.context j ctx held).mono e
    · exact granted.mono e
  by_cases mine : e.worker = some j
  · cases step with
    | own | looksUpLate | answersLate => exact .inl hctx
    | connects i idle =>
      cases mine
      rw [World.connect, World.setWorker_worker, if_pos rfl] at hctx
      cases hctx
    | breaks i =>
      rw [World.disconnect_worker] at hctx
      exact .inl hctx
    | fails i broken =>
      cases mine
      rw [World.setPhase, World.setWorker_worker, if_pos rfl] at hctx
      exact .inl (Phase.afterError_context hctx)
    | givesUp i =>
      cases mine
      rw [World.setPhase, World.setWorker_worker, if_pos rfl] at hctx
      exact .inl (Phase.giveUp_context hctx)
    | sends i request phase may =>
      cases mine
      rw [World.send_worker, if_pos rfl] at hctx
      exact .inl (may.context ▸ hctx)
    | looksUp i m rest replies next =>
      cases mine
      rw [World.setWorker_worker, if_pos rfl] at hctx
      exact .inl hctx
    | answers i m rest replies next ready order now q response answer =>
      cases mine
      have hctx : ((s.setWorker j _).worker j).phase.context = some ctx := hctx
      rw [World.setWorker_worker, if_pos rfl] at hctx
      exact .inl hctx
    | reads i reply requests replies next awaits =>
      cases mine
      rw [World.setWorker_worker, if_pos rfl] at hctx
      exact granted_of_read a next hctx
  · rw [other_worker step mine] at hctx
    exact .inl hctx

theorem answered_step {ourId : EndpointId} {h : List (WorkEvent ι)}
    (a : Agreement hashers crypto key ourId h s) (step : WorkStep hashers crypto key s e t)
    {i : ι} {reply : Reply} {call : Option QueueEvent} {before after : BuildQueue}
    (he : .answers i reply call before after ∈ h ++ [e]) :
    Answered (jobsPushed hashers (h ++ [e])) (crypto.publicKey (key i)) reply call before after := by
  suffices held : Answered (jobsPushed hashers h) (crypto.publicKey (key i)) reply call before after
    from held.mono fun _ => jobsPushed_mono
  rcases List.mem_append.mp he with he | he
  · exact a.answered i reply call before after he
  · have he := List.mem_singleton.mp he
    subst he
    have of := ofJobs_run a.calls
    cases step with
    | answers _ m rest replies next ready order now q response answer =>
      have inFlight : s.InFlight m := .inl ⟨i, _, next, List.mem_cons_self⟩
      exact ⟨of, order, now, _, a.found m inFlight, rfl, answer⟩
    | answersLate _ m front back late ready order now q response answer =>
      have inFlight : s.InFlight m := .inr ⟨i, by simp [late]⟩
      exact ⟨of, order, now, _, a.found m inFlight, rfl, answer⟩

theorem found_step {ourId : EndpointId} {h : List (WorkEvent ι)}
    (a : Agreement hashers crypto key ourId h s) (step : WorkStep hashers crypto key s e t)
    {m : Message} (inFlight : t.InFlight m) :
    FoundFor (jobsPushed hashers (h ++ [e])) m.request m.found.join := by
  suffices held : FoundFor (jobsPushed hashers h) m.request m.found.join
    from held.mono fun _ => jobsPushed_mono
  rcases inFlight_step step inFlight with before | none | ⟨m₀, rfl⟩
  · exact a.found m before
  · intro lease hl
    rw [none] at hl
    cases hl
  · exact .lookUp (ofJobs_run a.calls) m₀

theorem read_step {ourId : EndpointId} {h : List (WorkEvent ι)}
    (a : Agreement hashers crypto key ourId h s) (step : WorkStep hashers crypto key s e t)
    {i : ι} {reply : Reply} (he : .reads i reply ∈ h ++ [e]) :
    ∃ call before after, .answers i reply call before after ∈ h ++ [e] := by
  suffices held : ∃ call before after, .answers i reply call before after ∈ h by
    obtain ⟨call, before, after, he⟩ := held
    exact ⟨call, before, after, List.mem_append_left _ he⟩
  rcases List.mem_append.mp he with he | he
  · exact a.read i reply he
  · have he := List.mem_singleton.mp he
    subst he
    cases step with
    | reads _ _ requests replies next awaits => exact ((a.channel i).reply next).2.2.2.2

theorem Agreement.step {ourId : EndpointId} {h : List (WorkEvent ι)}
    (a : Agreement hashers crypto key ourId h s) (step : WorkStep hashers crypto key s e t) :
    Agreement hashers crypto key ourId (h ++ [e]) t where
  calls := calls_step a.calls step
  channel := channel_step a.channel step
  context := fun _ _ => context_step a step
  found := fun _ => found_step a step
  answered := fun _ _ _ _ _ => answered_step a step
  read := fun _ _ => read_step a step

end Step

theorem agreement_new (hashers : Hashers) (crypto : Ed25519) (key : ι → crypto.SecretKey)
    (ourId : EndpointId) : Agreement hashers crypto key ourId [] (World.new ourId) where
  calls := .nil
  channel := fun i => .of_no_link rfl
  context := by
    intro i ctx h
    cases h
  found := by
    intro m inFlight
    rcases inFlight with ⟨i, link, hl, _⟩ | ⟨i, hm⟩
    · cases hl
    · cases hm
  answered := by simp
  read := by simp

/-- Workers and the requester agree after every run. -/
theorem agreement_run {hashers : Hashers} {crypto : Ed25519} {key : ι → crypto.SecretKey}
    {ourId : EndpointId} {h : List (WorkEvent ι)} {s : World ι}
    (run : Run (WorkStep hashers crypto key) (World.new ourId) h s) :
    Agreement hashers crypto key ourId h s :=
  run.invariant (Agreement hashers crypto key ourId) (agreement_new hashers crypto key ourId)
    fun _ _ _ _ _ a step => a.step step

end IrohNix.Builder