import IrohNix.Build.Accounting
import IrohNix.Build.Signing
import IrohNix.Builder.Handler
import IrohNix.Gossip.Delivery

namespace IrohNix.Requester
open IrohNix.Lib IrohNix.Build IrohNix.Builder IrohNix.Gossip

/-- What peers can change of a requester. -/
structure RequesterNode where
  queue : BuildQueue
  caches : Caches

/-- Something reaching a requester: a builder's request, its own use of the
queue, gossip content a peer delivered, or the loss of a peer. -/
inductive RequesterEvent where
  | request (builderId : EndpointId) (request : BuildQueueRequest)
  | local' (e : QueueEvent)
  | gossip (sender : EndpointId) (content : Bytes)
  | neighborDown (peer : EndpointId)

/-- A failed gossip message is logged and changes nothing. -/
def handleGossip (codec : Postcard GossipMessage) (crypto : Ed25519) (caches : Caches)
    (sender : EndpointId) (content : Bytes) : Caches :=
  match handleMessage codec crypto caches content sender with
  | .error _ => caches
  | .ok (caches', _) => caches'

inductive RequesterStep (hashers : Hashers) (codec : Postcard GossipMessage) (crypto : Ed25519) :
    RequesterNode → RequesterEvent → RequesterNode → Prop where
  | request (s : RequesterNode) (order : s.queue.leased.Iter) (now : Instant)
      (builderId : EndpointId) (request : BuildQueueRequest) :
      RequesterStep hashers codec crypto s (.request builderId request)
        { s with queue := (handleBuildQueueRequest s.queue order now builderId request).1 }
  | local' (s : RequesterNode) (e : QueueEvent) (queue : BuildQueue)
      (step : QueueStep hashers s.queue e queue) (isOwn : ownCall e = true) :
      RequesterStep hashers codec crypto s (.local' e) { s with queue }
  | gossip (s : RequesterNode) (sender : EndpointId) (content : Bytes) :
      RequesterStep hashers codec crypto s (.gossip sender content)
        { s with caches := handleGossip codec crypto s.caches sender content }
  | neighborDown (s : RequesterNode) (peer : EndpointId) :
      RequesterStep hashers codec crypto s (.neighborDown peer)
        { s with caches := neighborDown s.caches peer }

def RequesterNode.new (ourId : EndpointId) : RequesterNode := ⟨.new ourId, .new⟩

/-- The jobs submitted so far. -/
def submitted (hashers : Hashers) (h : List RequesterEvent) : List BuildJob :=
  h.filterMap fun
    | .local' e => e.pushed hashers
    | _ => none

/-- The messages peers delivered so far, as far as they decode. -/
def delivered (codec : Postcard GossipMessage) (h : List RequesterEvent) :
    List (EndpointId × GossipMessage) :=
  h.filterMap fun
    | .gossip sender content => (codec.fromBytes content).toOption.map fun msg => (sender, msg)
    | _ => none

/-- The result is signed by the builder it names and lists all the outputs its
job expects. -/
def AdmissibleResult (crypto : Ed25519) (jobs : List BuildJob) (result : BuildResult) : Prop :=
  verifyBuildResult crypto result = true ∧
    ∃ job ∈ jobs, job.id = result.jobId ∧ job.drvHash = result.drvHash ∧
      ∀ path ∈ job.outputs, ∃ output ∈ result.outputs, output.storePath = path

/-- A listed provider announced the hash itself, or is named by a completed
build it signed. -/
def AdmissibleProvider (crypto : Ed25519) (inbox : List (EndpointId × GossipMessage))
    (blake3 : Bytes32) (info : ProviderInfo) : Prop :=
  (info.endpointId, .have' blake3 info.storePath info.narSize) ∈ inbox ∨
  (info.endpointId, .iHave blake3 info.storePath info.narSize) ∈ inbox ∨
  ∃ sender result, (sender, .buildComplete result) ∈ inbox ∧
    verifyBuildResult crypto result = true ∧
    crypto.endpointIdFromBytes result.builder = some info.endpointId ∧
    ∃ output ∈ result.outputs,
      blake3 = output.blake3 ∧ info = ⟨info.endpointId, output.storePath, output.narSize⟩

/-- Only admissible results have entered the node's state. -/
structure OnlyAdmissible (hashers : Hashers) (codec : Postcard GossipMessage) (crypto : Ed25519)
    (h : List RequesterEvent) (s : RequesterNode) : Prop where
  fetch : ∀ result ∈ s.queue.pendingFetch, AdmissibleResult crypto (submitted hashers h) result
  completed : ∀ drvHash result, s.queue.completed.get? drvHash = some (.completed result) →
    AdmissibleResult crypto (submitted hashers h) result
  providers : ∀ blake3 info, s.caches.providerCache.Lists blake3 info →
    AdmissibleProvider crypto (delivered codec h) blake3 info

/-- A result enters the queue: it is queued to be fetched, or recorded as an outcome. -/
def EntersQueue (q q' : BuildQueue) (result : BuildResult) : Prop :=
  q'.pendingFetch = q.pendingFetch ++ [result] ∨
  ∃ drvHash, q'.completed.get? drvHash = some (.completed result) ∧
    q.completed.get? drvHash ≠ some (.completed result)

/-- Some provider is listed that was not. -/
def EntersCache (cache cache' : ProviderCache) : Prop :=
  ∃ blake3 info, cache'.Lists blake3 info ∧ ¬ cache.Lists blake3 info

/-- Every result that enters by one event is signed by the builder it names, and one that
enters the queue lists every output that its leased job expects. -/
structure AdmitsOnly (codec : Postcard GossipMessage) (crypto : Ed25519) (s : RequesterNode)
    (e : RequesterEvent) (t : RequesterNode) : Prop where
  results : ∀ result, EntersQueue s.queue t.queue result →
    verifyBuildResult crypto result = true ∧
      ∃ lease, s.queue.leased.get? result.jobId = some lease ∧
        ∀ path ∈ lease.job.outputs, ∃ output ∈ result.outputs, output.storePath = path
  builds : ∀ sender content result, e = .gossip sender content →
    codec.fromBytes content = .ok (.buildComplete result) →
    EntersCache s.caches.providerCache t.caches.providerCache →
      verifyBuildResult crypto result = true

/-- The builder that a completed build names is a peer, not yet listed for some output. -/
def NamesProvider (crypto : Ed25519) (cache : ProviderCache) (result : BuildResult) : Prop :=
  ∃ builderId, crypto.endpointIdFromBytes result.builder = some builderId ∧
    ∃ output ∈ result.outputs, ¬ cache.Records output.blake3 builderId

/-- The completion of a leased job by its holder is signed by the holder and
lists every expected output; a completed build told by gossip that names a new provider
is signed by the builder it names. -/
def HonestInput (codec : Postcard GossipMessage) (crypto : Ed25519) (s : RequesterNode) :
    RequesterEvent → Prop
  | .request builderId (.complete jobId outputs r s') =>
    ∀ lease, s.queue.leased.get? ⟨jobId⟩ = some lease → lease.builder = builderId →
      verifyBuildResult crypto (completedResult lease builderId jobId outputs r s') = true ∧
        ∀ path ∈ lease.job.outputs, ∃ output ∈ outputs, output.storePath = path
  | .gossip _ content =>
    ∀ result, codec.fromBytes content = .ok (.buildComplete result) →
      NamesProvider crypto s.caches.providerCache result → verifyBuildResult crypto result = true
  | _ => True

theorem AdmissibleResult.mono {crypto : Ed25519} {jobs : List BuildJob} {result : BuildResult}
    (a : AdmissibleResult crypto jobs result) (more : List BuildJob) :
    AdmissibleResult crypto (jobs ++ more) result := by
  obtain ⟨hv, job, hj, hrest⟩ := a
  exact ⟨hv, job, List.mem_append_left _ hj, hrest⟩

theorem AdmissibleProvider.mono {crypto : Ed25519} {inbox : List (EndpointId × GossipMessage)}
    {blake3 : Bytes32} {info : ProviderInfo} (a : AdmissibleProvider crypto inbox blake3 info)
    (more : List (EndpointId × GossipMessage)) :
    AdmissibleProvider crypto (inbox ++ more) blake3 info := by
  rcases a with h | h | ⟨sender, result, h, hrest⟩
  · exact .inl (List.mem_append_left _ h)
  · exact .inr (.inl (List.mem_append_left _ h))
  · exact .inr (.inr ⟨sender, result, List.mem_append_left _ h, hrest⟩)

/-- The completed results a queue holds. -/
def Holds (q : BuildQueue) (result : BuildResult) : Prop :=
  result ∈ q.pendingFetch ∨ ∃ drvHash, q.completed.get? drvHash = some (.completed result)

/-- Only an accepted completion brings a result into the queue. -/
theorem results_cases {hashers : Hashers} {q q' : BuildQueue} {e : QueueEvent}
    (step : QueueStep hashers q e q') :
    (∃ jobId builder result lease, e = .complete jobId builder result true ∧
      q.leased.get? jobId = some lease ∧ lease.builder = builder ∧
      q'.pendingFetch = q.pendingFetch ++ [result] ∧
      q'.completed = q.completed.insert lease.job.drvHash (.completed result)) ∨
    (q'.pendingFetch = q.pendingFetch ∨ q'.pendingFetch = []) ∧
      ∀ drvHash result, q'.completed.get? drvHash = some (.completed result) →
        q.completed.get? drvHash = some (.completed result) := by
  cases step with
  | push | broadcastLog => exact .inr ⟨.inl rfl, fun _ _ hc => hc⟩
  | takePendingFetches => exact .inr ⟨.inr rfl, fun _ _ hc => hc⟩
  | pull builder features now =>
    right
    rcases q.pull_cases builder features now with ⟨_, hq⟩ | ⟨_, _, _, _, _, _, hq⟩ <;> rw [hq]
    · exact ⟨.inl rfl, fun _ _ hc => hc⟩
    · exact ⟨.inl rfl, fun _ _ hc => hc⟩
  | heartbeat jobId builder status now =>
    right
    rcases q.heartbeat_cases jobId builder status now with ⟨hq, _⟩ | ⟨_, _, _, hq⟩ <;> rw [hq]
    · exact ⟨.inl rfl, fun _ _ hc => hc⟩
    · exact ⟨.inl rfl, fun _ _ hc => hc⟩
  | complete jobId builder result =>
    rcases q.complete_cases jobId builder result with ⟨hq, _⟩ | ⟨lease, hl, hb, hq⟩ <;> rw [hq]
    · exact .inr ⟨.inl rfl, fun _ _ hc => hc⟩
    · exact .inl ⟨jobId, builder, result, lease, rfl, hl, hb, rfl, rfl⟩
  | fail jobId builder error =>
    right
    rcases q.fail_cases jobId builder error with ⟨hq, _⟩ | ⟨lease, _, _, hq⟩ <;> rw [hq]
    · exact ⟨.inl rfl, fun _ _ hc => hc⟩
    · refine ⟨.inl rfl, fun drvHash result hc => ?_⟩
      simp only [HashMap.get_insert] at hc
      split at hc
      · cases hc
      · exact hc
  | checkTimeouts order now =>
    have keep : ∀ (p : BuildQueue) jobId lease,
        p.pendingFetch = q.pendingFetch ∧ p.completed = q.completed →
        p.leased.get? jobId = some lease →
        (p.expire jobId lease).pendingFetch = q.pendingFetch ∧
          (p.expire jobId lease).completed = q.completed :=
      fun p jobId lease hp _ => hp
    obtain ⟨hf, hc⟩ := BuildQueue.check_timeouts_induct keep order now ⟨rfl, rfl⟩
    exact .inr ⟨.inl hf, fun _ _ h => hc ▸ h⟩

theorem holds_cases {hashers : Hashers} {q q' : BuildQueue} {e : QueueEvent} {result : BuildResult}
    (step : QueueStep hashers q e q') (hr : Holds q' result) :
    Holds q result ∨ ∃ jobId builder lease, e = .complete jobId builder result true ∧
      q.leased.get? jobId = some lease ∧ lease.builder = builder := by
  rcases results_cases step with ⟨jobId, builder, r, lease, he, hl, hb, hf, hc⟩ | ⟨hf, hc⟩
  · rcases hr with hr | ⟨drvHash, hr⟩
    · rw [hf] at hr
      rcases List.mem_append.mp hr with hr | hr
      · exact .inl (.inl hr)
      · cases List.mem_singleton.mp hr
        exact .inr ⟨jobId, builder, lease, he, hl, hb⟩
    · rw [hc, HashMap.get_insert] at hr
      split at hr
      · cases hr
        exact .inr ⟨jobId, builder, lease, he, hl, hb⟩
      · exact .inl (.inr ⟨drvHash, hr⟩)
  · rcases hr with hr | ⟨drvHash, hr⟩
    · rcases hf with hf | hf
      · exact .inl (.inl (hf ▸ hr))
      · simp [hf] at hr
    · exact .inl (.inr ⟨drvHash, hc drvHash result hr⟩)

theorem enters_cases {hashers : Hashers} {q q' : BuildQueue} {e : QueueEvent} {result : BuildResult}
    (step : QueueStep hashers q e q') (enters : EntersQueue q q' result) :
    ∃ jobId builder lease, e = .complete jobId builder result true ∧
      q.leased.get? jobId = some lease ∧ lease.builder = builder := by
  rcases results_cases step with ⟨jobId, builder, r, lease, he, hl, hb, hf, hc⟩ | ⟨hf, hc⟩
  · refine ⟨jobId, builder, lease, ?_, hl, hb⟩
    rcases enters with hr | ⟨drvHash, hr, hnew⟩
    · rw [hf] at hr
      cases List.append_cancel_left hr
      exact he
    · rw [hc, HashMap.get_insert] at hr
      split at hr
      · cases hr
        exact he
      · exact absurd hr hnew
  · exfalso
    rcases enters with hr | ⟨drvHash, hr, hnew⟩
    · rcases hf with hf | hf <;> simp [hf] at hr
    · exact hnew (hc drvHash result hr)

theorem not_enters_self {q : BuildQueue} {result : BuildResult} : ¬ EntersQueue q q result := by
  intro h
  rcases h with h | ⟨_, h, hnew⟩
  · simp at h
  · exact hnew h

/-- A listing gossip content brings is of a message the content encodes. -/
theorem handleGossip_lists {codec : Postcard GossipMessage} {crypto : Ed25519} {caches : Caches}
    {sender : EndpointId} {content : Bytes} {blake3 : Bytes32} {info : ProviderInfo}
    (h : (handleGossip codec crypto caches sender content).providerCache.Lists blake3 info)
    (signed : ∀ result, codec.fromBytes content = .ok (.buildComplete result) →
      NamesProvider crypto caches.providerCache result → verifyBuildResult crypto result = true) :
    caches.providerCache.Lists blake3 info ∨
      ∃ msg, codec.fromBytes content = .ok msg ∧
        AdmissibleProvider crypto [(sender, msg)] blake3 info := by
  unfold handleGossip handleMessage at h
  cases hm : codec.fromBytes content with
  | error e =>
    simp only [hm] at h
    exact .inl h
  | ok msg =>
    simp only [hm] at h
    cases msg with
    | want b => exact .inl h
    | needBuilder requester features =>
      simp only [dispatch] at h
      cases hd : crypto.endpointIdFromBytes requester with
      | none =>
        simp only [hd] at h
        exact .inl h
      | some id =>
        simp only [hd] at h
        exact .inl h
    | have' b path size =>
      rcases ProviderCache.add_provider_lists h with h | ⟨hb, hi⟩
      · exact .inl h
      · exact .inr ⟨_, rfl, .inl (by simp [hb, hi])⟩
    | iHave b path size =>
      rcases ProviderCache.add_provider_lists h with h | ⟨hb, hi⟩
      · exact .inl h
      · exact .inr ⟨_, rfl, .inr (.inl (by simp [hb, hi]))⟩
    | buildComplete result =>
      simp only [dispatch] at h
      cases hd : crypto.endpointIdFromBytes result.builder with
      | none =>
        simp only [hd] at h
        exact .inl h
      | some builderId =>
        simp only [hd] at h
        rcases add_outputs_lists h with h | ⟨output, ho, hb, hi, hnew⟩
        · exact .inl h
        · have hv := signed result hm ⟨builderId, hd, output, ho, hnew⟩
          refine .inr ⟨_, rfl, .inr (.inr ⟨sender, result, List.mem_singleton.mpr rfl, hv, ?_,
            output, ho, hb, ?_⟩)⟩
          · rw [hd, hi]
          · rw [hi]

/-- Content that encodes a completed build lists a new provider exactly if it names one. -/
theorem handleGossip_enters {codec : Postcard GossipMessage} {crypto : Ed25519} {caches : Caches}
    {sender : EndpointId} {content : Bytes} {result : BuildResult}
    (hm : codec.fromBytes content = .ok (.buildComplete result)) :
    EntersCache caches.providerCache
        (handleGossip codec crypto caches sender content).providerCache ↔
      NamesProvider crypto caches.providerCache result := by
  unfold EntersCache NamesProvider handleGossip handleMessage
  simp only [hm, dispatch]
  cases hd : crypto.endpointIdFromBytes result.builder with
  | none => simp
  | some builderId =>
    simp only [Option.some.injEq, exists_eq_left']
    constructor
    · intro h
      obtain ⟨blake3, info, hl, hnew⟩ := h
      rcases add_outputs_lists hl with hl | ⟨output, ho, _, _, unlisted⟩
      · exact absurd hl hnew
      · exact ⟨output, ho, unlisted⟩
    · intro h
      obtain ⟨output, ho, unlisted⟩ := h
      obtain ⟨info, hl, hid⟩ := add_outputs_records.mpr (.inr ⟨rfl, output, ho, rfl⟩)
      exact ⟨output.blake3, info, hl, fun old => unlisted ⟨info, old, hid⟩⟩

theorem submitted_snoc (hashers : Hashers) (h : List RequesterEvent) (e : RequesterEvent) :
    submitted hashers (h ++ [e]) = submitted hashers h ++ submitted hashers [e] :=
  List.filterMap_append ..

theorem delivered_snoc (codec : Postcard GossipMessage) (h : List RequesterEvent)
    (e : RequesterEvent) : delivered codec (h ++ [e]) = delivered codec h ++ delivered codec [e] :=
  List.filterMap_append ..

theorem submitted_call (hashers : Hashers) (call : QueueEvent) :
    submitted hashers [.local' call] = (call.pushed hashers).toList := by
  cases hp : call.pushed hashers <;> simp [submitted, hp]

/-- The jobs of the queue are submitted ones. -/
def Booked (hashers : Hashers) (h : List RequesterEvent) (q : BuildQueue) : Prop :=
  ∃ finished, Accounts ⟨submitted hashers h, finished⟩ q

/-- A step that leaves the queue's results and the providers as they were. -/
theorem OnlyAdmissible.keep {hashers : Hashers} {codec : Postcard GossipMessage} {crypto : Ed25519}
    {h : List RequesterEvent} {s t : RequesterNode} (a : OnlyAdmissible hashers codec crypto h s)
    (e : RequesterEvent)
    (results : ∀ result, Holds t.queue result → Holds s.queue result ∨
      AdmissibleResult crypto (submitted hashers h) result)
    (providers : ∀ blake3 info, t.caches.providerCache.Lists blake3 info →
      s.caches.providerCache.Lists blake3 info ∨
        AdmissibleProvider crypto (delivered codec [e]) blake3 info) :
    OnlyAdmissible hashers codec crypto (h ++ [e]) t := by
  have hr : ∀ result, Holds t.queue result →
      AdmissibleResult crypto (submitted hashers (h ++ [e])) result := by
    intro result hr
    rw [submitted_snoc]
    rcases results result hr with (hf | ⟨drvHash, hc⟩) | ha
    · exact (a.fetch result hf).mono _
    · exact (a.completed drvHash result hc).mono _
    · exact ha.mono _
  refine ⟨fun result hf => hr result (.inl hf), fun d result hc => hr result (.inr ⟨d, hc⟩), ?_⟩
  intro blake3 info hl
  rw [delivered_snoc]
  rcases providers blake3 info hl with hl | ha
  · exact (a.providers blake3 info hl).mono _
  · rcases ha with hm | hm | ⟨sender, result, hm, hrest⟩
    · exact .inl (List.mem_append_right _ hm)
    · exact .inr (.inl (List.mem_append_right _ hm))
    · exact .inr (.inr ⟨sender, result, List.mem_append_right _ hm, hrest⟩)

theorem requester_step {hashers : Hashers} {codec : Postcard GossipMessage} {crypto : Ed25519}
    {h : List RequesterEvent} {s t : RequesterNode} {e : RequesterEvent}
    (booked : Booked hashers h s.queue) (a : OnlyAdmissible hashers codec crypto h s)
    (step : RequesterStep hashers codec crypto s e t) (honest : HonestInput codec crypto s e) :
    Booked hashers (h ++ [e]) t.queue ∧ OnlyAdmissible hashers codec crypto (h ++ [e]) t := by
  obtain ⟨finished, accounts⟩ := booked
  cases step with
  | request order now builderId request =>
    have step := handle_request_step hashers s.queue order now builderId request
    have hpushed := (RequestStep.request s.queue order now builderId request).pushed hashers
    refine ⟨⟨_, by simpa [Ledger.record, hpushed, submitted] using accounts.step step⟩,
      a.keep _ ?_ fun _ _ hl => .inl hl⟩
    intro result hr
    rcases holds_cases step hr with hr | ⟨jobId, builder, lease, he, hl, hb⟩
    · exact .inl hr
    · right
      obtain ⟨outputs, r, s', lease', hrequest, hbuilder, hl', hresult⟩ := requestCall_complete he
      cases hl.symm.trans hl'
      rw [hrequest] at honest
      obtain ⟨hverify, hlists⟩ := honest lease hl (hb.trans hbuilder)
      obtain ⟨hmem, hid⟩ := accounts.leased jobId lease hl
      rw [hresult]
      refine ⟨hverify, lease.job, hmem, hid, rfl, fun path hp => ?_⟩
      obtain ⟨output, ho, hpath⟩ := hlists path hp
      exact ⟨output.toBuildOutput, List.mem_map.mpr ⟨output, ho, rfl⟩, hpath⟩
  | local' call queue step isOwn =>
    refine ⟨⟨_, by
      simpa [Ledger.record, submitted_snoc, submitted_call] using accounts.step step⟩,
      a.keep _ ?_ fun _ _ hl => .inl hl⟩
    intro result hr
    rcases holds_cases step hr with hr | ⟨jobId, builder, lease, he, _⟩
    · exact .inl hr
    · rw [he] at isOwn
      simp [ownCall] at isOwn
  | gossip sender content =>
    refine ⟨⟨finished, by simpa [submitted] using accounts⟩,
      a.keep _ (fun _ hr => .inl hr) ?_⟩
    intro blake3 info hl
    rcases handleGossip_lists hl honest with hl | ⟨msg, hm, ha⟩
    · exact .inl hl
    · right
      simpa [delivered, hm, Except.toOption] using ha
  | neighborDown peer =>
    refine ⟨⟨finished, by simpa [submitted] using accounts⟩,
      a.keep _ (fun _ hr => .inl hr) ?_⟩
    intro blake3 info hl
    exact .inl (ProviderCache.remove_provider_lists hl)

/-- A completion brings in a result exactly if it is of a lease that its sender holds. -/
theorem request_admits_iff (hashers : Hashers) {codec : Postcard GossipMessage} {crypto : Ed25519}
    {s : RequesterNode} (order : s.queue.leased.Iter) (now : Instant) (builderId : EndpointId)
    (jobId : UInt64)
    (outputs : List BuildOutputProto) (r s' : Bytes32) :
    (∀ result, EntersQueue s.queue (handleBuildQueueRequest s.queue order now builderId
        (.complete jobId outputs r s')).1 result →
      verifyBuildResult crypto result = true ∧
        ∃ lease, s.queue.leased.get? result.jobId = some lease ∧
          ∀ path ∈ lease.job.outputs, ∃ output ∈ result.outputs, output.storePath = path) ↔
    HonestInput codec crypto s (.request builderId (.complete jobId outputs r s')) := by
  constructor
  · intro admits lease hl hb
    have enters : EntersQueue s.queue (handleBuildQueueRequest s.queue order now builderId
        (.complete jobId outputs r s')).1 (completedResult lease builderId jobId outputs r s') := by
      left
      rw [handle_complete_queue hl]
      rcases s.queue.complete_cases ⟨jobId⟩ builderId
        (completedResult lease builderId jobId outputs r s') with ⟨_, other⟩ | ⟨_, _, _, hq⟩
      · exact absurd hb (other lease hl)
      · rw [hq]
    obtain ⟨hverify, lease', hl', hlists⟩ := admits _ enters
    cases hl.symm.trans hl'
    refine ⟨hverify, fun path hp => ?_⟩
    obtain ⟨output, ho, hpath⟩ := hlists path hp
    obtain ⟨sent, hsent, rfl⟩ := List.mem_map.mp ho
    exact ⟨sent, hsent, hpath⟩
  · intro honest result enters
    obtain ⟨j, builder, lease, he, hl, hb⟩ := enters_cases
      (handle_request_step hashers s.queue order now builderId _) enters
    obtain ⟨outputs', r', s'', lease', hrequest, hbuilder, hl', rfl⟩ := requestCall_complete he
    cases hl.symm.trans hl'
    cases hrequest
    obtain ⟨hverify, hlists⟩ := honest lease hl (hb.trans hbuilder)
    refine ⟨hverify, lease, hl, fun path hp => ?_⟩
    obtain ⟨output, ho, hpath⟩ := hlists path hp
    exact ⟨output.toBuildOutput, List.mem_map.mpr ⟨output, ho, rfl⟩, hpath⟩

theorem admits_only_iff {hashers : Hashers} {codec : Postcard GossipMessage} {crypto : Ed25519}
    {s t : RequesterNode} {e : RequesterEvent} (step : RequesterStep hashers codec crypto s e t) :
    AdmitsOnly codec crypto s e t ↔ HonestInput codec crypto s e := by
  cases step with
  | request order now builderId request =>
    have admits : AdmitsOnly codec crypto s (.request builderId request)
        { s with queue := (handleBuildQueueRequest s.queue order now builderId request).1 } ↔ _ :=
      ⟨AdmitsOnly.results, fun results => ⟨results, fun _ _ _ he => by cases he⟩⟩
    refine admits.trans ?_
    cases request with
    | complete jobId outputs r s' =>
      exact request_admits_iff hashers order now builderId jobId outputs r s'
    | pull | heartbeat | buildLog | fail =>
      refine iff_true_intro fun result enters => ?_
      obtain ⟨_, _, _, he, _⟩ := enters_cases
        (handle_request_step hashers s.queue order now builderId _) enters
      obtain ⟨_, _, _, _, hrequest, _⟩ := requestCall_complete he
      cases hrequest
  | local' call queue step isOwn =>
    refine iff_true_intro ⟨fun result enters => ?_, fun _ _ _ he => by cases he⟩
    obtain ⟨_, _, _, rfl, _⟩ := enters_cases step enters
    cases isOwn
  | gossip sender content =>
    constructor
    · intro admits result hm names
      exact admits.builds sender content result rfl hm ((handleGossip_enters hm).mpr names)
    · intro honest
      refine ⟨fun result enters => absurd enters not_enters_self, ?_⟩
      intro sender' content' result he hm enters
      cases he
      exact honest result hm ((handleGossip_enters hm).mp enters)
  | neighborDown peer =>
    exact iff_true_intro
      ⟨fun _ enters => absurd enters not_enters_self, fun _ _ _ he => by cases he⟩

/-- While every completion by a lease's holder and every completed build told by
gossip is honest, only admissible results are in the node's state; and one event lets only
admissible results in exactly if it is honest. The code checks neither. -/
theorem only_admissible_while_honest (hashers : Hashers) (codec : Postcard GossipMessage)
    (crypto : Ed25519) (ourId : EndpointId) (h : List RequesterEvent) (s : RequesterNode)
    (run : RunWhile (fun _ => HonestInput codec crypto) (RequesterStep hashers codec crypto)
      (.new ourId) h s) :
    OnlyAdmissible hashers codec crypto h s ∧
      ∀ e t, RequesterStep hashers codec crypto s e t →
        (AdmitsOnly codec crypto s e t ↔ HonestInput codec crypto s e) := by
  have start : Booked hashers [] (RequesterNode.new ourId).queue ∧
      OnlyAdmissible hashers codec crypto [] (RequesterNode.new ourId) := by
    refine ⟨⟨[], accounts_new ourId⟩, ?_, ?_, ?_⟩
    · simp [RequesterNode.new, BuildQueue.new]
    · simp [RequesterNode.new, BuildQueue.new]
    · exact fun _ _ hl => absurd hl ProviderCache.new_lists
  have inv := run.invariant
    (fun h s => Booked hashers h s.queue ∧ OnlyAdmissible hashers codec crypto h s) start
    fun h s e t _ a (honest : HonestInput codec crypto s e) step =>
      requester_step a.1 a.2 step honest
  exact ⟨inv.2, fun e t step => admits_only_iff step⟩

section Forgery

/-- A requester's queue with one job leased. -/
def leasedQueue : BuildQueue :=
  (((BuildQueue.new ⟨zeroBytes32⟩).push zeroHashers "/nix/store/a.drv" ["kvm"] ["/nix/store/a"] []
    0).1.pull ⟨zeroBytes32⟩ ["kvm"] 0).1

theorem leasedQueue_lease : leasedQueue.leased.get? ⟨1⟩ =
    some ⟨sampleJob, ⟨zeroBytes32⟩, 0, 0, "starting"⟩ := rfl

/-- A codec under which all content is one message. -/
def constantCodec (msg : GossipMessage) : Postcard GossipMessage :=
  ⟨fun _ => .ok [], fun _ => .ok msg⟩

/-- One job submitted and leased, with nothing to be honest about. -/
theorem leased_run (codec : Postcard GossipMessage) (crypto : Ed25519) :
    ∃ h, submitted zeroHashers h = [sampleJob] ∧ delivered codec h = [] ∧
      RunWhile (fun _ => HonestInput codec crypto) (RequesterStep zeroHashers codec crypto)
        (.new ⟨zeroBytes32⟩) h ⟨leasedQueue, .new⟩ := by
  have start : RunWhile (fun _ => HonestInput codec crypto)
    (RequesterStep zeroHashers codec crypto) (.new ⟨zeroBytes32⟩) [] _ := .nil
  have pushed := start.snoc
    (.local' _ _ _ (.push _ "/nix/store/a.drv" ["kvm"] ["/nix/store/a"] [] 0) rfl) trivial
  obtain ⟨order⟩ := HashMap.iter_exists (∅ : HashMap JobId LeasedJob)
  have pulled := pushed.snoc (.request _ order 0 ⟨zeroBytes32⟩ (.pull ["kvm"] false)) trivial
  exact ⟨_, rfl, rfl, pulled⟩

theorem only_admissible_honest_builder : ∃ h s, s.queue.pendingFetch.length = 1 ∧
    OnlyAdmissible zeroHashers (constantCodec (.want zeroBytes32)) plainCrypto h s := by
  obtain ⟨h, _, _, run⟩ := leased_run (constantCodec (.want zeroBytes32)) plainCrypto
  obtain ⟨order⟩ := HashMap.iter_exists leasedQueue.leased
  have completed := run.snoc (.request _ order 0 ⟨zeroBytes32⟩ (.complete 1
    [⟨"/nix/store/a", zeroBytes32, zeroBytes32, 0⟩] zeroBytes32 zeroBytes32)) (by
    intro lease hl _
    cases hl
    refine ⟨rfl, fun path hp => ⟨_, List.mem_singleton.mpr rfl, ?_⟩⟩
    exact (List.mem_singleton.mp hp).symm)
  refine ⟨_, _, ?_, (only_admissible_while_honest _ _ _ _ _ _ completed).1⟩
  rw [handle_complete_queue leasedQueue_lease]
  rfl

/-- A scheme with no genuine signature. -/
def forgedCrypto : Ed25519 := { plainCrypto with verify := fun _ _ _ => false }

def forgedResult : BuildResult :=
  ⟨⟨1⟩, ⟨zeroBytes32⟩, zeroBytes32, [⟨"/nix/store/a", zeroBytes32, zeroBytes32, 0⟩], zeroBytes32,
    zeroBytes32⟩

/-- An unsigned completion without outputs is accepted, and an unsigned completed
build told by gossip lists the builder it names as a provider. -/
theorem forged_results_enter : ∃ h s,
    Run (RequesterStep zeroHashers (constantCodec (.buildComplete forgedResult)) forgedCrypto)
      (.new ⟨zeroBytes32⟩) h s ∧
    ¬ (∀ result ∈ s.queue.pendingFetch,
      AdmissibleResult forgedCrypto (submitted zeroHashers h) result) ∧
    ¬ (∀ blake3 info, s.caches.providerCache.Lists blake3 info →
      AdmissibleProvider forgedCrypto
        (delivered (constantCodec (.buildComplete forgedResult)) h) blake3 info) := by
  obtain ⟨h, hjobs, hinbox, run⟩ := leased_run (constantCodec (.buildComplete forgedResult))
    forgedCrypto
  obtain ⟨order⟩ := HashMap.iter_exists leasedQueue.leased
  have forged := (run.run.snoc (.request _ order 0 ⟨zeroBytes32⟩
    (.complete 1 [] zeroBytes32 zeroBytes32))).snoc (.gossip _ ⟨zeroBytes32⟩ [])
  refine ⟨_, _, forged, fun hall => ?_, fun hall => ?_⟩
  · rw [handle_complete_queue leasedQueue_lease] at hall
    exact absurd (hall _ List.mem_cons_self).1 (by decide)
  · have ha := hall zeroBytes32 ⟨⟨zeroBytes32⟩, "/nix/store/a", 0⟩
      ⟨_, rfl, List.mem_singleton.mpr rfl⟩
    simp only [delivered_snoc, hinbox, List.nil_append] at ha
    rcases ha with hm | hm | ⟨sender, result, _, hv, _⟩
    · cases List.mem_singleton.mp hm
    · cases List.mem_singleton.mp hm
    · simp only [verifyBuildResult, forgedCrypto, plainCrypto, Bool.false_eq_true] at hv

end Forgery

end IrohNix.Requester
