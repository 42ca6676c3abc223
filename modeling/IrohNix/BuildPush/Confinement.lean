import IrohNix.BuildPush.Import
import IrohNix.Requester.Admission

namespace IrohNix.BuildPush
open IrohNix.Lib IrohNix.Build IrohNix.Builder IrohNix.Nix IrohNix.Node IrohNix.Requester
open IrohNix.Transfer

/-- Some node's answer is accepted as the NAR of the hash. -/
def Deliverable (hashers : Hashers) (codec : NarCodec) (blake3 : Blake3Hash) : Prop :=
  ∃ peer header nar, fetchNarOnce hashers codec peer blake3 = .ok (header, nar)

/-- A peer that names the path and the hash can have `nix-store --restore` run on it. -/
def Restorable (hashers : Hashers) (codec : NarCodec) (path : String) (blake3 : Bytes32) : Prop :=
  hasNul path = false ∧ Deliverable hashers codec ⟨blake3⟩

section
variable {hashers : Hashers} {codec : NarCodec}

theorem deliverable_of_fetch {config : RetryConfig} {peer : Nat → NarExchange}
    {blake3 : Blake3Hash} {answer : NarResponseHeader × Bytes}
    (h : fetchNarWithConfig hashers codec config peer blake3 = .ok answer) :
    Deliverable hashers codec blake3 := by
  obtain ⟨attempt, ho⟩ := withRetry_ok h
  exact ⟨peer attempt, answer.1, answer.2, ho⟩

/-- Nodes that deliver whatever can be delivered. -/
theorem delivering_peers (hashers : Hashers) (codec : NarCodec) :
    ∃ peer : Bytes32 → NarExchange, ∀ blake3, Deliverable hashers codec ⟨blake3⟩ →
      ∃ header nar, fetchNarOnce hashers codec (peer blake3) ⟨blake3⟩ = .ok (header, nar) := by
  have h : ∀ blake3 : Bytes32, ∃ peer, Deliverable hashers codec ⟨blake3⟩ →
      ∃ header nar, fetchNarOnce hashers codec peer ⟨blake3⟩ = .ok (header, nar) := by
    intro blake3
    by_cases hd : Deliverable hashers codec ⟨blake3⟩
    · obtain ⟨peer, answer⟩ := hd
      exact ⟨peer, fun _ => answer⟩
    · exact ⟨default, fun h => absurd h hd⟩
  exact Classical.skolem.mp h

end

/-- The first missing inputs that can be fetched and restored are inside the store. -/
def InputsConfined (hashers : Hashers) (codec : NarCodec) (missing : List InputPathProto) : Prop :=
  ∀ (i : Nat) (hi : i < missing.length),
    (∀ (j : Nat) (hj : j ≤ i), Restorable hashers codec missing[j].storePath missing[j].blake3) →
    InsideStore missing[i].storePath

theorem fetchDependency_willing {hashers : Hashers} {codec : NarCodec} {peer : NarExchange}
    {input : InputPathProto} {header : NarResponseHeader} {nar : Bytes}
    (hf : fetchNarOnce hashers codec peer ⟨input.blake3⟩ = .ok (header, nar))
    (hz : hasNul input.storePath = false) (nix : NixDatabase) :
    (fetchDependency hashers codec ⟨fun _ => peer, .willing, nix⟩ input).result = .ok () ∧
      .restore input.storePath nar ∈
        (fetchDependency hashers codec ⟨fun _ => peer, .willing, nix⟩ input).effects := by
  have hfetch : fetchNarWithConfig hashers codec .aggressive (fun _ => peer) ⟨input.blake3⟩ =
      .ok (header, nar) := withRetry_first .aggressive hf
  simp [fetchDependency, hfetch, import_willing hz, insertEntry]

/-- A dependency that was fetched could be. -/
theorem restorable_of_fetched {hashers : Hashers} {codec : NarCodec} {env : DependencyEnv}
    {input : InputPathProto}
    (h : (fetchDependency hashers codec env input).result = .ok ()) :
    Restorable hashers codec input.storePath input.blake3 := by
  simp only [fetchDependency, Logged.bind_ok, Logged.result_lift] at h
  obtain ⟨answer, hf, _, himport, _⟩ := h
  exact ⟨import_ok himport, deliverable_of_fetch hf⟩

/-- The paths restored are those missing, up to the first that cannot be fetched and
restored. -/
theorem fetchMissing_restores {hashers : Hashers} {codec : NarCodec}
    {missing : List InputPathProto} {path : String} :
    (∃ env nar, .restore path nar ∈ (fetchMissing hashers codec env missing).effects) ↔
    ∃ (i : Nat) (hi : i < missing.length),
      (∀ (j : Nat) (hj : j ≤ i),
        Restorable hashers codec missing[j].storePath missing[j].blake3) ∧
      path = missing[i].storePath := by
  simp only [fetchMissing, Logged.mem_forEach_zipIdx]
  constructor
  · intro h
    obtain ⟨env, nar, i, hi, hbefore, he⟩ := h
    obtain ⟨hpath, hz, header, hf⟩ := fetchDependency_restores he
    refine ⟨i, hi, fun j hj => ?_, hpath⟩
    rcases Nat.lt_or_eq_of_le hj with hlt | rfl
    · exact restorable_of_fetched (hbefore j hlt)
    · exact ⟨hpath ▸ hz, deliverable_of_fetch hf⟩
  · intro h
    obtain ⟨i, hi, hall, rfl⟩ := h
    obtain ⟨peer, hpeer⟩ := delivering_peers hashers codec
    have step : ∀ (j : Nat) (hj : j ≤ i), ∃ nar,
        (fetchDependency hashers codec ⟨fun _ => peer missing[j].blake3, .willing, emptyDatabase⟩
          missing[j]).result = .ok () ∧
        .restore missing[j].storePath nar ∈ (fetchDependency hashers codec
          ⟨fun _ => peer missing[j].blake3, .willing, emptyDatabase⟩ missing[j]).effects := by
      intro j hj
      obtain ⟨hz, hd⟩ := hall j hj
      obtain ⟨header, nar, hf⟩ := hpeer _ hd
      exact ⟨nar, fetchDependency_willing hf hz emptyDatabase⟩
    obtain ⟨nar, _, hrestore⟩ := step i (Nat.le_refl i)
    refine ⟨fun j => ⟨fun _ => peer ((missing[j]?.map InputPathProto.blake3).getD zeroBytes32),
      .willing, emptyDatabase⟩, nar, i, hi, fun j hj => ?_, ?_⟩
    · have hlen : j < missing.length := by omega
      obtain ⟨_, hok, _⟩ := step j (by omega)
      simpa [hlen] using hok
    · simpa [hi] using hrestore

theorem inputs_confined_iff (hashers : Hashers) (codec : NarCodec)
    (missing : List InputPathProto) :
    (∀ env path nar, .restore path nar ∈ (fetchMissing hashers codec env missing).effects →
      InsideStore path) ↔ InputsConfined hashers codec missing := by
  constructor
  · intro h i hi hall
    obtain ⟨env, nar, he⟩ := fetchMissing_restores.mpr ⟨i, hi, hall, rfl⟩
    exact h env _ nar he
  · intro h env path nar he
    obtain ⟨i, hi, hall, rfl⟩ := fetchMissing_restores.mp ⟨env, nar, he⟩
    exact h i hi hall

theorem importOutput_restores_iff {hashers : Hashers} {codec : NarCodec} {output : BuildOutput}
    {path : String} :
    (∃ env nar, .restore path nar ∈ (importOutput hashers codec env output).effects) ↔
      path = output.storePath ∧ Restorable hashers codec output.storePath output.blake3 := by
  constructor
  · intro h
    obtain ⟨env, nar, he⟩ := h
    obtain ⟨rfl, hz, header, hf⟩ := importOutput_restores he
    exact ⟨rfl, hz, deliverable_of_fetch hf⟩
  · intro h
    obtain ⟨rfl, hz, peer, header, nar, hf⟩ := h
    have hfetch : fetchNarWithConfig hashers codec .default (fun _ => peer) ⟨output.blake3⟩ =
        .ok (header, nar) := withRetry_first .default hf
    refine ⟨⟨fun _ => peer, .willing, emptyDatabase⟩, nar, ?_⟩
    unfold importOutput
    rw [Logged.mem_bind]
    refine .inr ⟨_, Logged.result_attempt _, ?_⟩
    rw [fetchFrom_ok hfetch emptyDatabase]
    simp [import_willing hz]

/-- The builder and the outputs of a completed build. -/
def completion (result : BuildResult) : Bytes32 × List BuildOutput :=
  (result.builder, result.outputs)

/-- Of the completions before the first whose builder is no key, every output that can
be fetched and restored is inside the store. -/
def OutputsConfined (crypto : Ed25519) (hashers : Hashers) (codec : NarCodec)
    (completions : List (Bytes32 × List BuildOutput)) : Prop :=
  ∀ (r : Nat) (hr : r < completions.length),
    (∀ (j : Nat) (hj : j ≤ r), (crypto.endpointIdFromBytes completions[j].1).isSome) →
    ∀ output ∈ completions[r].2, Restorable hashers codec output.storePath output.blake3 →
      InsideStore output.storePath

theorem fetchOutputs_restores {crypto : Ed25519} {hashers : Hashers} {codec : NarCodec}
    {q : BuildQueue} {path : String} :
    (∃ env nar, .restore path nar ∈ (fetchOutputs crypto hashers codec env q).2.effects) ↔
    ∃ (r : Nat) (hr : r < q.pendingFetch.length),
      (∀ (j : Nat) (hj : j ≤ r),
        (crypto.endpointIdFromBytes q.pendingFetch[j].builder).isSome) ∧
      ∃ output ∈ q.pendingFetch[r].outputs, path = output.storePath ∧
        Restorable hashers codec output.storePath output.blake3 := by
  simp only [fetchOutputs_effects, importResult_restores]
  constructor
  · intro h
    obtain ⟨env, nar, r, hr, hbefore, hkey, o, ho, he⟩ := h
    refine ⟨r, hr, fun j hj => ?_, _, List.getElem_mem ho, importOutput_restores_iff.mp ⟨_, _, he⟩⟩
    rcases Nat.lt_or_eq_of_le hj with hlt | rfl
    · exact hbefore j hlt
    · exact hkey
  · intro h
    obtain ⟨r, hr, hkeys, output, hmem, hout⟩ := h
    obtain ⟨o, ho, rfl⟩ := List.getElem_of_mem hmem
    obtain ⟨env, nar, he⟩ := importOutput_restores_iff.mpr hout
    exact ⟨fun _ _ => env, nar, r, hr, fun j hj => hkeys j (by omega), hkeys r (by omega), o, ho, he⟩

theorem outputs_confined_iff (crypto : Ed25519) (hashers : Hashers) (codec : NarCodec)
    (q : BuildQueue) :
    (∀ env path nar, .restore path nar ∈ (fetchOutputs crypto hashers codec env q).2.effects →
      InsideStore path) ↔
    OutputsConfined crypto hashers codec (q.pendingFetch.map completion) := by
  constructor
  · intro h r hr hkeys output hmem hrestorable
    simp only [List.getElem_map, List.length_map, completion] at hr hkeys hmem
    obtain ⟨env, nar, he⟩ := fetchOutputs_restores.mpr
      ⟨r, hr, hkeys, output, hmem, rfl, hrestorable⟩
    exact h env _ nar he
  · intro h env path nar he
    obtain ⟨r, hr, hkeys, output, hmem, rfl, hrestorable⟩ :=
      fetchOutputs_restores.mp ⟨env, nar, he⟩
    refine h r (by simpa using hr) ?_ output ?_ hrestorable
    · simpa [completion] using hkeys
    · simpa [completion] using hmem

/-- Something that reaches a requester's queue: a builder's request, with the reply to
it, or the requester's own use of the queue. -/
inductive QueueUse where
  | request (builderId : EndpointId) (request : BuildQueueRequest) (reply : BuildQueueResponse)
  | own (e : QueueEvent)

inductive QueueUseStep (hashers : Hashers) : BuildQueue → QueueUse → BuildQueue → Prop where
  | request (q : BuildQueue) (order : q.leased.Iter) (now : Instant) (builderId : EndpointId)
      (request : BuildQueueRequest) :
      QueueUseStep hashers q
        (.request builderId request (handleBuildQueueRequest q order now builderId request).2)
        (handleBuildQueueRequest q order now builderId request).1
  | own (q q' : BuildQueue) (e : QueueEvent) (step : QueueStep hashers q e q')
      (isOwn : ownCall e = true) : QueueUseStep hashers q (.own e) q'

/-- What there is to fetch after one more use of the queue: the outputs named by
each completion request that was acknowledged, until an iteration takes them. -/
def QueueUse.collect (waiting : List (Bytes32 × List BuildOutput)) :
    QueueUse → List (Bytes32 × List BuildOutput)
  | .request builderId (.complete _ outputs _ _) .completeAck =>
    waiting ++ [(builderId.asBytes, outputs.map BuildOutputProto.toBuildOutput)]
  | .own (.takePendingFetches _) => []
  | _ => waiting

def uncollected (h : List QueueUse) : List (Bytes32 × List BuildOutput) :=
  h.foldl QueueUse.collect []

theorem collect_request (q : BuildQueue) (order : q.leased.Iter) (now : Instant)
    (builderId : EndpointId) (request : BuildQueueRequest) :
    (handleBuildQueueRequest q order now builderId request).1.pendingFetch.map completion =
      QueueUse.collect (q.pendingFetch.map completion)
        (.request builderId request (handleBuildQueueRequest q order now builderId request).2) := by
  cases request with
  | pull features streamLogs =>
    simp only [handleBuildQueueRequest]
    rcases q.pull_cases builderId features now with ⟨_, hq⟩ | ⟨_, job, _, _, _, _, hq⟩ <;>
      simp [hq, QueueUse.collect]
  | heartbeat jobId status =>
    simp only [handleBuildQueueRequest]
    rcases q.heartbeat_cases ⟨jobId⟩ builderId status now with ⟨hq, _⟩ | ⟨_, _, _, hq⟩ <;>
      simp [hq, QueueUse.collect]
  | buildLog jobId data stream => rfl
  | fail jobId error =>
    simp only [handleBuildQueueRequest]
    rcases q.fail_cases ⟨jobId⟩ builderId error with ⟨hq, _⟩ | ⟨_, _, _, hq⟩ <;>
      simp [hq, QueueUse.collect]
  | complete jobId outputs r s =>
    simp only [handleBuildQueueRequest, BuildQueue.listLeased, HashMap.Iter.find_key]
    cases hl : q.leased.get? (JobId.mk jobId) with
    | none => simp [QueueUse.collect]
    | some lease =>
      simp only [Option.map_some]
      rcases q.complete_cases ⟨jobId⟩ builderId (completedResult lease builderId jobId outputs r s)
        with ⟨hq, _⟩ | ⟨_, _, _, hq⟩
      · rw [hq]
        rfl
      · rw [hq]
        simp [QueueUse.collect, completion, completedResult]

theorem collect_own {hashers : Hashers} {q q' : BuildQueue} {e : QueueEvent}
    (step : QueueStep hashers q e q') (isOwn : ownCall e = true) :
    q'.pendingFetch.map completion =
      QueueUse.collect (q.pendingFetch.map completion) (.own e) := by
  cases step with
  | push | takePendingFetches => rfl
  | pull | heartbeat | complete | broadcastLog => simp [ownCall] at isOwn
  | fail jobId builder error =>
    rcases q.fail_cases jobId builder error with ⟨hq, _⟩ | ⟨_, _, _, hq⟩ <;>
      simp [hq, QueueUse.collect]
  | checkTimeouts order now =>
    have keep : ∀ (p : BuildQueue) jobId lease, p.pendingFetch = q.pendingFetch →
        p.leased.get? jobId = some lease → (p.expire jobId lease).pendingFetch = q.pendingFetch :=
      fun p jobId lease hp _ => hp
    have hq := BuildQueue.check_timeouts_induct keep order now rfl
    simp [hq, QueueUse.collect]

/-- What waits to be fetched is what acknowledged completions named since the last
iteration. -/
theorem pending_uncollected {hashers : Hashers} {ourId : EndpointId} {h : List QueueUse}
    {q : BuildQueue} (run : Run (QueueUseStep hashers) (.new ourId) h q) :
    q.pendingFetch.map completion = uncollected h := by
  refine Run.invariant (fun h q => q.pendingFetch.map completion = uncollected h) rfl ?_ run
  intro h q e q' _ hI step
  rw [uncollected, List.foldl_append, List.foldl_cons, List.foldl_nil, ← uncollected, ← hI]
  cases step with
  | request order now builderId request => exact collect_request q order now builderId request
  | own _ _ step isOwn => exact collect_own step isOwn

/-- Builders restore only inside the store exactly when the jobs they are given name
such paths, and requesters when the completions they acknowledge do, paths that cannot
be fetched and restored at all aside. -/
theorem restores_inside_iff (crypto : Ed25519) (hashers : Hashers) (codec : NarCodec) :
    (∀ pathExists inputPaths,
      (∀ env path nar,
        .restore path nar ∈
          (fetchDependencies hashers codec pathExists env inputPaths).effects →
        InsideStore path) ↔
      InputsConfined hashers codec (missingPaths pathExists inputPaths)) ∧
    ∀ ourId h q, Run (QueueUseStep hashers) (.new ourId) h q →
      ((∀ env path nar,
        .restore path nar ∈ (fetchOutputs crypto hashers codec env q).2.effects →
        InsideStore path) ↔
      OutputsConfined crypto hashers codec (uncollected h)) := by
  refine ⟨fun pathExists inputPaths => ?_, fun ourId h q run => ?_⟩
  · exact inputs_confined_iff hashers codec (missingPaths pathExists inputPaths)
  · rw [← pending_uncollected run]
    exact outputs_confined_iff crypto hashers codec q

section Escape

/-- The leased job completed with an output at the path, of the empty NAR. -/
def completedQueue (path : String) : BuildQueue :=
  (leasedQueue.complete ⟨1⟩ ⟨zeroBytes32⟩ ⟨⟨1⟩, ⟨zeroBytes32⟩, zeroBytes32,
    [⟨path, zeroBytes32, zeroBytes32, 0⟩], zeroBytes32, zeroBytes32⟩).1

theorem completed_run (path : String) :
    ∃ h, Run (QueueUseStep zeroHashers) (.new ⟨zeroBytes32⟩) h (completedQueue path) := by
  have start : Run (QueueUseStep zeroHashers) (.new ⟨zeroBytes32⟩) [] _ := .nil
  have pushed := start.snoc
    (.own _ _ _ (.push _ "/nix/store/a.drv" ["kvm"] ["/nix/store/a"] [] 0) rfl)
  obtain ⟨order⟩ := HashMap.iter_exists (∅ : HashMap JobId LeasedJob)
  have pulled : Run (QueueUseStep zeroHashers) _ _ leasedQueue :=
    pushed.snoc (.request _ order 0 ⟨zeroBytes32⟩ (.pull ["kvm"] false))
  obtain ⟨order'⟩ := HashMap.iter_exists leasedQueue.leased
  have completed := pulled.snoc (.request _ order' 0 ⟨zeroBytes32⟩
    (.complete 1 [⟨path, zeroBytes32, zeroBytes32, 0⟩] zeroBytes32 zeroBytes32))
  rw [handle_complete_queue leasedQueue_lease] at completed
  exact ⟨_, completed⟩

theorem restores_inside_honest : ∃ h q,
    Run (QueueUseStep zeroHashers) (.new ⟨zeroBytes32⟩) h q ∧ q.pendingFetch.length = 1 ∧
    ∀ env path nar, .restore path nar ∈
      (fetchOutputs plainCrypto zeroHashers shortCodec env q).2.effects → InsideStore path := by
  obtain ⟨h, run⟩ := completed_run "/nix/store/a"
  refine ⟨h, _, run, rfl,
    ((restores_inside_iff plainCrypto zeroHashers shortCodec).2 _ h _ run).mpr ?_⟩
  rw [← pending_uncollected run]
  intro r hr _ output hmem _
  obtain rfl : r = 0 := Nat.lt_one_iff.mp hr
  cases List.mem_singleton.mp hmem
  decide

/-- A job's input path and a completion's output path are restored outside the store. -/
theorem restores_outside :
    (∃ env nar, .restore "/etc/cron.d/job" nar ∈ (fetchDependencies zeroHashers shortCodec
      (fun _ => false) env [⟨"/etc/cron.d/job", zeroBytes32⟩]).effects) ∧
    ¬ InsideStore "/etc/cron.d/job" ∧
    (∃ h q, Run (QueueUseStep zeroHashers) (.new ⟨zeroBytes32⟩) h q ∧
      ∃ env nar, .restore "/nix/store/../../etc/cron.d/job" nar ∈
        (fetchOutputs plainCrypto zeroHashers shortCodec env q).2.effects) ∧
    ¬ InsideStore "/nix/store/../../etc/cron.d/job" := by
  have delivered : fetchNarOnce zeroHashers shortCodec (.answering (emptyNarResponse ""))
      ⟨zeroBytes32⟩ = .ok (⟨0, zeroBytes32, ""⟩, []) := rfl
  have restorable : ∀ path, hasNul path = false →
      Restorable zeroHashers shortCodec path zeroBytes32 :=
    fun path hz => ⟨hz, _, _, _, delivered⟩
  refine ⟨fetchMissing_restores.mpr ⟨0, by decide, ?_, rfl⟩, by decide, ?_, by decide⟩
  · intro j hj
    obtain rfl : j = 0 := Nat.le_zero.mp hj
    exact restorable "/etc/cron.d/job" (by decide)
  · obtain ⟨h, run⟩ := completed_run "/nix/store/../../etc/cron.d/job"
    refine ⟨h, _, run, fetchOutputs_restores.mpr ⟨0, Nat.one_pos, ?_, _, List.mem_singleton_self _,
      rfl, restorable _ (by decide)⟩⟩
    intro j hj
    obtain rfl : j = 0 := Nat.le_zero.mp hj
    rfl

end Escape

end IrohNix.BuildPush
