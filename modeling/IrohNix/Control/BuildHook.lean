import IrohNix.Build.Accounting
import IrohNix.Builder.Handler
import IrohNix.Control.Handler
import IrohNix.Index.ThreeWay

namespace IrohNix

namespace Builder

/-- The inputs of a job, as a response tells of them. -/
def BuildQueueResponse.inputPaths : BuildQueueResponse → List InputPathProto
  | .job _ _ _ _ inputPaths => inputPaths
  | _ => []

end Builder

namespace Control
open IrohNix.Lib IrohNix.Build IrohNix.Builder IrohNix.Index

/-- What nix-daemon sends the hook for one build, the last two after an accept. -/
structure HookBuild where
  amWilling : UInt32
  neededSystem : String
  drvPath : String
  requiredFeatures : List String
  inputStorePaths : List String
  missingOutputs : List String

namespace HookBuild

def systemFeatures (build : HookBuild) : List String := build.neededSystem :: build.requiredFeatures

def machineSpec (build : HookBuild) : String :=
  "ssh://iroh-builder " ++ build.neededSystem ++ " - 1 1 " ++ ",".intercalate build.systemFeatures ++
    " " ++ ",".intercalate build.requiredFeatures ++ " -\n"

/-- What the hook writes, by whether the daemon knows of builders. -/
def decision (build : HookBuild) (available : Bool) : List String :=
  if available then ["# accept\n", build.machineSpec]
  else if build.amWilling = 0 then ["# postpone\n"]
  else ["# decline\n"]

/-- The hook does not know the hashes: it leaves them to the daemon. -/
def inputPaths (build : HookBuild) : List InputPathInfo :=
  build.inputStorePaths.map fun sp => ⟨sp, zeroBytes32⟩

/-- What the hook submits, if it accepts. -/
def submission (build : HookBuild) (available : Bool) : Option ControlRequest :=
  if available then
    some (.submitBuild build.drvPath build.neededSystem build.requiredFeatures build.inputPaths
      build.missingOutputs)
  else none

end HookBuild

/-- Who makes a call on the queue: a hook with the build it submits, a builder with the
request that is answered, or another part of the node. -/
inductive Caller where
  | hook (build : HookBuild) (response : ControlResponse)
  | builder (builderId : EndpointId) (request : BuildQueueRequest) (response : BuildQueueResponse)
  | node

structure DaemonEvent where
  call : QueueEvent
  caller : Caller

/-- The call `SubmitBuild` makes for a hook. -/
def submitCall (hashers : Hashers) (q : BuildQueue) (build : HookBuild) (timestamp : UInt64) :
    QueueEvent :=
  let inputs := build.inputPaths.map fun ip => InputPath.mk ip.storePath ip.blake3
  let (_, jobId, shouldAnnounce) :=
    q.push hashers build.drvPath build.systemFeatures build.missingOutputs inputs timestamp
  .push build.drvPath build.systemFeatures build.missingOutputs inputs timestamp jobId
    shouldAnnounce

/-- The daemon: a hook asks for builders and submits, a builder's request is answered,
or anything else is called on the queue. -/
inductive DaemonStep (hashers : Hashers) : BuildQueue → DaemonEvent → BuildQueue → Prop where
  | hook (q : BuildQueue) (first second : q.leased.Iter) (timestamp : UInt64) (build : HookBuild)
      (available : Bool) (count : Nat) (request : ControlRequest)
      (asked : (handleControlRequest hashers q first second timestamp
        (.hasBuilders build.systemFeatures)).response = .hasBuilders available count)
      (submits : build.submission available = some request) :
      DaemonStep hashers q
        ⟨submitCall hashers q build timestamp,
          .hook build (handleControlRequest hashers q first second timestamp request).response⟩
        (handleControlRequest hashers q first second timestamp request).queue
  | builder (q : BuildQueue) (order : q.leased.Iter) (now : Instant) (builderId : EndpointId)
      (request : BuildQueueRequest) :
      DaemonStep hashers q
        ⟨requestCall q now builderId request,
          .builder builderId request (handleBuildQueueRequest q order now builderId request).2⟩
        (handleBuildQueueRequest q order now builderId request).1
  | node (q q' : BuildQueue) (e : QueueEvent) (step : QueueStep hashers q e q') :
      DaemonStep hashers q ⟨e, .node⟩ q'

theorem DaemonStep.queueStep {hashers : Hashers} {q q' : BuildQueue} {e : DaemonEvent}
    (step : DaemonStep hashers q e q') : QueueStep hashers q e.call q' := by
  cases step with
  | hook first second timestamp build available count request asked submits =>
    rw [HookBuild.submission] at submits
    split at submits
    · cases submits
      exact .push q build.drvPath build.systemFeatures build.missingOutputs _ timestamp
    · cases submits
  | builder order now builderId request =>
    exact handle_request_step hashers q order now builderId request
  | node _ _ step => exact step

/-- The calls of a daemon's run are a run of its queue. -/
theorem queue_of_daemon {hashers : Hashers} {ourId : EndpointId} {h : List DaemonEvent}
    {q : BuildQueue} (run : Run (DaemonStep hashers) (BuildQueue.new ourId) h q) :
    QueueRun hashers ourId (h.map DaemonEvent.call) q := by
  induction run with
  | nil => exact .nil
  | snoc run last ih =>
    rw [List.map_append]
    exact ih.snoc last.queueStep

/-- A job that a pull hands out was submitted. -/
theorem pulled_submitted {hashers : Hashers} {ourId : EndpointId} {h : List QueueEvent}
    {q : BuildQueue} (run : QueueRun hashers ourId h q) {builder : EndpointId}
    {features : List String} {now : Instant} {job : BuildJob}
    (pulled : .pull builder features now (some job) ∈ h) :
    ∃ e ∈ h, e.pushed hashers = some job := by
  induction run with
  | nil => contradiction
  | @snoc h s t e run last ih =>
    rcases List.mem_append.mp pulled with earlier | here
    · obtain ⟨e', he, hp⟩ := ih earlier
      exact ⟨e', List.mem_append_left _ he, hp⟩
    · rw [List.mem_singleton] at here
      subst here
      generalize hcall : QueueEvent.pull builder features now (some job) = call at last
      cases last with
      | pull builder features now =>
        simp only [QueueEvent.pull.injEq] at hcall
        have pending : job ∈ s.pending := by
          rcases s.pull_cases builder features now with ⟨_, hq⟩ | ⟨before, job', after, hp, _, _, hq⟩
          · rw [hq] at hcall
            simp at hcall
          · rw [hq] at hcall
            obtain ⟨_, _, _, hjob⟩ := hcall
            cases hjob
            simp [hp]
        obtain ⟨e', he, hp⟩ := List.mem_filterMap.mp ((accounts_run run).pending job pending)
        exact ⟨e', List.mem_append_left _ he, hp⟩
      | _ => cases hcall

/-- What a hook submits and what a builder is handed, in every event of a daemon's run. -/
structure DaemonEvent.Carries (hashers : Hashers) (e : DaemonEvent) : Prop where
  submitted : ∀ build response job, e.caller = .hook build response →
    e.call.pushed hashers = some job →
      response = .buildSubmitted job.id.val ∧
      job.inputPaths = build.inputStorePaths.map fun sp => ⟨sp, zeroBytes32⟩
  handed : ∀ builder features now job builderId request response,
    e.call = .pull builder features now (some job) →
      e.caller = .builder builderId request response → response = jobResponse job

theorem DaemonStep.carries {hashers : Hashers} {q q' : BuildQueue} {e : DaemonEvent}
    (step : DaemonStep hashers q e q') : e.Carries hashers := by
  cases step with
  | hook first second timestamp build available count request asked submits =>
    refine ⟨?_, fun _ _ _ _ _ _ _ _ hcaller => (by cases hcaller)⟩
    intro build' response job hcaller hpushed
    rw [HookBuild.submission] at submits
    split at submits
    · cases submits
      cases hcaller
      cases hpushed
      exact ⟨rfl, by simp [HookBuild.inputPaths]⟩
    · cases submits
  | builder order now builderId request =>
    refine ⟨fun _ _ _ hcaller => (by cases hcaller), ?_⟩
    intro builder features at_ job builderId' request' response hcall hcaller
    cases hcaller
    cases request with
    | pull systemFeatures streamLogs =>
      simp only [requestCall, QueueEvent.pull.injEq] at hcall
      obtain ⟨_, _, _, hjob⟩ := hcall
      simp only [handleBuildQueueRequest]
      generalize q.pull builderId systemFeatures now = answer at hjob ⊢
      obtain ⟨_, taken⟩ := answer
      cases hjob
      rfl
    | complete jobId outputs r s =>
      simp only [requestCall] at hcall
      split at hcall <;> cases hcall
    | heartbeat | buildLog | fail => cases hcall
  | node _ _ step =>
    exact ⟨fun _ _ _ hcaller => (by cases hcaller),
      fun _ _ _ _ _ _ _ _ hcaller => (by cases hcaller)⟩

theorem daemon_carries {hashers : Hashers} {ourId : EndpointId} {h : List DaemonEvent}
    {q : BuildQueue} (run : Run (DaemonStep hashers) (BuildQueue.new ourId) h q) :
    ∀ e ∈ h, e.Carries hashers := by
  induction run with
  | nil => simp
  | snoc run last ih =>
    intro e he
    rcases List.mem_append.mp he with earlier | here
    · exact ih e earlier
    · rw [List.mem_singleton] at here
      exact here ▸ last.carries

/-- The input is asked for by the hash that the index has for its path. -/
def Fetchable (index : HashIndex) (input : InputPathProto) : Prop :=
  ∃ entry, index.getByStorePath input.storePath = some entry ∧ entry.blake3 = ⟨input.blake3⟩

/-- The index answers the request that the builder makes for such an input. -/
theorem Fetchable.served {index : HashIndex} {input : InputPathProto} (h : Fetchable index input) :
    ∃ entry, index.getByBlake3 ⟨input.blake3⟩ = some entry ∧
      index.getByStorePath input.storePath = some entry := by
  obtain ⟨entry, hpath, hblake⟩ := h
  have holds := (HashIndex.Returns.byStorePath _ hpath).holds
  exact ⟨entry, hblake ▸ holds.byBlake3, hpath⟩

/-- What a builder is told of the inputs that a hook submits. -/
theorem told_inputs {job : BuildJob} {build : HookBuild}
    (inputs : job.inputPaths = build.inputStorePaths.map fun sp => ⟨sp, zeroBytes32⟩) :
    (jobResponse job).inputPaths = build.inputStorePaths.map fun sp => ⟨sp, zeroBytes32⟩ := by
  simp [jobResponse, BuildQueueResponse.inputPaths, inputs, InputPathProto.ofInputPath]

/-- A job that reaches a builder was submitted; one that a hook submitted carries the
hashes of the index exactly if these are all zero. -/
theorem hook_inputs_iff (hashers : Hashers) (ourId : EndpointId) (index : HashIndex)
    (h : List DaemonEvent) (q : BuildQueue)
    (run : Run (DaemonStep hashers) (BuildQueue.new ourId) h q) (builder builderId : EndpointId)
    (features : List String) (now : Instant) (job : BuildJob) (request : BuildQueueRequest)
    (response : BuildQueueResponse)
    (handed : ⟨.pull builder features now (some job), .builder builderId request response⟩ ∈ h) :
    (∃ e ∈ h, e.call.pushed hashers = some job) ∧
      ∀ build submitted call, ⟨call, .hook build submitted⟩ ∈ h →
        call.pushed hashers = some job →
        (∀ path ∈ build.inputStorePaths, ∃ entry, index.getByStorePath path = some entry) →
        ((∀ input ∈ response.inputPaths, Fetchable index input) ↔
          ∀ path ∈ build.inputStorePaths, ∀ entry, index.getByStorePath path = some entry →
            entry.blake3.bytes = zeroBytes32) := by
  have carries := daemon_carries run
  have reply : response = jobResponse job := (carries _ handed).handed _ _ _ _ _ _ _ rfl rfl
  constructor
  · obtain ⟨call, hcall, hpushed⟩ := pulled_submitted (queue_of_daemon run)
      (List.mem_map.mpr ⟨_, handed, rfl⟩)
    obtain ⟨e, he, rfl⟩ := List.mem_map.mp hcall
    exact ⟨e, he, hpushed⟩
  · intro build submitted call hook hpushed indexed
    obtain ⟨_, inputs⟩ := (carries _ hook).submitted _ _ _ rfl hpushed
    rw [reply, told_inputs inputs, List.forall_mem_map]
    refine forall₂_congr fun path hpath => ?_
    obtain ⟨known, hknown⟩ := indexed path hpath
    simp only [Fetchable, hknown, Option.some.injEq, exists_eq_left', forall_eq', Blake3Hash.ext_iff]

def sampleBuild : HookBuild := ⟨0, "kvm", "/nix/store/a.drv", [], ["/nix/store/a-x"], []⟩

/-- The job that the first submission of it queues. -/
def submittedJob : BuildJob :=
  ⟨⟨1⟩, ⟨zeroBytes32⟩, "/nix/store/a.drv", ["kvm"], [], [⟨"/nix/store/a-x", zeroBytes32⟩], 0⟩

/-- A hook submits a build, and a builder pulls it. -/
def submittedAndPulled : List DaemonEvent :=
  [⟨submitCall zeroHashers (BuildQueue.new ⟨zeroBytes32⟩) sampleBuild 0,
      .hook sampleBuild (.buildSubmitted 1)⟩,
    ⟨.pull ⟨zeroBytes32⟩ ["kvm"] 5 (some submittedJob),
      .builder ⟨zeroBytes32⟩ (.pull ["kvm"] false) (jobResponse submittedJob)⟩]

theorem submitted_and_pulled :
    ∃ q, Run (DaemonStep zeroHashers) (BuildQueue.new ⟨zeroBytes32⟩) submittedAndPulled q := by
  obtain ⟨order⟩ := HashMap.iter_exists (BuildQueue.new ⟨zeroBytes32⟩).leased
  have start : Run (DaemonStep zeroHashers) (BuildQueue.new ⟨zeroBytes32⟩) [] _ := .nil
  have submitted := start.snoc (.hook _ order order 0 sampleBuild true 1 _ rfl rfl)
  obtain ⟨order'⟩ := HashMap.iter_exists (handleControlRequest zeroHashers
    (BuildQueue.new ⟨zeroBytes32⟩) order order 0 (.submitBuild "/nix/store/a.drv" "kvm" []
      sampleBuild.inputPaths [])).queue.leased
  exact ⟨_, submitted.snoc (.builder _ order' 5 ⟨zeroBytes32⟩ (.pull ["kvm"] false))⟩

/-- An index of one entry, for the input of that build. -/
def indexOf (blake3 : Bytes32) : HashIndex :=
  HashIndex.insert Table.empty { twinEntry "a-x" with blake3 := ⟨blake3⟩ }

theorem indexOf_path (blake3 : Bytes32) : (indexOf blake3).getByStorePath "/nix/store/a-x" =
    some { twinEntry "a-x" with blake3 := ⟨blake3⟩ } := by
  have well : { twinEntry "a-x" with blake3 := ⟨blake3⟩ : HashEntry }.WellFormed :=
    ⟨⟨[], rfl, by simp⟩, by simp [twinEntry]⟩
  exact (HashIndex.insert_holds Table.empty well).byStorePath

/-- Under the placeholder itself the input can be fetched. -/
theorem placeholder_fetchable :
    (∃ q, Run (DaemonStep zeroHashers) (BuildQueue.new ⟨zeroBytes32⟩) submittedAndPulled q) ∧
      ∀ input ∈ (jobResponse submittedJob).inputPaths,
        Fetchable (indexOf zeroBytes32) input := by
  refine ⟨submitted_and_pulled, ?_⟩
  obtain ⟨q, run⟩ := submitted_and_pulled
  have handed := hook_inputs_iff zeroHashers ⟨zeroBytes32⟩ (indexOf zeroBytes32) submittedAndPulled
    q run _ _ _ _ _ _ _ (List.mem_cons_of_mem _ (List.mem_singleton_self _))
  have known : ∀ path ∈ sampleBuild.inputStorePaths, (indexOf zeroBytes32).getByStorePath path =
      some { twinEntry "a-x" with blake3 := ⟨zeroBytes32⟩ } := by
    intro path hpath
    cases List.mem_singleton.mp hpath
    exact indexOf_path zeroBytes32
  refine (handed.2 sampleBuild _ _ List.mem_cons_self rfl fun path hp => ⟨_, known path hp⟩).mpr ?_
  intro path hp entry he
  rw [known path hp] at he
  cases he
  rfl

/-- Under any other hash it is asked for by the placeholder. -/
theorem placeholder_asked_for :
    (∃ q, Run (DaemonStep zeroHashers) (BuildQueue.new ⟨zeroBytes32⟩) submittedAndPulled q) ∧
      (∃ entry, (indexOf (Vector.replicate 32 1)).getByStorePath "/nix/store/a-x" = some entry) ∧
      ¬ ∀ input ∈ (jobResponse submittedJob).inputPaths,
        Fetchable (indexOf (Vector.replicate 32 1)) input := by
  refine ⟨submitted_and_pulled, ⟨_, indexOf_path _⟩, ?_⟩
  intro fetchable
  obtain ⟨entry, hpath, hblake⟩ := fetchable _ List.mem_cons_self
  have path : (indexOf (Vector.replicate 32 1)).getByStorePath "/nix/store/a-x" = some entry := hpath
  rw [indexOf_path] at path
  cases path
  have other : (⟨Vector.replicate 32 1⟩ : Blake3Hash) ≠ ⟨zeroBytes32⟩ := by decide
  exact other hblake

end Control

end IrohNix
