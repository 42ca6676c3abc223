import IrohNix.BuildPush.DependencyOrder
import IrohNix.Lib.Collect

namespace IrohNix.BuildPush
open IrohNix.Lib IrohNix.Build IrohNix.Builder

/-- What a call says of the last sign of life for a job: a grant of its lease or an
accepted heartbeat is one, and a finished job needs none. -/
def beat (j : JobId) (last : Option Instant) : QueueEvent → Option Instant
  | .pull _ _ now (some job) => if job.id = j then some now else last
  | .heartbeat jobId _ _ now true => if jobId = j then some now else last
  | .complete jobId _ _ true | .fail jobId _ _ true => if jobId = j then none else last
  | _ => last

def lastBeat (h : List QueueEvent) (j : JobId) : Option Instant := h.foldl (beat j) none

/-- A job was granted and is not finished, and its builder has not been heard of for
longer than the timeout. -/
def Silent (h : List QueueEvent) (now : Instant) (j : JobId) : Prop :=
  ∃ last, lastBeat h j = some last ∧ jobLeaseTimeout < now - last

/-- Where `build_push`'s loop is. -/
inductive Loop where
  | waiting
  | fetching
  | ended

/-- The requester of `build_push`, with the time. -/
structure TimedRequester where
  queue : BuildQueue
  clock : Instant
  loop : Loop

inductive LoopEvent where
  | call (made : QueueEvent)
  | passes
  | announces
  | iterated
  | cancelled

/-- The loop's three branches among the requests of builders, any of which may come or
not, while time passes. -/
inductive LoopStep : TimedRequester → LoopEvent → TimedRequester → Prop where
  | passes (s : TimedRequester) (later : Instant) (forward : s.clock ≤ later) :
      LoopStep s .passes { s with clock := later }
  | request (s : TimedRequester) (order : s.queue.leased.Iter) (builder : EndpointId)
      (request : BuildQueueRequest) :
      LoopStep s (.call (requestCall s.queue s.clock builder request))
        { s with queue := (handleBuildQueueRequest s.queue order s.clock builder request).1 }
  | announces (s : TimedRequester) (waits : s.loop = .waiting) : LoopStep s .announces s
  | takes (s : TimedRequester) (waits : s.loop = .waiting) :
      LoopStep s (.call (.takePendingFetches s.queue.takePendingFetches.2))
        { s with queue := s.queue.takePendingFetches.1, loop := .fetching }
  | iterates (s : TimedRequester) (fetched : s.loop = .fetching) :
      LoopStep s .iterated { s with
        loop := if s.queue.stats.pendingCount = 0 ∧ s.queue.stats.leasedCount = 0 ∧
          s.queue.hasPendingFetches = false then .ended else .waiting }
  | cancels (s : TimedRequester) (waits : s.loop = .waiting) :
      LoopStep s .cancelled { s with loop := .ended }

def LoopEvent.queueCall : LoopEvent → Option QueueEvent
  | .call made => some made
  | .passes | .announces | .iterated | .cancelled => none

def loopCalls (h : List LoopEvent) : List QueueEvent := h.filterMap LoopEvent.queueCall

/-- Every run of the requester, from when the plan is queued. -/
abbrev LoopRun (hashers : Hashers) (ourId : EndpointId) (env : PushEnv) (plan : BuildPlan) :
    List LoopEvent → TimedRequester → Prop :=
  Run LoopStep ⟨queueBuilds hashers env plan (.new ourId), 0, .waiting⟩

/-- The jobs of silent builders are leased no more, and are there to be pulled. -/
def SilentBack (h : List QueueEvent) (s : TimedRequester) : Prop :=
  ∀ j, Silent h s.clock j →
    s.queue.leased.get? j = none ∧ ∃ job ∈ s.queue.pending, job.id = j

/-- A lease is there from its grant to the end of its job, with the last sign of life. -/
def LeasesBeat (h : List QueueEvent) (q : BuildQueue) : Prop :=
  ∀ j, (q.leased.get? j).map LeasedJob.lastHeartbeat = lastBeat h j

theorem beat_step {q q' : BuildQueue} {e : QueueEvent} (step : RequestStep q e q') (j : JobId) :
    (q'.leased.get? j).map LeasedJob.lastHeartbeat =
      beat j ((q.leased.get? j).map LeasedJob.lastHeartbeat) e := by
  have hcall := step.builderCall
  have hstep := step.queueStep zeroHashers
  cases hstep with
  | pull builder features now =>
    rcases q.pull_cases builder features now with ⟨_, hq⟩ | ⟨_, job, _, _, _, _, hq⟩
    · rw [hq]
      rfl
    · rw [hq]
      simp only [beat, HashMap.get_insert]
      by_cases hj : j = job.id
      · simp [hj]
      · simp [hj, Ne.symm hj]
  | heartbeat jobId builder status now =>
    rcases q.heartbeat_cases jobId builder status now with ⟨hq, _⟩ | ⟨lease, hl, _, hq⟩
    · rw [hq]
      rfl
    · rw [hq]
      simp only [beat, HashMap.get_insert]
      by_cases hj : j = jobId
      · simp [hj]
      · simp [hj, Ne.symm hj]
  | complete jobId builder result =>
    rcases q.complete_cases jobId builder result with ⟨hq, _⟩ | ⟨lease, hl, _, hq⟩
    · rw [hq]
      rfl
    · rw [hq]
      simp only [beat, HashMap.get_erase]
      by_cases hj : j = jobId
      · simp [hj]
      · simp [hj, Ne.symm hj]
  | fail jobId builder error =>
    rcases q.fail_cases jobId builder error with ⟨hq, _⟩ | ⟨lease, hl, _, hq⟩
    · rw [hq]
      rfl
    · rw [hq]
      simp only [beat, HashMap.get_erase]
      by_cases hj : j = jobId
      · simp [hj]
      · simp [hj, Ne.symm hj]
  | broadcastLog => rfl
  | push | checkTimeouts | takePendingFetches => simp [Builder.builderCall] at hcall

theorem leasesBeat_step {s t : TimedRequester} {e : LoopEvent} {h : List LoopEvent}
    (beats : LeasesBeat (loopCalls h) s.queue) (step : LoopStep s e t) :
    LeasesBeat (loopCalls (h ++ [e])) t.queue := by
  intro j
  rw [loopCalls, filterMap_snoc, lastBeat, List.foldl_append]
  have before : List.foldl (beat j) none (h.filterMap LoopEvent.queueCall) =
      (s.queue.leased.get? j).map LeasedJob.lastHeartbeat := (beats j).symm
  rw [before]
  cases step with
  | request order builder request =>
    exact beat_step (.request s.queue order s.clock builder request) j
  | passes | announces | takes | iterates | cancels => rfl

theorem leasesBeat_run {hashers : Hashers} {ourId : EndpointId} {env : PushEnv} {plan : BuildPlan}
    {h : List LoopEvent} {s : TimedRequester} (run : LoopRun hashers ourId env plan h s) :
    LeasesBeat (loopCalls h) s.queue := by
  refine run.invariant (fun h s => LeasesBeat (loopCalls h) s.queue) ?_
    fun _ _ _ _ _ beats step => leasesBeat_step beats step
  obtain ⟨⟨_, _, _, hleased⟩, _⟩ := queueBuilds_pushed hashers ourId env plan
  intro j
  simp [hleased, loopCalls, lastBeat]

/-- Nothing in the loop takes a lease back: an iteration leaves the jobs of silent builders
where they belong exactly when there are none. -/
theorem silent_back_iff (hashers : Hashers) (ourId : EndpointId) (env : PushEnv) (plan : BuildPlan)
    (h : List LoopEvent) (s t : TimedRequester) (run : LoopRun hashers ourId env plan h s)
    (step : LoopStep s .iterated t) :
    SilentBack (loopCalls h) t ↔ ∀ j, ¬ Silent (loopCalls h) t.clock j := by
  constructor
  · intro back j silent
    obtain ⟨gone, _⟩ := back j silent
    obtain ⟨last, hlast, _⟩ := silent
    cases step with
    | iterates fetched =>
      have beats := leasesBeat_run run j
      rw [gone, hlast] at beats
      cases beats
  · intro none j silent
    exact absurd silent (none j)

section OneJob

/-- A builder pulls the one job, and an iteration ends some time later. -/
theorem one_job_run (later : Instant) : ∃ h s t,
    LoopRun zeroHashers ⟨zeroBytes32⟩ emptyEnv ⟨[firstDrv], []⟩ h s ∧ LoopStep s .iterated t ∧
      t.clock = later ∧ lastBeat (loopCalls h) ⟨1⟩ = some 0 ∧
      ∀ j, j ≠ ⟨1⟩ → lastBeat (loopCalls h) j = none := by
  obtain ⟨order⟩ := HashMap.iter_exists
    (queueBuilds zeroHashers emptyEnv ⟨[firstDrv], []⟩ (.new ⟨zeroBytes32⟩)).leased
  have queued : LoopRun zeroHashers ⟨zeroBytes32⟩ emptyEnv ⟨[firstDrv], []⟩ [] _ := .nil
  have pulled := queued.snoc (.request _ order ⟨zeroBytes32⟩ (.pull ["x86_64-linux"] false))
  have passed := pulled.snoc (.passes _ later (Nat.zero_le _))
  have taken := passed.snoc (.takes _ rfl)
  refine ⟨_, _, _, taken, .iterates _ rfl, rfl, rfl, ?_⟩
  intro j hj
  show (if (⟨1⟩ : JobId) = j then some 0 else none) = none
  rw [if_neg (Ne.symm hj)]

theorem silent_back_in_time : ∃ h t, lastBeat h ⟨1⟩ = some 0 ∧ t.clock = jobLeaseTimeout ∧
    SilentBack h t := by
  obtain ⟨h, s, t, run, step, hclock, hbeat, hother⟩ := one_job_run jobLeaseTimeout
  refine ⟨loopCalls h, t, hbeat, hclock, (silent_back_iff _ _ _ _ h s t run step).mpr ?_⟩
  intro j silent
  obtain ⟨last, hlast, expired⟩ := silent
  by_cases hj : j = ⟨1⟩
  · rw [hj, hbeat] at hlast
    cases hlast
    rw [hclock] at expired
    omega
  · rw [hother j hj] at hlast
    cases hlast

/-- A moment later, the job of a builder that is not heard of again is still leased. -/
theorem silent_never_back : ∃ env plan h s t,
    LoopRun zeroHashers ⟨zeroBytes32⟩ env plan h s ∧ LoopStep s .iterated t ∧
      ¬ SilentBack (loopCalls h) t := by
  obtain ⟨h, s, t, run, step, hclock, hbeat, _⟩ := one_job_run (jobLeaseTimeout + 1)
  refine ⟨_, _, h, s, t, run, step, fun back => ?_⟩
  have expired : jobLeaseTimeout < t.clock - 0 := hclock ▸ Nat.lt_succ_self jobLeaseTimeout
  obtain ⟨gone, _⟩ := back ⟨1⟩ ⟨0, hbeat, expired⟩
  cases step with
  | iterates fetched =>
    have beats := leasesBeat_run run ⟨1⟩
    rw [gone, hbeat] at beats
    cases beats

end OneJob

end IrohNix.BuildPush
