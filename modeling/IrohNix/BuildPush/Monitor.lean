import IrohNix.Build.Locks
import IrohNix.BuildPush.DependencyOrder
import IrohNix.Lib.Collect

namespace IrohNix.BuildPush
open IrohNix.Lib IrohNix.Build

/-- Where `build_push`'s loop is, from one acquisition of a lock to the next. `stats`
reads each count under its own lock; if it keeps the locks until it returns, others
can only do less in between. -/
inductive Monitor where
  | waiting
  | fetching
  | readPending (announcing : Bool) (pendingCount : Nat)
  | readLeased (announcing : Bool) (pendingCount leasedCount : Nat)
  | testing (stats : QueueStats)
  | allComplete
  | cancelled

/-- The requester of `build_push`: the queue its builders call, and its loop. -/
structure Requester where
  locked : LockedQueue
  monitor : Monitor

def Requester.start (queue : BuildQueue) : Requester := ⟨⟨queue, none, none⟩, .waiting⟩

/-- Any builder's calls, and the loop's branches: re-announcing, fetching, cancelling. -/
inductive PushStep : Requester → LockEvent → Requester → Prop where
  | call (s : Requester) (e : LockEvent) (locked : LockedQueue)
      (step : CallStep s.locked e locked) : PushStep s e { s with locked }
  | takes (s : Requester) (waits : s.monitor = .waiting) :
      PushStep s (.effect (.takePendingFetches s.locked.queue.takePendingFetches.2))
        { locked := { s.locked with queue := s.locked.queue.takePendingFetches.1 }
          monitor := .fetching }
  | countsPending (s : Requester) (announcing : Bool)
      (next : s.monitor = if announcing then .waiting else .fetching)
      (free : s.locked.pendingHeld = none) :
      PushStep s .inner
        { s with monitor := .readPending announcing s.locked.queue.stats.pendingCount }
  | countsLeased (s : Requester) (announcing : Bool) (pendingCount : Nat)
      (next : s.monitor = .readPending announcing pendingCount)
      (free : s.locked.leasedHeld = none) :
      PushStep s .inner
        { s with monitor := .readLeased announcing pendingCount s.locked.queue.stats.leasedCount }
  | announces (s : Requester) (pendingCount leasedCount : Nat)
      (next : s.monitor = .readLeased true pendingCount leasedCount) :
      PushStep s .inner { s with monitor := .waiting }
  | counts (s : Requester) (pendingCount leasedCount : Nat)
      (next : s.monitor = .readLeased false pendingCount leasedCount) :
      PushStep s .inner { s with
        monitor := .testing ⟨pendingCount, leasedCount, s.locked.queue.stats.completedCount⟩ }
  | exits (s : Requester) (stats : QueueStats) (next : s.monitor = .testing stats)
      (noPending : stats.pendingCount = 0) (noLeased : stats.leasedCount = 0)
      (noFetches : s.locked.queue.hasPendingFetches = false) :
      PushStep s .inner { s with monitor := .allComplete }
  | goesOn (s : Requester) (stats : QueueStats) (next : s.monitor = .testing stats)
      (some : ¬ (stats.pendingCount = 0 ∧ stats.leasedCount = 0 ∧
        s.locked.queue.hasPendingFetches = false)) :
      PushStep s .inner { s with monitor := .waiting }
  | cancels (s : Requester) (waits : s.monitor = .waiting) :
      PushStep s .inner { s with monitor := .cancelled }

/-- Any interleaving of builders and the loop, from when the plan is queued. -/
abbrev PushRun (hashers : Hashers) (ourId : EndpointId) (env : PushEnv) (plan : BuildPlan) :
    List LockEvent → Requester → Prop :=
  Run PushStep (.start (queueBuilds hashers env plan (.new ourId)))

def effects (h : List LockEvent) : List QueueEvent := h.filterMap LockEvent.call

def acceptedResult : QueueEvent → Option BuildResult
  | .complete _ _ result true => some result
  | _ => none

def takenBatch : QueueEvent → Option (List BuildResult)
  | .takePendingFetches taken => some taken
  | _ => none

theorem mem_effects {h : List LockEvent} {call : QueueEvent} :
    call ∈ effects h ↔ .effect call ∈ h := by
  constructor
  · intro hc
    obtain ⟨e, he, hc⟩ := List.mem_filterMap.mp hc
    cases e with
    | effect call' =>
      cases hc
      exact he
    | returns | inner => cases hc
  · intro he
    exact List.mem_filterMap.mpr ⟨_, he, rfl⟩

/-- What the calls of `take_pending_fetches` returned. -/
def batches (h : List LockEvent) : List (List BuildResult) := (effects h).filterMap takenBatch

/-- The results whose `complete` call returned true, in order. -/
def returned (h : List LockEvent) : List BuildResult :=
  h.filterMap fun e => match e with
    | .returns _ _ result => some result
    | .effect _ | .inner => none

/-- The result of a `complete` call that has appended it and not returned. -/
def unreturned (s : LockedQueue) : List BuildResult :=
  match s.leasedHeld with
  | some (.appended _ _ result _) => [result]
  | _ => []

section Fetches

variable {hashers : Hashers} {q q' : BuildQueue}

/-- A call takes from the front of `pending_fetch` all that is there, or adds the result
it accepts at the end. -/
theorem fetches_step {e : QueueEvent} (step : QueueStep hashers q e q') :
    q.pendingFetch ++ (acceptedResult e).toList =
      (takenBatch e).toList.flatten ++ q'.pendingFetch := by
  cases step with
  | push => simp [acceptedResult, takenBatch, BuildQueue.push]
  | pull builder features now =>
    rcases q.pull_cases builder features now with ⟨_, hq⟩ | ⟨_, _, _, _, _, _, hq⟩ <;>
      simp [acceptedResult, takenBatch, hq]
  | heartbeat jobId builder status now =>
    rcases q.heartbeat_cases jobId builder status now with ⟨hq, _⟩ | ⟨_, _, _, hq⟩ <;>
      simp [acceptedResult, takenBatch, hq]
  | complete jobId builder result =>
    rcases q.complete_cases jobId builder result with ⟨hq, _⟩ | ⟨_, _, _, hq⟩ <;>
      simp [acceptedResult, takenBatch, hq]
  | fail jobId builder error =>
    rcases q.fail_cases jobId builder error with ⟨hq, _⟩ | ⟨_, _, _, hq⟩ <;>
      simp [acceptedResult, takenBatch, hq]
  | checkTimeouts order now =>
    have same := BuildQueue.check_timeouts_induct (P := fun q' => q'.pendingFetch = q.pendingFetch)
      (fun _ _ _ h _ => h) order now rfl
    simp [acceptedResult, takenBatch, same]
  | takePendingFetches => simp [acceptedResult, takenBatch, BuildQueue.takePendingFetches]
  | broadcastLog => simp [acceptedResult, takenBatch, BuildQueue.broadcastLog]

theorem fetches_run {q₀ : BuildQueue} {h : List QueueEvent}
    (run : Run (QueueStep hashers) q₀ h q) :
    q₀.pendingFetch ++ h.filterMap acceptedResult =
      (h.filterMap takenBatch).flatten ++ q.pendingFetch := by
  induction run with
  | nil => simp
  | @snoc h s t e run last ih =>
    rw [filterMap_snoc, filterMap_snoc, List.flatten_append, ← List.append_assoc, ih,
      List.append_assoc, fetches_step last, List.append_assoc]

end Fetches

theorem effects_snoc {β : Type} (f : QueueEvent → Option β) (h : List LockEvent) (e : LockEvent) :
    (effects (h ++ [e])).filterMap f = (effects h).filterMap f ++ (e.call.bind f).toList := by
  rw [effects, filterMap_snoc, List.filterMap_append]
  cases e.call with
  | none => rfl
  | some call => rw [Option.toList_some, ← List.nil_append [call], filterMap_snoc]; rfl

section Refinement

variable {hashers : Hashers} {ourId : EndpointId} {env : PushEnv} {plan : BuildPlan}
  {h : List LockEvent} {s t : Requester} {e : LockEvent}

theorem push_refines (guarded : s.locked.Guarded) (step : PushStep s e t) :
    Refines hashers s.locked e t.locked := by
  cases step with
  | call e locked step => exact call_refines hashers guarded step
  | takes waits => exact take_refines hashers guarded
  | countsPending | countsLeased | announces | counts | exits | goesOn | cancels =>
    exact ⟨guarded, .inl ⟨rfl, rfl⟩⟩

theorem guarded_run (run : PushRun hashers ourId env plan h s) : s.locked.Guarded := by
  refine run.invariant (fun _ s => s.locked.Guarded) ?_ ?_
  · exact ⟨by simp [Requester.start], by simp [Requester.start]⟩
  · intro h s e t _ guarded step
    exact (push_refines guarded step : Refines hashers s.locked e t.locked).1

/-- Every interleaving is one of whole calls, in the order they take effect. -/
theorem atomic_run (run : PushRun hashers ourId env plan h s) :
    Run (QueueStep hashers) (queueBuilds hashers env plan (.new ourId)) (effects h)
      s.locked.atomic :=
  run.simulates (fun s => s.locked.atomic) LockEvent.call rfl
    fun _ _ _ _ run step => (push_refines (guarded_run run) step).2

/-- One span adds what it accepts to the results returned or to be returned. -/
theorem returned_step (step : PushStep s e t) :
    unreturned s.locked ++ (e.call.bind acceptedResult).toList =
      returned [e] ++ unreturned t.locked := by
  cases step with
  | call e locked step =>
    cases step with
    | completeAppends jobId builder result lease held =>
      simp [LockEvent.call, acceptedResult, returned, unreturned, held]
    | completeReturns jobId builder result lease held =>
      simp [LockEvent.call, returned, unreturned, held]
    | failReturns jobId builder error lease held =>
      simp [LockEvent.call, acceptedResult, returned, unreturned, held]
    | completeTakes jobId builder result lease free | failTakes jobId builder error lease free =>
      simp [LockEvent.call, returned, unreturned, free]
    | pullNone | pullTakes | pullLeases | heartbeat | completeRefused | failRefused
    | broadcastLog =>
      simp [LockEvent.call, acceptedResult, returned, unreturned]
  | takes => simp [LockEvent.call, acceptedResult, returned, unreturned]
  | countsPending | countsLeased | announces | counts | exits | goesOn | cancels =>
    simp [LockEvent.call, returned]

theorem returned_run (run : PushRun hashers ourId env plan h s) :
    (effects h).filterMap acceptedResult = returned h ++ unreturned s.locked := by
  refine run.invariant
    (fun h s => (effects h).filterMap acceptedResult = returned h ++ unreturned s.locked) rfl ?_
  intro h s e t _ ih step
  have more : returned (h ++ [e]) = returned h ++ returned [e] := List.filterMap_append ..
  rw [effects_snoc, ih, more, List.append_assoc, List.append_assoc, ← returned_step step]

theorem effect_pushed (step : PushStep s e t) : e.call.bind (QueueEvent.pushed hashers) = none := by
  cases step with
  | call e locked step => cases step <;> rfl
  | takes | countsPending | countsLeased | announces | counts | exits | goesOn | cancels => rfl

/-- The result a completion in progress is of names the job. -/
def NamesJob (s : LockedQueue) : Prop :=
  ∀ jobId builder result lease,
    s.leasedHeld = some (.completing jobId builder result lease) → result.jobId = jobId

theorem names_step (names : NamesJob s.locked) (step : PushStep s e t) : NamesJob t.locked := by
  cases step with
  | call e locked step =>
    cases step with
    | completeTakes j b r l free hnames =>
      intro jobId builder result lease held
      cases held
      exact hnames
    | completeAppends | completeReturns | failTakes | failReturns => simp [NamesJob]
    | pullNone | pullTakes | pullLeases | heartbeat | completeRefused | failRefused
    | broadcastLog =>
      exact names
  | takes | countsPending | countsLeased | announces | counts | exits | goesOn | cancels =>
    exact names

theorem names_run (run : PushRun hashers ourId env plan h s) : NamesJob s.locked :=
  run.invariant (fun _ s => NamesJob s.locked) (by simp [NamesJob, Requester.start])
    fun _ _ _ _ _ names step => names_step names step

/-- The results accepted name the jobs that are finished by them. -/
theorem accepted_finished (run : PushRun hashers ourId env plan h s) :
    List.Sublist (((effects h).filterMap acceptedResult).map BuildResult.jobId)
      (finishedJobs (effects h)) := by
  refine run.invariant (fun h _ =>
    List.Sublist (((effects h).filterMap acceptedResult).map BuildResult.jobId)
      (finishedJobs (effects h)))
    (List.Sublist.refl _) ?_
  intro h s e t run ih step
  rw [finishedJobs, effects_snoc, effects_snoc, List.map_append]
  refine ih.append ?_
  cases step with
  | call e locked step =>
    cases step with
    | completeAppends jobId builder result lease held =>
      rw [← names_run run jobId builder result lease held]
      exact List.Sublist.refl _
    | failReturns => exact List.nil_sublist _
    | _ => exact List.Sublist.refl _
  | _ => exact List.Sublist.refl _

theorem no_pushes (run : PushRun hashers ourId env plan h s) :
    (effects h).filterMap (QueueEvent.pushed hashers) = [] := by
  refine run.invariant (fun h _ => (effects h).filterMap (QueueEvent.pushed hashers) = []) rfl ?_
  intro h s e t _ ih step
  rw [effects_snoc, ih, effect_pushed step]
  rfl

theorem accounts_push (run : PushRun hashers ourId env plan h s) :
    Accounts ⟨planJobs hashers ourId env plan, finishedJobs (effects h)⟩ s.locked.atomic := by
  obtain ⟨⟨h₀, run₀, hl, _⟩, _⟩ := queueBuilds_pushed hashers ourId env plan
  have accounts := accounts_from (hl ▸ accounts_run run₀) (atomic_run run)
  rw [no_pushes run] at accounts
  simpa [planJobs] using accounts

/-- No job is left to be taken. -/
def NoPending (s : LockedQueue) : Prop := s.queue.pending = [] ∧ s.pendingHeld = none

/-- All jobs are finished, and so are the calls that finished them. -/
def Drained (s : LockedQueue) : Prop :=
  NoPending s ∧ (∀ j, s.queue.leased.get? j = none) ∧ s.leasedHeld = none

theorem noPending_step {l l' : LockedQueue} (none : NoPending l) (step : CallStep l e l') :
    NoPending l' := by
  obtain ⟨pending, held⟩ := none
  cases step with
  | pullTakes p free hp => simp [pending] at hp
  | pullLeases p hp => simp [held] at hp
  | heartbeat jobId builder status now free =>
    rcases l.queue.heartbeat_cases jobId builder status now with ⟨hq, _⟩ | ⟨_, _, _, hq⟩ <;>
      exact ⟨by rw [hq]; exact pending, held⟩
  | completeRefused jobId builder result q free refused =>
    exact ⟨by rw [BuildQueue.complete_refused refused]; exact pending, held⟩
  | failRefused jobId builder error q free refused =>
    exact ⟨by rw [BuildQueue.fail_refused refused]; exact pending, held⟩
  | pullNone | completeTakes | completeAppends | completeReturns | failTakes | failReturns
  | broadcastLog => exact ⟨pending, held⟩

/-- Nothing comes back, and nothing more is accepted. -/
theorem drained_step {l l' : LockedQueue} (drained : Drained l) (step : CallStep l e l') :
    Drained l' ∧ l'.queue.pendingFetch = l.queue.pendingFetch := by
  obtain ⟨noPending, noLease, held⟩ := drained
  have noPending' := noPending_step noPending step
  cases step with
  | pullNone | broadcastLog => exact ⟨⟨noPending', noLease, held⟩, rfl⟩
  | pullTakes => exact ⟨⟨noPending', noLease, held⟩, rfl⟩
  | pullLeases p hp =>
    rw [noPending.2] at hp
    cases hp
  | heartbeat jobId builder status now free =>
    rcases l.queue.heartbeat_cases jobId builder status now with ⟨hq, _⟩ | ⟨lease, hl, _, _⟩
    · rw [hq]
      exact ⟨⟨noPending, noLease, held⟩, rfl⟩
    · rw [noLease] at hl
      cases hl
  | completeRefused jobId builder result q free refused =>
    rw [BuildQueue.complete_refused refused]
    exact ⟨⟨noPending, noLease, held⟩, rfl⟩
  | failRefused jobId builder error q free refused =>
    rw [BuildQueue.fail_refused refused]
    exact ⟨⟨noPending, noLease, held⟩, rfl⟩
  | completeTakes jobId builder result lease free names leased =>
    rw [noLease] at leased
    cases leased
  | failTakes jobId builder error lease free leased =>
    rw [noLease] at leased
    cases leased
  | completeAppends jobId builder result lease h => cases held.symm.trans h
  | completeReturns jobId builder result lease h => cases held.symm.trans h
  | failReturns jobId builder error lease h => cases held.symm.trans h

/-- What the loop has read of the queue still holds. -/
def MonitorKnows (s : Requester) : Prop :=
  match s.monitor with
  | .waiting | .fetching | .cancelled => True
  | .readPending _ pendingCount => pendingCount = 0 → NoPending s.locked
  | .readLeased _ pendingCount leasedCount =>
    (pendingCount = 0 → NoPending s.locked) ∧
      (pendingCount = 0 → leasedCount = 0 → Drained s.locked)
  | .testing stats => stats.pendingCount = 0 → stats.leasedCount = 0 → Drained s.locked
  | .allComplete => Drained s.locked ∧ s.locked.queue.pendingFetch = []

theorem knows_step (knows : MonitorKnows s) (step : PushStep s e t) : MonitorKnows t := by
  cases step with
  | call e locked step =>
    cases hm : s.monitor with
    | waiting | fetching | cancelled => simp only [MonitorKnows]
    | readPending announcing pendingCount =>
      simp only [MonitorKnows, hm] at knows ⊢
      exact fun zero => noPending_step (knows zero) step
    | readLeased announcing pendingCount leasedCount =>
      simp only [MonitorKnows, hm] at knows ⊢
      exact ⟨fun zero => noPending_step (knows.1 zero) step,
        fun zero empty => (drained_step (knows.2 zero empty) step).1⟩
    | testing stats =>
      simp only [MonitorKnows, hm] at knows ⊢
      exact fun zero empty => (drained_step (knows zero empty) step).1
    | allComplete =>
      simp only [MonitorKnows, hm] at knows ⊢
      obtain ⟨drained, same⟩ := drained_step knows.1 step
      exact ⟨drained, same.trans knows.2⟩
  | takes waits => trivial
  | countsPending announcing next free =>
    intro zero
    exact ⟨List.length_eq_zero_iff.mp zero, free⟩
  | countsLeased announcing pendingCount next free =>
    simp only [MonitorKnows, next] at knows
    refine ⟨knows, fun zero empty => ⟨knows zero, ?_, free⟩⟩
    exact HashMap.get_of_len_zero empty
  | announces | goesOn | cancels => trivial
  | counts pendingCount leasedCount next =>
    simp only [MonitorKnows, next] at knows
    exact knows.2
  | exits stats next noPending noLeased noFetches =>
    simp only [MonitorKnows, next] at knows
    refine ⟨knows noPending noLeased, ?_⟩
    simpa [BuildQueue.hasPendingFetches] using noFetches

theorem knows_run (run : PushRun hashers ourId env plan h s) : MonitorKnows s :=
  run.invariant (fun _ s => MonitorKnows s) (by simp [MonitorKnows, Requester.start])
    fun _ _ _ _ _ knows step => knows_step knows step

end Refinement

/-- A job's `complete` or `fail` call returned true. -/
def Finished (h : List LockEvent) (job : BuildJob) : Prop :=
  (∃ builder result, .returns job.id builder result ∈ h) ∨
    ∃ builder error, .effect (.fail job.id builder error true) ∈ h

/-- The results returned, or about to be, are in order those taken and those that are
still there; and one that is no longer there is in exactly one batch. -/
structure FetchedOnce (h : List LockEvent) (s : Requester) : Prop where
  inOrder : returned h ++ unreturned s.locked = (batches h).flatten ++ s.locked.queue.pendingFetch
  exactlyOne : ∀ result ∈ returned h, result ∉ s.locked.queue.pendingFetch →
    ∃! n : Nat, ∃ batch, (batches h)[n]? = some batch ∧ result ∈ batch

/-- Every job is finished, and every result was taken. -/
structure AllIn (jobs : List BuildJob) (h : List LockEvent) : Prop where
  finished : ∀ job ∈ jobs, Finished h job
  fetched : ∀ result ∈ returned h, ∃ batch ∈ batches h, result ∈ batch

section Run

variable {hashers : Hashers} {ourId : EndpointId} {env : PushEnv} {plan : BuildPlan}
  {h : List LockEvent} {s : Requester}

theorem atomic_pendingFetch (s : LockedQueue) :
    s.atomic.pendingFetch = s.queue.pendingFetch := by
  simp only [LockedQueue.atomic, LockedQueue.settled]
  split <;> rfl

/-- Nothing is to be fetched from a queue that has only been pushed to. -/
theorem plan_pendingFetch : (queueBuilds hashers env plan (.new ourId)).pendingFetch = [] := by
  obtain ⟨⟨h₀, run₀, hl, _⟩, _⟩ := queueBuilds_pushed hashers ourId env plan
  have finished : finishedJobs h₀ = [] := congrArg Ledger.finished hl
  have accepted : h₀.filterMap acceptedResult = [] := by
    refine List.filterMap_eq_nil_iff.mpr fun e he => ?_
    have unfinished := List.filterMap_eq_nil_iff.mp finished e he
    cases e with
    | complete jobId builder result accepted => cases accepted <;> trivial
    | _ => rfl
  have fetches := fetches_run run₀
  rw [accepted] at fetches
  exact (List.append_eq_nil_iff.mp fetches.symm).2

theorem fetched_in_order (run : PushRun hashers ourId env plan h s) :
    returned h ++ unreturned s.locked = (batches h).flatten ++ s.locked.queue.pendingFetch := by
  have fetches := fetches_run (atomic_run run)
  rw [plan_pendingFetch, List.nil_append, returned_run run, atomic_pendingFetch] at fetches
  exact fetches

/-- No job is finished twice, so no result is accepted twice. -/
theorem accepted_nodup (fits : plan.toBuild.length < 2 ^ 64)
    (run : PushRun hashers ourId env plan h s) : (returned h ++ unreturned s.locked).Nodup := by
  have accounts := accounts_push run
  have hb : (planJobs hashers ourId env plan).length < 2 ^ 64 := by
    rw [planJobs_length]
    exact fits
  have once : (finishedJobs (effects h)).Nodup := by
    refine List.nodup_iff_count_le_one.mpr fun j => ?_
    have balance : _ + _ + (finishedJobs (effects h)).count j = _ := accounts.balance hb j
    have one := accounts.jobCount_le hb j
    omega
  rw [← returned_run run]
  exact List.Nodup.of_map _ (once.sublist (accepted_finished run))

theorem appended_step {t : Requester} {e : LockEvent} {jobId : JobId} {builder : EndpointId}
    {result : BuildResult} {lease : LeasedJob}
    (held : s.locked.leasedHeld = some (.appended jobId builder result lease))
    (step : PushStep s e t) :
    e = .returns jobId builder result ∨
      t.locked.leasedHeld = some (.appended jobId builder result lease) := by
  cases step with
  | call e locked step =>
    cases step with
    | pullNone | pullTakes | broadcastLog => exact .inr held
    | completeReturns j b r l held' =>
      rw [held] at held'
      cases held'
      exact .inl rfl
    | completeAppends _ _ _ _ held' | failReturns _ _ _ _ held' =>
      rw [held] at held'
      cases held'
    | pullLeases _ _ free | heartbeat _ _ _ _ free | completeRefused _ _ _ _ free
    | completeTakes _ _ _ _ free | failRefused _ _ _ _ free | failTakes _ _ _ _ free =>
      rw [held] at free
      cases free
  | takes | countsPending | countsLeased | announces | counts | exits | goesOn | cancels =>
    exact .inr held

/-- A completion that took effect has returned, or still holds its lock. -/
theorem accepted_returns (run : PushRun hashers ourId env plan h s) :
    ∀ jobId builder result, .effect (.complete jobId builder result true) ∈ h →
      .returns jobId builder result ∈ h ∨
        ∃ lease, s.locked.leasedHeld = some (.appended jobId builder result lease) := by
  refine run.invariant (fun h s => ∀ jobId builder result,
    .effect (.complete jobId builder result true) ∈ h → .returns jobId builder result ∈ h ∨
      ∃ lease, s.locked.leasedHeld = some (.appended jobId builder result lease)) (by simp) ?_
  intro h s e t _ ih step jobId builder result he
  rcases List.mem_append.mp he with he | he
  · rcases ih jobId builder result he with returned | ⟨lease, held⟩
    · exact .inl (List.mem_append_left _ returned)
    · rcases appended_step held step with rfl | held'
      · exact .inl (List.mem_append_right _ List.mem_cons_self)
      · exact .inr ⟨lease, held'⟩
  · cases List.mem_singleton.mp he
    cases step with
    | call _ locked step =>
      cases step with
      | completeAppends _ _ _ lease held => exact .inr ⟨lease, rfl⟩

/-- When all jobs are drained, each of them was reported finished. -/
theorem drained_finished (fits : plan.toBuild.length < 2 ^ 64)
    (run : PushRun hashers ourId env plan h s) (drained : Drained s.locked) {job : BuildJob}
    (hj : job ∈ planJobs hashers ourId env plan) : Finished h job := by
  obtain ⟨⟨noJobs, noPull⟩, noLease, free⟩ := drained
  have hb : (planJobs hashers ourId env plan).length < 2 ^ 64 := by
    rw [planJobs_length]
    exact fits
  have queue : s.locked.atomic = s.locked.queue := by
    simp [LockedQueue.atomic, LockedQueue.settled, LockedQueue.allPending, free, noPull]
  rcases (accounts_push run).placed hb hj with ⟨waits, _⟩ | ⟨_, ⟨lease, hl, _⟩, _⟩ | ⟨_, _, one⟩
  · rw [queue, noJobs] at waits
    cases waits
  · rw [queue, noLease] at hl
    cases hl
  · have finished : job.id ∈ finishedJobs (effects h) :=
      List.count_pos_iff.mp (by rw [one]; exact Nat.one_pos)
    rcases mem_finishedJobs.mp finished with ⟨builder, result, he⟩ | ⟨builder, error, he⟩
    · rcases accepted_returns run _ _ _ (mem_effects.mp he) with returned | ⟨_, held⟩
      · exact .inl ⟨builder, result, returned⟩
      · rw [free] at held
        cases held
    · exact .inr ⟨builder, error, mem_effects.mp he⟩

end Run

/-- In every interleaving of builders and the loop, every result is fetched once; and the
loop finds all complete only when all is in. -/
theorem monitor_fetches_all (hashers : Hashers) (ourId : EndpointId) (env : PushEnv)
    (plan : BuildPlan) (fits : plan.toBuild.length < 2 ^ 64) (h : List LockEvent) (s : Requester)
    (run : PushRun hashers ourId env plan h s) :
    FetchedOnce h s ∧
      (s.monitor = .allComplete → AllIn (planJobs hashers ourId env plan) h) := by
  have inOrder := fetched_in_order run
  have nodup := accepted_nodup fits run
  refine ⟨⟨inOrder, ?_⟩, ?_⟩
  · intro result hr gone
    have place : result ∈ (batches h).flatten ++ s.locked.queue.pendingFetch := by
      rw [← inOrder]
      exact List.mem_append_left _ hr
    rw [inOrder] at nodup
    exact existsUnique_of_nodup_flatten (List.Nodup.of_append_left nodup)
      ((List.mem_append.mp place).resolve_right gone)
  · intro exited
    have knows := knows_run run
    rw [MonitorKnows, exited] at knows
    obtain ⟨drained, noFetches⟩ := knows
    refine ⟨fun job hj => drained_finished fits run drained hj, fun result hr => ?_⟩
    have place : result ∈ (batches h).flatten := by
      rw [noFetches, List.append_nil] at inOrder
      rw [← inOrder]
      exact List.mem_append_left _ hr
    exact List.mem_flatten.mp place

section OneJob

def onePlan : BuildPlan := ⟨[firstDrv], []⟩

/-- A job is pulled and completed, its result is taken, and the loop ends. -/
theorem monitor_fetches_all_one : ∃ h s, s.monitor = .allComplete ∧ (returned h).length = 1 ∧
    FetchedOnce h s ∧
      AllIn (planJobs zeroHashers ⟨zeroBytes32⟩ emptyEnv onePlan) h := by
  have queued : PushRun zeroHashers ⟨zeroBytes32⟩ emptyEnv onePlan [] _ := .nil
  have pulling := queued.snoc (.call _ _ _ (.pullTakes _
    ⟨⟨zeroBytes32⟩, ["x86_64-linux"], 0, [], _, []⟩ rfl rfl (by simp) rfl))
  have pulled := pulling.snoc (.call _ _ _ (.pullLeases _ _ rfl rfl))
  have completing := pulled.snoc (.call _ _ _ (.completeTakes _ ⟨1⟩ ⟨zeroBytes32⟩ sampleResult _
    rfl rfl (HashMap.get_insert_self ..) rfl))
  have appended := completing.snoc (.call _ _ _ (.completeAppends _ _ _ _ _ rfl))
  have completed := appended.snoc (.call _ _ _ (.completeReturns _ _ _ _ _ rfl))
  have taken := completed.snoc (.takes _ rfl)
  have counted := ((taken.snoc (.countsPending _ false rfl rfl)).snoc
    (.countsLeased _ false _ rfl rfl)).snoc (.counts _ _ _ rfl)
  have exited := counted.snoc (.exits _ _ rfl rfl rfl rfl)
  have agree := monitor_fetches_all zeroHashers ⟨zeroBytes32⟩ emptyEnv onePlan (by decide) _ _
    exited
  exact ⟨_, _, rfl, rfl, agree.1, agree.2 rfl⟩

end OneJob

end IrohNix.BuildPush
