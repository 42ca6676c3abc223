import IrohNix.Control.Polling

namespace IrohNix.Control
open IrohNix.Lib IrohNix.Build

/-- Where the handling of a `CancelBuild` request stands. -/
inductive Cancelling where
  | asked
  | listed (builder : EndpointId)
  | replied (response : ControlResponse)

/-- The first step of the `CancelBuild` branch: the leases are listed, and their lock is
released. -/
def findLease (q : BuildQueue) (order : q.leased.Iter) (jobId : UInt64) : Cancelling :=
  match (q.listLeased order).find? (fun e => e.1 == ⟨jobId⟩) with
  | some (_, leasedJob) => .listed leasedJob.builder
  | none => .replied (.error ("job " ++ toString jobId ++ " not found or not in progress"))

/-- One step of a `CancelBuild` request, or a call of anyone else on the queue. -/
inductive CancelEvent where
  | call (e : QueueEvent)
  | lists
  | fails (builder : EndpointId) (accepted : Bool)

/-- The second step ignores what `fail` returns. -/
inductive CancelStep (hashers : Hashers) (jobId : UInt64) :
    BuildQueue × Cancelling → CancelEvent → BuildQueue × Cancelling → Prop where
  | call {q q' : BuildQueue} {e : QueueEvent} (stage : Cancelling)
      (step : QueueStep hashers q e q') :
      CancelStep hashers jobId (q, stage) (.call e) (q', stage)
  | lists (q : BuildQueue) (order : q.leased.Iter) :
      CancelStep hashers jobId (q, .asked) .lists (q, findLease q order jobId)
  | fails (q : BuildQueue) (builder : EndpointId) :
      CancelStep hashers jobId (q, .listed builder)
        (.fails builder (q.fail ⟨jobId⟩ builder "cancelled by build-hook").2)
        ((q.fail ⟨jobId⟩ builder "cancelled by build-hook").1,
          .replied (.buildStatus (.failed "cancelled")))

/-- One `CancelBuild` request among any calls by anyone, on a new queue. -/
abbrev CancelRun (hashers : Hashers) (ourId : EndpointId) (jobId : UInt64) :
    List CancelEvent → BuildQueue × Cancelling → Prop :=
  Run (CancelStep hashers jobId) (.new ourId, .asked)

/-- With nothing between its steps, the request is the handler's branch. -/
theorem cancelBuild_steps (hashers : Hashers) (q : BuildQueue) (order : q.leased.Iter)
    (jobId : UInt64) : ∃ h, Run (CancelStep hashers jobId) (q, .asked) h
      ((cancelBuild q order jobId).1, .replied (cancelBuild q order jobId).2) := by
  have asked : Run (CancelStep hashers jobId) (q, .asked) [] (q, .asked) := .nil
  have listed := asked.snoc (.lists q order)
  unfold cancelBuild
  unfold findLease at listed
  split
  · rename_i leasedJob found
    rw [found] at listed
    exact ⟨_, listed.snoc (.fails q leasedJob.builder)⟩
  · rename_i found
    rw [found] at listed
    exact ⟨_, listed⟩

/-- The call on the queue a step makes. -/
def CancelEvent.queueCall (jobId : UInt64) : CancelEvent → Option QueueEvent
  | .call e => some e
  | .lists => none
  | .fails builder accepted => some (.fail ⟨jobId⟩ builder "cancelled by build-hook" accepted)

def cancelCalls (jobId : UInt64) (h : List CancelEvent) : List QueueEvent :=
  h.filterMap (CancelEvent.queueCall jobId)

variable {hashers : Hashers} {ourId : EndpointId} {jobId : UInt64}

theorem cancel_queue_run {h : List CancelEvent} {s : BuildQueue × Cancelling}
    (run : CancelRun hashers ourId jobId h s) :
    QueueRun hashers ourId (cancelCalls jobId h) s.1 := by
  refine run.simulates Prod.fst (CancelEvent.queueCall jobId) rfl ?_
  intro h s e t _ step
  cases step with
  | call stage step => exact .inr ⟨_, rfl, step⟩
  | lists q order => exact .inl ⟨rfl, rfl⟩
  | fails q builder => exact .inr ⟨_, rfl, .fail q _ _ _⟩

theorem findLease_cases (q : BuildQueue) (order : q.leased.Iter) (jobId : UInt64) :
    (q.leased.get? ⟨jobId⟩ = none ∧ findLease q order jobId =
      .replied (.error ("job " ++ toString jobId ++ " not found or not in progress"))) ∨
    ∃ lease, q.leased.get? ⟨jobId⟩ = some lease ∧
      findLease q order jobId = .listed lease.builder := by
  simp only [findLease, BuildQueue.listLeased, HashMap.Iter.find_key]
  cases q.leased.get? (JobId.mk jobId) with
  | none => exact .inl ⟨rfl, rfl⟩
  | some lease => exact .inr ⟨lease, rfl, rfl⟩

/-- Before the listing there was none. -/
theorem unlisted {h : List CancelEvent} {s : BuildQueue × Cancelling}
    (run : CancelRun hashers ourId jobId h s) (asked : s.2 = .asked) : .lists ∉ h := by
  refine run.invariant (fun h s => s.2 = .asked → .lists ∉ h) (by simp) ?_ asked
  intro h s e t _ ih step asked
  cases step with
  | call stage step => simpa using ih asked
  | lists q order =>
    rcases findLease_cases q order jobId with ⟨_, found⟩ | ⟨_, _, found⟩ <;>
      simp [found] at asked
  | fails q builder => cases asked

def HasFailed (h : List QueueEvent) (j : JobId) : Prop :=
  ∃ builder error, .fail j builder error true ∈ h

/-- The job has failed, is nowhere in the queue, and is never completed. -/
structure FailedForGood (h : List QueueEvent) (q : BuildQueue) (j : JobId) : Prop where
  failed : HasFailed h j
  notCompleted : ∀ builder result, .complete j builder result true ∉ h
  notPending : ∀ job ∈ q.pending, job.id ≠ j
  notLeased : q.leased.get? j = none

/-- A job once failed leaves no room for another lease, or another end. -/
theorem HasFailed.forGood {h : List QueueEvent} {q : BuildQueue} {j : JobId}
    (a : Accounts (ledger hashers h) q) (fits : (ledger hashers h).jobs.length < 2 ^ 64)
    (failed : HasFailed h j) : FailedForGood h q j := by
  obtain ⟨unqueued, free, once⟩ := a.gone_of_finished fits (mem_finishedJobs.mpr (.inr failed))
  refine ⟨failed, fun builder' result completed => ?_, unqueued, free⟩
  obtain ⟨builder, error, failed⟩ := failed
  have twice := finished_twice completed failed
  have : (ledger hashers h).finished.count j = (finishedJobs h).count j := rfl
  omega

theorem HasFailed.more {h : List QueueEvent} {j : JobId} (failed : HasFailed h j)
    (more : List QueueEvent) : HasFailed (h ++ more) j := by
  obtain ⟨builder, error, failed⟩ := failed
  exact ⟨builder, error, List.mem_append_left _ failed⟩

def UnknownOrFinished (hashers : Hashers) (h : List QueueEvent) (j : JobId) : Prop :=
  (∀ job ∈ (ledger hashers h).jobs, job.id ≠ j) ∨ j ∈ finishedJobs h

/-- A job that is not leased was never submitted, waits, or is finished. -/
theorem unleased_iff {h : List QueueEvent} {q : BuildQueue} {j : JobId}
    (a : Accounts (ledger hashers h) q) (fits : (ledger hashers h).jobs.length < 2 ^ 64) :
    q.leased.get? j = none ↔ (∀ job ∈ (ledger hashers h).jobs, job.id ≠ j) ∨
      (∃ job ∈ q.pending, job.id = j) ∨ j ∈ finishedJobs h := by
  constructor
  · intro free
    by_cases known : ∃ job ∈ (ledger hashers h).jobs, job.id = j
    · obtain ⟨job, hjob, rfl⟩ := known
      rcases a.placed fits hjob with ⟨hp, _⟩ | ⟨_, ⟨lease, held, _⟩, _⟩ | ⟨_, _, count⟩
      · exact .inr (.inl ⟨job, hp, rfl⟩)
      · rw [held] at free
        cases free
      · exact .inr (.inr (List.count_pos_iff.mp (by
          change 0 < (ledger hashers h).finished.count job.id
          omega)))
    · exact .inl fun job hjob hid => known ⟨job, hjob, hid⟩
  · intro elsewhere
    rcases elsewhere with unknown | ⟨job, hp, rfl⟩ | finished
    · cases held : q.leased.get? j with
      | none => rfl
      | some lease =>
        obtain ⟨hjob, hid⟩ := a.leased j lease held
        exact absurd hid (unknown lease.job hjob)
    · exact a.free_of_pending fits hp
    · exact (a.gone_of_finished fits finished).2.1

/-- Of the jobs that are not leased, those that wait are the ones to cancel. -/
theorem unknownOrFinished_iff {h : List QueueEvent} {q : BuildQueue} {j : JobId}
    (a : Accounts (ledger hashers h) q) (fits : (ledger hashers h).jobs.length < 2 ^ 64)
    (free : q.leased.get? j = none) :
    UnknownOrFinished hashers h j ↔ ∀ job ∈ q.pending, job.id ≠ j := by
  constructor
  · intro elsewhere job hp
    rcases elsewhere with unknown | finished
    · exact unknown job (a.pending job hp)
    · exact (a.gone_of_finished fits finished).1 job hp
  · intro unqueued
    rcases (unleased_iff a fits).mp free with unknown | ⟨job, hp, hid⟩ | finished
    · exact .inl unknown
    · exact absurd hid (unqueued job hp)
    · exact .inr finished

/-- A reply that the job has failed is true for good, and a reply that there is nothing to
cancel was true at the listing. -/
structure CancelKept (hashers : Hashers) (jobId : UInt64) (h : List CancelEvent)
    (s : BuildQueue × Cancelling) : Prop where
  failed : ∀ error, s.2 = .replied (.buildStatus (.failed error)) →
    FailedForGood (cancelCalls jobId h) s.1 ⟨jobId⟩
  refused : ∀ message, s.2 = .replied (.error message) → ∃ before after,
    h = before ++ .lists :: after ∧ UnknownOrFinished hashers (cancelCalls jobId before) ⟨jobId⟩

/-- The job does not wait when the leases are listed, and by the second step its holder has
not lost it, unless by failing it. -/
def CancelHeld (jobId : UInt64) (h : List CancelEvent) (s : BuildQueue × Cancelling) :
    CancelEvent → Prop
  | .call _ => True
  | .lists => ∀ job ∈ s.1.pending, job.id ≠ ⟨jobId⟩
  | .fails builder _ =>
    (∃ lease, s.1.leased.get? ⟨jobId⟩ = some lease ∧ lease.builder = builder) ∨
      HasFailed (cancelCalls jobId h) ⟨jobId⟩

theorem cancelCalls_snoc (jobId : UInt64) (h : List CancelEvent) (e : CancelEvent) :
    cancelCalls jobId (h ++ [e]) = cancelCalls jobId h ++ (e.queueCall jobId).toList :=
  filterMap_snoc ..

/-- The second step fails the job exactly if the listed holder holds it. -/
theorem fail_accepted_iff (q : BuildQueue) (j : JobId) (builder : EndpointId) (error : String) :
    (q.fail j builder error).2 = true ↔
      ∃ lease, q.leased.get? j = some lease ∧ lease.builder = builder := by
  rcases q.fail_cases j builder error with ⟨hq, other⟩ | ⟨lease, held, holder, hq⟩
  · simpa [hq] using other
  · simp [hq, held, holder]

theorem hasFailed_fails {h : List CancelEvent} {builder : EndpointId} {accepted : Bool} :
    HasFailed (cancelCalls jobId (h ++ [.fails builder accepted])) ⟨jobId⟩ ↔
      accepted = true ∨ HasFailed (cancelCalls jobId h) ⟨jobId⟩ := by
  rw [cancelCalls_snoc]
  constructor
  · intro failed
    obtain ⟨builder', error, failed⟩ := failed
    rcases List.mem_append.mp failed with earlier | now
    · exact .inr ⟨builder', error, earlier⟩
    · cases List.mem_singleton.mp now
      exact .inl rfl
  · intro failed
    rcases failed with rfl | failed
    · exact ⟨builder, _, List.mem_append_right _ (List.mem_singleton_self _)⟩
    · exact failed.more _

theorem cancel_step {h : List CancelEvent} {s t : BuildQueue × Cancelling} {e : CancelEvent}
    (run : CancelRun hashers ourId jobId h s) (kept : CancelKept hashers jobId h s)
    (step : CancelStep hashers jobId s e t)
    (fits : (ledger hashers (cancelCalls jobId (h ++ [e]))).jobs.length < 2 ^ 64) :
    CancelKept hashers jobId (h ++ [e]) t ↔ CancelHeld jobId h s e := by
  have before := accounts_run (cancel_queue_run run)
  have after := accounts_run (cancel_queue_run (run.snoc step))
  cases step with
  | call stage step =>
    refine iff_of_true ⟨fun error replied => ?_, fun message replied => ?_⟩ trivial
    · refine HasFailed.forGood after fits ?_
      rw [cancelCalls_snoc]
      exact (kept.failed error replied).failed.more _
    · obtain ⟨first, last, rfl, nothing⟩ := kept.refused message replied
      exact ⟨first, _, List.append_assoc first (.lists :: last) _, nothing⟩
  | lists q order =>
    have same : cancelCalls jobId (h ++ [.lists]) = cancelCalls jobId h := by
      rw [cancelCalls_snoc]
      exact List.append_nil _
    rw [same] at fits
    rcases findLease_cases q order jobId with ⟨free, found⟩ | ⟨lease, held, found⟩
    · rw [CancelHeld, ← unknownOrFinished_iff before fits free]
      constructor
      · intro kept
        obtain ⟨first, last, parts, nothing⟩ := kept.refused _ found
        -- this listing is the only one
        rcases List.eq_nil_or_concat last with rfl | ⟨last, e, rfl⟩
        · rwa [List.append_inj_left' parts rfl]
        · rw [List.concat_eq_append, ← List.cons_append, ← List.append_assoc] at parts
          refine absurd ?_ (unlisted run rfl)
          rw [List.append_inj_left' parts rfl]
          simp
      · intro nothing
        refine ⟨fun error replied => ?_, fun message _ => ⟨h, [], rfl, nothing⟩⟩
        rw [found] at replied
        cases replied
    · refine iff_of_true ⟨fun error replied => ?_, fun message replied => ?_⟩ fun job hp hid => ?_
      · rw [found] at replied
        cases replied
      · rw [found] at replied
        cases replied
      · have free := before.free_of_pending fits hp
        rw [hid, held] at free
        cases free
  | fails q builder =>
    rw [CancelHeld, ← fail_accepted_iff q ⟨jobId⟩ builder "cancelled by build-hook",
      ← hasFailed_fails]
    constructor
    · exact fun kept => (kept.failed _ rfl).failed
    · exact fun failed => ⟨fun _ _ => failed.forGood after fits, fun _ replied => by cases replied⟩

/-- While the job does not wait at the listing and is not lost before the second step, a
cancel request does what its reply says; and it does after one more event exactly if that
event is no exception. -/
theorem cancel_build_while_held (hashers : Hashers) (ourId : EndpointId) (jobId : UInt64)
    (h : List CancelEvent) (s : BuildQueue × Cancelling)
    (run : RunWhile (CancelHeld jobId) (CancelStep hashers jobId) (.new ourId, .asked) h s)
    (fits : (ledger hashers (cancelCalls jobId h)).jobs.length < 2 ^ 64) :
    CancelKept hashers jobId h s ∧
      ∀ e t, CancelStep hashers jobId s e t →
        (ledger hashers (cancelCalls jobId (h ++ [e]))).jobs.length < 2 ^ 64 →
        (CancelKept hashers jobId (h ++ [e]) t ↔ CancelHeld jobId h s e) := by
  have kept : CancelKept hashers jobId h s := by
    refine run.invariant (fun h s => (ledger hashers (cancelCalls jobId h)).jobs.length < 2 ^ 64 →
      CancelKept hashers jobId h s) ?_ ?_ fits
    · exact fun _ => ⟨fun _ replied => (nomatch replied), fun _ replied => (nomatch replied)⟩
    · intro h s e t run kept held step fits
      have earlier : (ledger hashers (cancelCalls jobId h)).jobs.length < 2 ^ 64 := by
        simp only [cancelCalls_snoc, ledger, List.filterMap_append, List.length_append] at fits ⊢
        omega
      exact (cancel_step run (kept earlier) step fits).mpr held
  exact ⟨kept, fun e t step fits => cancel_step run.run kept step fits⟩

section OneJob

/-- One job, submitted and leased. -/
theorem one_job_leased : RunWhile (CancelHeld 1) (CancelStep zeroHashers 1)
    (.new ⟨zeroBytes32⟩, .asked)
    [.call (.push "/nix/store/a.drv" [] [] [] 0 ⟨1⟩ true), .call (.pull ⟨zeroBytes32⟩ [] 0
      (some ⟨⟨1⟩, ⟨zeroBytes32⟩, "/nix/store/a.drv", [], [], [], 0⟩))]
    ((((BuildQueue.new ⟨zeroBytes32⟩).push zeroHashers "/nix/store/a.drv" [] [] [] 0).1.pull
      ⟨zeroBytes32⟩ [] 0).1, .asked) := by
  have start : RunWhile (CancelHeld 1) (CancelStep zeroHashers 1)
      (.new ⟨zeroBytes32⟩, .asked) [] _ := .nil
  exact (start.snoc (.call _ (.push _ "/nix/store/a.drv" [] [] [] 0)) trivial).snoc
    (.call _ (.pull _ ⟨zeroBytes32⟩ [] 0)) trivial

theorem cancel_build_leased : ∃ h q,
    CancelRun zeroHashers ⟨zeroBytes32⟩ 1 h (q, .replied (.buildStatus (.failed "cancelled"))) ∧
      FailedForGood (cancelCalls 1 h) q ⟨1⟩ := by
  have run := (one_job_leased.snoc (.lists _ (HashMap.Iter.single _ _))
    (fun _ waits => nomatch waits)).snoc (.fails _ _) (Or.inl ⟨_, rfl, rfl⟩)
  exact ⟨_, _, run.run, (cancel_build_while_held _ _ _ _ _ run (by decide)).1.failed _ rfl⟩

/-- A job whose lease expires between the two steps is reported cancelled though it waits;
one that waits from the start is not cancelled at all. -/
theorem cancel_build_pending :
    (∃ h q, CancelRun zeroHashers ⟨zeroBytes32⟩ 1 h
        (q, .replied (.buildStatus (.failed "cancelled"))) ∧ ∃ job ∈ q.pending, job.id = ⟨1⟩) ∧
      ∃ h q message, CancelRun zeroHashers ⟨zeroBytes32⟩ 1 h (q, .replied (.error message)) ∧
        ∃ job ∈ q.pending, job.id = ⟨1⟩ := by
  constructor
  · have run := ((one_job_leased.run.snoc (.lists _ (HashMap.Iter.single _ _))).snoc
      (.call _ (.checkTimeouts _ (HashMap.Iter.single _ _) (jobLeaseTimeout + 1)))).snoc
      (.fails _ _)
    exact ⟨_, _, run, _, List.mem_cons_self, rfl⟩
  · have start : CancelRun zeroHashers ⟨zeroBytes32⟩ 1 [] _ := .nil
    let q := ((BuildQueue.new ⟨zeroBytes32⟩).push zeroHashers "/nix/store/a.drv" [] [] [] 0).1
    obtain ⟨order⟩ := HashMap.iter_exists q.leased
    have listed := (start.snoc (.call _ (.push _ "/nix/store/a.drv" [] [] [] 0))).snoc
      (.lists q order)
    rcases findLease_cases q order 1 with ⟨_, found⟩ | ⟨_, held, _⟩
    · rw [found] at listed
      exact ⟨_, _, _, listed, _, List.mem_cons_self, rfl⟩
    · cases held

end OneJob

end IrohNix.Control
