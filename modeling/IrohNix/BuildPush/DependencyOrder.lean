import IrohNix.Build.Conservation
import IrohNix.Builder.Handler
import IrohNix.BuildPush.Plan

namespace IrohNix.BuildPush
open IrohNix.Lib IrohNix.Build IrohNix.Builder

/-- The jobs of a plan, in the order they are queued. -/
def planJobs (hashers : Hashers) (ourId : EndpointId) (env : PushEnv) (plan : BuildPlan) :
    List BuildJob :=
  (queueBuilds hashers env plan (.new ourId)).pending

/-- Any requests, by any builders, in any order, on the queued plan. -/
abbrev PlanRun (hashers : Hashers) (ourId : EndpointId) (env : PushEnv) (plan : BuildPlan) :
    List QueueEvent → BuildQueue → Prop :=
  Run RequestStep (queueBuilds hashers env plan (.new ourId))

/-- The second job's derivation is an input of the first one's. -/
def Depends (plan : BuildPlan) (job k : BuildJob) : Prop :=
  ∃ d ∈ plan.toBuild, d.drvPath = job.drvPath ∧ d.dependsOn k.drvPath

def Completed (h : List QueueEvent) (k : BuildJob) : Prop :=
  ∃ builder result, .complete k.id builder result true ∈ h

def Failed (h : List QueueEvent) (k : BuildJob) : Prop :=
  ∃ builder error, .fail k.id builder error true ∈ h

/-- Every job a leased job depends on has completed. -/
def DependenciesCompleted (plan : BuildPlan) (jobs : List BuildJob) (h : List QueueEvent)
    (q : BuildQueue) : Prop :=
  ∀ j lease, q.leased.get? j = some lease → ∀ k ∈ jobs, Depends plan lease.job k → Completed h k

/-- Of the jobs that the first job offered to the builder depends on, a pull
passes over none, none is out with a builder, and none has failed. -/
def PullsReady (plan : BuildPlan) (jobs : List BuildJob) (h : List QueueEvent) (q : BuildQueue) :
    QueueEvent → Prop
  | .pull _ features _ _ =>
    ∀ job, q.pending.find? (fun job => job.offeredBy features) = some job →
      ∀ k ∈ jobs, Depends plan job k →
        k ∉ q.pending.takeWhile (fun job => !job.offeredBy features) ∧
          q.leased.get? k.id = none ∧ ¬ Failed h k
  | _ => True

/-- A job leased by a pull that passes over the jobs before it. -/
structure Taken (q : BuildQueue) (e : QueueEvent) (q' : BuildQueue) (builder : EndpointId)
    (features : List String) (now : Instant) (before : List BuildJob) (job : BuildJob)
    (after : List BuildJob) : Prop where
  event : e = .pull builder features now (some job)
  pending : q.pending = before ++ job :: after
  passed : ∀ k ∈ before, k.offeredBy features = false
  offered : job.offeredBy features = true
  rest : q'.pending = before ++ after
  leased : q'.leased = q.leased.insert job.id ⟨job, builder, now, now, "starting"⟩

/-- Nothing is taken from the queue and no new job is leased. -/
structure NoneTaken (q : BuildQueue) (e : QueueEvent) (q' : BuildQueue) : Prop where
  pending : q'.pending = q.pending
  leased : ∀ j lease', q'.leased.get? j = some lease' →
    ∃ lease, q.leased.get? j = some lease ∧ lease.job = lease'.job
  notPulled : ∀ builder features now result, e = .pull builder features now result →
    ∀ job ∈ q.pending, job.offeredBy features = false

theorem request_cases {q q' : BuildQueue} {e : QueueEvent} (step : RequestStep q e q') :
    (∃ builder features now before job after,
      Taken q e q' builder features now before job after) ∨ NoneTaken q e q' := by
  have hcall := step.builderCall
  have hstep := step.queueStep zeroHashers
  cases hstep with
  | pull builder features now =>
    rcases q.pull_cases builder features now with ⟨hnone, hq⟩ | ⟨before, job, after, hp, hb, ho, hq⟩
    · rw [hq]
      refine .inr ⟨rfl, fun j lease h => ⟨lease, h, rfl⟩, ?_⟩
      intro b f n r he
      cases he
      exact hnone
    · rw [hq]
      exact .inl ⟨builder, features, now, before, job, after, rfl, hp, hb, ho, rfl, rfl⟩
  | heartbeat jobId builder status now =>
    rcases q.heartbeat_cases jobId builder status now with ⟨hq, _⟩ | ⟨lease, hl, _, hq⟩
    · rw [hq]
      exact .inr ⟨rfl, fun j lease h => ⟨lease, h, rfl⟩, by simp⟩
    · rw [hq]
      refine .inr ⟨rfl, fun j lease' h => ?_, by simp⟩
      rw [HashMap.get_insert] at h
      split at h
      · rename_i he
        cases h
        exact ⟨lease, he ▸ hl, rfl⟩
      · exact ⟨lease', h, rfl⟩
  | complete jobId builder result =>
    rcases q.complete_cases jobId builder result with ⟨hq, _⟩ | ⟨lease, hl, _, hq⟩
    · rw [hq]
      exact .inr ⟨rfl, fun j lease h => ⟨lease, h, rfl⟩, by simp⟩
    · rw [hq]
      exact .inr ⟨rfl, fun j lease' h => ⟨lease', HashMap.get_of_erase h, rfl⟩, by simp⟩
  | fail jobId builder error =>
    rcases q.fail_cases jobId builder error with ⟨hq, _⟩ | ⟨lease, hl, _, hq⟩
    · rw [hq]
      exact .inr ⟨rfl, fun j lease h => ⟨lease, h, rfl⟩, by simp⟩
    · rw [hq]
      exact .inr ⟨rfl, fun j lease' h => ⟨lease', HashMap.get_of_erase h, rfl⟩, by simp⟩
  | broadcastLog => exact .inr ⟨rfl, fun j lease h => ⟨lease, h, rfl⟩, by simp⟩
  | push | checkTimeouts | takePendingFetches => simp [Builder.builderCall] at hcall

section Run

variable {hashers : Hashers} {ourId : EndpointId} {env : PushEnv} {plan : BuildPlan}

theorem planJobs_paths : (planJobs hashers ourId env plan).map BuildJob.drvPath =
    plan.toBuild.map DrvInfo.drvPath :=
  (queueBuilds_pushed hashers ourId env plan).2

theorem planJobs_length : (planJobs hashers ourId env plan).length = plan.toBuild.length := by
  rw [← List.length_map BuildJob.drvPath, planJobs_paths, List.length_map]

/-- The accounts of a queued plan, and the order its pending jobs keep. -/
structure PlanInvariant (jobs : List BuildJob) (h : List QueueEvent) (q : BuildQueue) : Prop where
  accounts : Accounts ⟨jobs, finishedJobs h⟩ q
  order : q.pending.Sublist jobs

theorem plan_invariant {h : List QueueEvent} {q : BuildQueue}
    (run : PlanRun hashers ourId env plan h q) :
    PlanInvariant (planJobs hashers ourId env plan) h q := by
  refine run.invariant (PlanInvariant (planJobs hashers ourId env plan)) ?_ ?_
  · obtain ⟨⟨h₀, run₀, hl, _⟩, _⟩ := queueBuilds_pushed hashers ourId env plan
    exact ⟨hl ▸ accounts_run run₀, List.Sublist.refl _⟩
  · intro h q e q' _ inv step
    constructor
    · have := inv.accounts.step (step.queueStep hashers)
      rw [Ledger.record, step.pushed] at this
      simpa [finishedJobs_snoc] using this
    · rcases request_cases step with ⟨_, _, _, before, job, after, taken⟩ | none
      · have hsub := inv.order
        rw [taken.pending] at hsub
        rw [taken.rest]
        exact ((List.sublist_cons_self job after).append_left before).trans hsub
      · rw [none.pending]
        exact inv.order

/-- In plan order, no derivation has a later one among its inputs. -/
theorem paths_ordered (ordered : plan.Ordered) :
    (plan.toBuild.map DrvInfo.drvPath).Pairwise fun path later =>
      ∀ d ∈ plan.toBuild, d.drvPath = path → ¬ d.dependsOn later := by
  rw [List.pairwise_map]
  apply ordered.dependenciesFirst.imp_of_mem
  intro d e hd _ hne d' hd' hpath
  rw [List.inj_on_of_nodup_map ordered.distinct hd' hd hpath]
  exact hne

/-- A job depends on none that is queued after it, nor on itself. -/
theorem depends_earlier (ordered : plan.Ordered) {before after : List BuildJob} {job k : BuildJob}
    (hs : (before ++ job :: after).Sublist (planJobs hashers ourId env plan))
    (hk : k = job ∨ k ∈ after) : ¬ Depends plan job k := by
  intro hdepends
  obtain ⟨d, hd, hpath, hinput⟩ := hdepends
  rcases hk with he | hk
  · rw [he, ← hpath] at hinput
    exact ordered.notOwnInput d hd hinput
  · have hpaths := hs.map BuildJob.drvPath
    rw [planJobs_paths, List.map_append, List.map_cons] at hpaths
    have hsplit := (List.pairwise_append.mp ((paths_ordered ordered).sublist hpaths)).2.1
    have hlater := (List.pairwise_cons.mp hsplit).1 k.drvPath (List.mem_map.mpr ⟨k, hk, rfl⟩)
    exact hlater d hd hpath hinput

theorem Taken.first {q q' : BuildQueue} {e : QueueEvent} {builder : EndpointId}
    {features : List String} {now : Instant} {before after : List BuildJob} {job : BuildJob}
    (taken : Taken q e q' builder features now before job after) :
    q.pending.find? (fun job => job.offeredBy features) = some job ∧
      q.pending.takeWhile (fun job => !job.offeredBy features) = before := by
  have hb : ∀ k ∈ before, (!k.offeredBy features) = true := fun k hk => by simp [taken.passed k hk]
  have hnone : before.find? (fun job => job.offeredBy features) = none :=
    List.find?_eq_none.mpr fun k hk => by simp [taken.passed k hk]
  rw [taken.pending]
  constructor
  · rw [List.find?_append, hnone, Option.none_or,
      List.find?_cons_of_pos (by simpa using taken.offered)]
  · rw [List.takeWhile_append_of_pos hb, List.takeWhile_cons_of_neg (by simp [taken.offered]),
      List.append_nil]

/-- What a finished job's accounts leave no room for. -/
theorem completed_elsewhere {h : List QueueEvent} {q : BuildQueue} {jobs : List BuildJob}
    (a : Accounts ⟨jobs, finishedJobs h⟩ q) (hb : jobs.length < 2 ^ 64) {k : BuildJob}
    (hc : Completed h k) : k ∉ q.pending ∧ q.leased.get? k.id = none ∧ ¬ Failed h k := by
  have finished : k.id ∈ finishedJobs h := mem_finishedJobs.mpr (.inl hc)
  obtain ⟨unqueued, free, once⟩ := a.gone_of_finished hb finished
  refine ⟨fun hp => unqueued k hp rfl, free, fun hf => ?_⟩
  obtain ⟨_, _, hc⟩ := hc
  obtain ⟨_, _, hf⟩ := hf
  have := once ▸ finished_twice hc hf
  omega

theorem completed_of_not_elsewhere {h : List QueueEvent} {q : BuildQueue} {jobs : List BuildJob}
    (a : Accounts ⟨jobs, finishedJobs h⟩ q) (hb : jobs.length < 2 ^ 64) {k : BuildJob}
    (hk : k ∈ jobs) (hp : k ∉ q.pending) (hl : q.leased.get? k.id = none) (hf : ¬ Failed h k) :
    Completed h k := by
  rcases a.placed hb hk with ⟨hw, _⟩ | ⟨_, ⟨lease, hs, _⟩, _⟩ | ⟨_, _, hc⟩
  · exact absurd hw hp
  · simp [hl] at hs
  · have hpos : 0 < (finishedJobs h).count k.id := Nat.lt_of_lt_of_eq Nat.one_pos hc.symm
    rcases mem_finishedJobs.mp (List.count_pos_iff.mp hpos) with hc | hc
    · exact hc
    · exact absurd hc hf

theorem Completed.snoc {h : List QueueEvent} {k : BuildJob} (hc : Completed h k) (e : QueueEvent) :
    Completed (h ++ [e]) k := by
  obtain ⟨b, r, hm⟩ := hc
  exact ⟨b, r, List.mem_append_left _ hm⟩

/-- The state after a request is right exactly when a pull finds its job ready. -/
theorem step_dependencies (ordered : plan.Ordered) {h : List QueueEvent} {q q' : BuildQueue}
    {e : QueueEvent} (run : PlanRun hashers ourId env plan h q)
    (good : DependenciesCompleted plan (planJobs hashers ourId env plan) h q)
    (step : RequestStep q e q') :
    DependenciesCompleted plan (planJobs hashers ourId env plan) (h ++ [e]) q' ↔
      PullsReady plan (planJobs hashers ourId env plan) h q e := by
  have inv := plan_invariant run
  have hb : (planJobs hashers ourId env plan).length < 2 ^ 64 := by
    rw [planJobs_length]
    exact ordered.fits
  rcases request_cases step with ⟨builder, features, now, before, job, after, taken⟩ | none
  · obtain ⟨hfirst, hpassed⟩ := taken.first
    have hsub := inv.order
    rw [taken.pending] at hsub
    rw [taken.event]
    simp only [PullsReady, hfirst, hpassed, Option.some.injEq, forall_eq']
    constructor
    · intro hgood k hk hd
      have hc : Completed h k := by
        obtain ⟨b, r, hm⟩ := hgood job.id _ (by rw [taken.leased, HashMap.get_insert_self]) k hk hd
        exact ⟨b, r, by simpa using hm⟩
      obtain ⟨hp, hl, hf⟩ := completed_elsewhere inv.accounts hb hc
      refine ⟨fun hm => hp ?_, hl, hf⟩
      rw [taken.pending]
      exact List.mem_append_left _ hm
    · intro hready j lease hl k hk hd
      rw [taken.leased, HashMap.get_insert] at hl
      split at hl
      · cases hl
        obtain ⟨hpassed, hleased, hfailed⟩ := hready k hk hd
        refine (completed_of_not_elsewhere inv.accounts hb hk ?_ hleased hfailed).snoc _
        rw [taken.pending, List.mem_append, List.mem_cons, not_or]
        exact ⟨hpassed, fun hlater => depends_earlier ordered hsub hlater hd⟩
      · exact (good j lease hl k hk hd).snoc _
  · refine iff_of_true ?_ ?_
    · intro j lease' hl k hk hd
      obtain ⟨lease, hl, he⟩ := none.leased j lease' hl
      exact (good j lease hl k hk (he ▸ hd)).snoc e
    · cases e with
      | pull builder features now result =>
        intro job hj
        have hmem := List.mem_of_find?_eq_some hj
        have := List.find?_some hj
        rw [none.notPulled builder features now result rfl job hmem] at this
        exact absurd this (by simp)
      | _ => trivial

end Run

/-- While every pull finds its job ready, every leased job's dependencies have
completed; and the first pull that does not leases a job too early. -/
theorem dependencies_completed_while_ready (hashers : Hashers) (ourId : EndpointId) (env : PushEnv)
    (plan : BuildPlan) (ordered : plan.Ordered) (h : List QueueEvent) (q : BuildQueue)
    (run : RunWhile (PullsReady plan (planJobs hashers ourId env plan)) RequestStep
      (queueBuilds hashers env plan (.new ourId)) h q) :
    DependenciesCompleted plan (planJobs hashers ourId env plan) h q ∧
      ∀ e q', RequestStep q e q' →
        (DependenciesCompleted plan (planJobs hashers ourId env plan) (h ++ [e]) q' ↔
          PullsReady plan (planJobs hashers ourId env plan) h q e) := by
  have start : DependenciesCompleted plan (planJobs hashers ourId env plan) []
      (queueBuilds hashers env plan (.new ourId)) := by
    obtain ⟨⟨_, _, _, hleased⟩, _⟩ := queueBuilds_pushed hashers ourId env plan
    intro j lease hl
    simp [hleased] at hl
  have good := run.invariant (DependenciesCompleted plan (planJobs hashers ourId env plan)) start
    fun h s e t run good ready step => (step_dependencies ordered run good step).mpr ready
  exact ⟨good, fun e q' step => step_dependencies ordered run.run good step⟩

section TwoJobs

def firstDrv : DrvInfo := ⟨"/nix/store/a.drv", "x86_64-linux", [], ["/nix/store/a"], ∅, []⟩

def secondDrv : DrvInfo :=
  ⟨"/nix/store/b.drv", "x86_64-linux", [], ["/nix/store/b"],
    (∅ : HashMap String (List String)).insert "/nix/store/a.drv" ["out"], []⟩

/-- The second derivation has the first one as an input. -/
def chainPlan : BuildPlan := ⟨[firstDrv, secondDrv], []⟩

theorem chain_ordered : chainPlan.Ordered where
  distinct := by decide
  dependenciesFirst := by
    simp [chainPlan, DrvInfo.dependsOn, firstDrv]
  notOwnInput := by
    simp [chainPlan, DrvInfo.dependsOn, firstDrv, secondDrv, HashMap.get_insert]
  fits := by decide

/-- Nothing is indexed, and `inputDrvs` are walked in some order. -/
noncomputable def emptyEnv : PushEnv :=
  ⟨[], fun _ => none, fun d => Classical.choice (HashMap.iter_exists d.inputDrvs), fun _ => 0⟩

theorem dependencies_completed_chain : ∃ h q, h.length = 3 ∧ (q.leased.get? ⟨2⟩).isSome ∧
    DependenciesCompleted chainPlan (planJobs zeroHashers ⟨zeroBytes32⟩ emptyEnv chainPlan) h q := by
  let jobs := planJobs zeroHashers ⟨zeroBytes32⟩ emptyEnv chainPlan
  let builder : EndpointId := ⟨zeroBytes32⟩
  have start : RunWhile (PullsReady chainPlan jobs) RequestStep
    (queueBuilds zeroHashers emptyEnv chainPlan (.new builder)) [] _ := .nil
  have first := start.snoc (.pull _ builder ["x86_64-linux"] 0) (by
    intro job hj k hk hdepends
    cases hj
    obtain ⟨d, hd, hpath, hinput⟩ := hdepends
    simp only [chainPlan, List.mem_cons, List.not_mem_nil, or_false] at hd
    rcases hd with rfl | rfl
    · simp [DrvInfo.dependsOn, firstDrv] at hinput
    · exact absurd hpath (by decide))
  obtain ⟨lease, hl⟩ := Option.isSome_iff_exists.mp
    (rfl : (((queueBuilds zeroHashers emptyEnv chainPlan (.new builder)).pull builder
      ["x86_64-linux"] 0).1.leased.get? ⟨1⟩).isSome = true)
  have second := first.snoc (.complete hl builder [] zeroBytes32 zeroBytes32) trivial
  have third := second.snoc (.pull _ builder ["x86_64-linux"] 0) (by
    intro job hj k hk hdepends
    cases hl
    cases hj
    refine ⟨List.not_mem_nil, ?_, ?_⟩
    · rcases List.mem_cons.mp hk with rfl | hk
      · rfl
      · cases List.mem_singleton.mp hk
        rfl
    · intro hf
      obtain ⟨b, e, hm⟩ := hf
      simp at hm)
  exact ⟨_, _, rfl, rfl, (dependencies_completed_while_ready zeroHashers builder emptyEnv
    chainPlan chain_ordered _ _ third).1⟩

/-- Two pulls in a row lease a job together with the one it depends on. -/
theorem dependency_leased_early : ∃ env plan h q, plan.Ordered ∧
    PlanRun zeroHashers ⟨zeroBytes32⟩ env plan h q ∧
    ¬ DependenciesCompleted plan (planJobs zeroHashers ⟨zeroBytes32⟩ env plan) h q := by
  have start : PlanRun zeroHashers ⟨zeroBytes32⟩ emptyEnv chainPlan [] _ := .nil
  have run := (start.snoc (.pull _ ⟨zeroBytes32⟩ ["x86_64-linux"] 0)).snoc
    (.pull _ ⟨zeroBytes32⟩ ["x86_64-linux"] 0)
  refine ⟨emptyEnv, chainPlan, _, _, chain_ordered, run, fun hgood => ?_⟩
  obtain ⟨builder, result, hm⟩ :=
    hgood ⟨2⟩ _ rfl _ List.mem_cons_self ⟨secondDrv, by simp [chainPlan], rfl, rfl⟩
  simp at hm

end TwoJobs

end IrohNix.BuildPush
