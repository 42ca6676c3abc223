import IrohNix.BuildPush.DependencyOrder
import IrohNix.Gossip.Caches

namespace IrohNix.BuildPush
open IrohNix.Lib IrohNix.Build IrohNix.Builder IrohNix.Gossip

/-- Unique system features from all jobs, without "builtin". The override is not among them. -/
def allFeatures (plan : BuildPlan) : HashSet String :=
  HashMap.collect ((plan.toBuild.flatMap fun d => d.system :: d.requiredFeatures).filter
    (fun f => f ≠ "builtin"))

/-- What `build_push` re-announces, in the order the set is walked. -/
def featuresVec (plan : BuildPlan) (order : (allFeatures plan).Iter) : List String := order.keys

/-- The features announced are enough for every job, and a builder that the announcement
matches is never refused while a job is pending. -/
structure Attracts (hashers : Hashers) (ourId : EndpointId) (env : PushEnv) (plan : BuildPlan)
    (announced : List String) : Prop where
  satisfies : ∀ features, (∀ f ∈ announced, f ∈ features) →
    ∀ job ∈ planJobs hashers ourId env plan, job.offeredBy features = true
  pulls : ∀ (cache : RequesterCache) (requesters : cache.requesters.Iter) info features,
    info ∈ cache.getMatchingRequesters requesters features → info.systemFeatures = announced →
      ∀ h q, PlanRun hashers ourId env plan h q → q.pending ≠ [] →
        ∀ builder now, (q.pull builder features now).2 ≠ none

/-- Without an override no derivation is for the system "builtin", and an override names only
features that some derivation of the plan has, "builtin" excepted. -/
def FeaturesKnown (env : PushEnv) (plan : BuildPlan) : Prop :=
  (env.features = [] → ∀ d ∈ plan.toBuild, d.system ≠ "builtin") ∧
    (plan.toBuild ≠ [] → ∀ f ∈ env.features,
      f ≠ "builtin" ∧ ∃ d ∈ plan.toBuild, f = d.system ∨ f ∈ d.requiredFeatures)

variable {hashers : Hashers} {ourId : EndpointId} {env : PushEnv} {plan : BuildPlan}

theorem mem_featuresVec {order : (allFeatures plan).Iter} {f : String} :
    f ∈ featuresVec plan order ↔
      f ≠ "builtin" ∧ ∃ d ∈ plan.toBuild, f = d.system ∨ f ∈ d.requiredFeatures := by
  rw [featuresVec, HashMap.Iter.mem_keys, allFeatures, HashMap.get_collect]
  simp [and_comm]

theorem planJobs_features : (planJobs hashers ourId env plan).map BuildJob.systemFeatures =
    plan.toBuild.map (buildFeatures env) := by
  have all : ∀ (items : List DrvInfo) (q : BuildQueue),
      (items.foldl (queueBuild hashers env plan) q).pending.map BuildJob.systemFeatures =
        q.pending.map BuildJob.systemFeatures ++ items.map (buildFeatures env) := by
    intro items
    induction items with
    | nil => simp
    | cons d items ih =>
      intro q
      rw [List.foldl_cons, ih]
      simp [queueBuild, Requester.pushBuild, BuildQueue.push, BuildQueue.newJob]
  simpa [BuildQueue.new, planJobs, queueBuilds] using all plan.toBuild (.new ourId)

/-- Every job is offered what it requires if every derivation's features are offered. -/
theorem planJobs_offered (features : List String) :
    (∀ job ∈ planJobs hashers ourId env plan, job.offeredBy features = true) ↔
      ∀ d ∈ plan.toBuild, ∀ f ∈ buildFeatures env d, f ∈ features := by
  have each : (∀ fs ∈ (planJobs hashers ourId env plan).map BuildJob.systemFeatures,
      ∀ f ∈ fs, f ∈ features) ↔
        ∀ fs ∈ plan.toBuild.map (buildFeatures env), ∀ f ∈ fs, f ∈ features := by
    rw [planJobs_features]
  simpa [BuildJob.offeredBy] using each

theorem features_announced_iff (order : (allFeatures plan).Iter) :
    (∀ d ∈ plan.toBuild, ∀ f ∈ buildFeatures env d, f ∈ featuresVec plan order) ↔
      FeaturesKnown env plan := by
  simp only [mem_featuresVec, FeaturesKnown]
  by_cases override : env.features = []
  · simp only [buildFeatures, override, List.isEmpty_nil, Bool.not_true, Bool.false_eq_true,
      if_false, drvFeatures, List.mem_cons, List.mem_filter, decide_eq_true_eq, true_imp_iff,
      List.not_mem_nil, false_imp_iff, implies_true, and_true]
    constructor
    · intro known d hd
      exact (known d hd d.system (.inl rfl)).1
    · intro notBuiltin d hd f hf
      rcases hf with rfl | ⟨required, real⟩
      · exact ⟨notBuiltin d hd, d, hd, .inl rfl⟩
      · exact ⟨real, d, hd, .inr required⟩
  · have given : ∀ d, buildFeatures env d = env.features := by
      intro d
      simp [buildFeatures, override]
    simp only [given, override, false_imp_iff, true_and]
    constructor
    · intro known nonempty
      obtain ⟨d, hd⟩ := List.exists_mem_of_ne_nil _ nonempty
      exact known d hd
    · intro known d hd
      exact known (List.ne_nil_of_mem hd)

/-- The builders that the announcements attract can do every job exactly where the features
asked for are the plan's own and none is "builtin". -/
theorem attracts_iff (hashers : Hashers) (ourId : EndpointId) (env : PushEnv) (plan : BuildPlan)
    (order : (allFeatures plan).Iter) :
    Attracts hashers ourId env plan (featuresVec plan order) ↔ FeaturesKnown env plan := by
  rw [← features_announced_iff order]
  constructor
  · intro attracts
    exact (planJobs_offered _).mp (attracts.satisfies _ fun f hf => hf)
  · intro known
    have satisfies : ∀ features, (∀ f ∈ featuresVec plan order, f ∈ features) →
        ∀ job ∈ planJobs hashers ourId env plan, job.offeredBy features = true := by
      intro features offers
      exact (planJobs_offered features).mpr fun d hd f hf => offers f (known d hd f hf)
    refine ⟨satisfies, ?_⟩
    intro cache requesters info features matched announced h q run pending builder now refused
    have offers := (RequesterCache.mem_matching_requesters.mp matched).2
    rw [announced] at offers
    obtain ⟨job, hjob⟩ := List.exists_mem_of_ne_nil _ pending
    have offered := satisfies features offers job ((plan_invariant run).order.subset hjob)
    rw [BuildQueue.pull_none refused job hjob] at offered
    cases offered

section OneDerivation

def singlePlan (d : DrvInfo) : BuildPlan := ⟨[d], []⟩

/-- The announced features do not suffice for a derivation of the system "builtin", nor for a
feature that only the command line gives. -/
theorem builtin_not_attracted :
    (∃ order, ¬ Attracts zeroHashers ⟨zeroBytes32⟩ emptyEnv
      (singlePlan { firstDrv with system := "builtin" })
      (featuresVec (singlePlan { firstDrv with system := "builtin" }) order)) ∧
      ∃ order, ¬ Attracts zeroHashers ⟨zeroBytes32⟩ { emptyEnv with features := ["gpu"] }
        (singlePlan firstDrv) (featuresVec (singlePlan firstDrv) order) := by
  constructor
  · obtain ⟨order⟩ :=
      HashMap.iter_exists (allFeatures (singlePlan { firstDrv with system := "builtin" }))
    refine ⟨order, fun attracts => ?_⟩
    have known := (planJobs_offered _).mp (attracts.satisfies _ fun f hf => hf) _
      (List.mem_singleton_self _) "builtin" List.mem_cons_self
    exact (mem_featuresVec.mp known).1 rfl
  · obtain ⟨order⟩ := HashMap.iter_exists (allFeatures (singlePlan firstDrv))
    refine ⟨order, fun attracts => ?_⟩
    have known := (planJobs_offered _).mp (attracts.satisfies _ fun f hf => hf) _
      (List.mem_singleton_self _) "gpu" List.mem_cons_self
    obtain ⟨_, d, hd, gpu⟩ := mem_featuresVec.mp known
    rw [List.mem_singleton.mp hd] at gpu
    exact absurd gpu (by decide)

end OneDerivation

end IrohNix.BuildPush
