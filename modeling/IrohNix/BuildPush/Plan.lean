import IrohNix.Requester.Announcing

namespace IrohNix.BuildPush
open IrohNix.Lib IrohNix.Build IrohNix.Requester

/-- Information extracted from a .drv file. -/
structure DrvInfo where
  drvPath : String
  system : String
  requiredFeatures : List String
  outputs : List String
  /-- Direct input derivations with their required outputs. -/
  inputDrvs : HashMap String (List String)
  inputSrcs : List String

structure BuildPlan where
  /-- Derivations that need to be built, in dependency order. -/
  toBuild : List DrvInfo
  existingPaths : List String

/-- The derivation at this path is one of the inputs. -/
def DrvInfo.dependsOn (d : DrvInfo) (drvPath : String) : Prop :=
  (d.inputDrvs.get? drvPath).isSome

/-- An acyclic plan in the order `BuildPlan` promises, with one entry for each
derivation. A `Vec` holds fewer than `2^64` entries. -/
structure BuildPlan.Ordered (plan : BuildPlan) : Prop where
  distinct : (plan.toBuild.map DrvInfo.drvPath).Nodup
  dependenciesFirst : plan.toBuild.Pairwise fun d e => ¬ d.dependsOn e.drvPath
  notOwnInput : ∀ d ∈ plan.toBuild, ¬ d.dependsOn d.drvPath
  fits : plan.toBuild.length < 2 ^ 64

/-- What the queueing loop reads: the features given on the command line, the
hash index, the order it walks each `inputDrvs`, and the clock. -/
structure PushEnv where
  features : List String
  indexed : String → Option Bytes32
  order : (d : DrvInfo) → d.inputDrvs.Iter
  clock : DrvInfo → UInt64

/-- "builtin" is not a real feature. -/
def drvFeatures (d : DrvInfo) : List String :=
  d.system :: d.requiredFeatures.filter (fun f => f ≠ "builtin")

/-- User-specified features override the derivation's own. -/
def buildFeatures (env : PushEnv) (d : DrvInfo) : List String :=
  if !env.features.isEmpty then env.features else drvFeatures d

def indexedInputs (env : PushEnv) (paths : List String) : List InputPath :=
  paths.filterMap fun path => (env.indexed path).map fun blake3 => ⟨path, blake3⟩

/-- The outputs of an input derivation that is not in the plan are skipped. -/
def collectInputPaths (env : PushEnv) (plan : BuildPlan) (d : DrvInfo) : List InputPath :=
  indexedInputs env d.inputSrcs ++
    ((env.order d).items.map Prod.fst).flatMap fun depDrv =>
      match plan.toBuild.find? (fun e => e.drvPath == depDrv) with
      | some depInfo => indexedInputs env depInfo.outputs
      | none => []

def queueBuild (hashers : Hashers) (env : PushEnv) (plan : BuildPlan) (q : BuildQueue)
    (d : DrvInfo) : BuildQueue :=
  (pushBuild hashers q true d.drvPath (buildFeatures env d) d.outputs
    (collectInputPaths env plan d) (env.clock d)).1

/-- The queueing loop of `build_push`. -/
def queueBuilds (hashers : Hashers) (env : PushEnv) (plan : BuildPlan) (q : BuildQueue) :
    BuildQueue :=
  plan.toBuild.foldl (queueBuild hashers env plan) q

/-- A queue that so far has only been pushed to. -/
def PushedOnly (hashers : Hashers) (ourId : EndpointId) (q : BuildQueue) : Prop :=
  ∃ h, QueueRun hashers ourId h q ∧ ledger hashers h = ⟨q.pending, []⟩ ∧ q.leased = ∅

theorem queueBuild_pushed {hashers : Hashers} {ourId : EndpointId} {q : BuildQueue}
    (env : PushEnv) (plan : BuildPlan) (d : DrvInfo) (hq : PushedOnly hashers ourId q) :
    PushedOnly hashers ourId (queueBuild hashers env plan q d) ∧
      (queueBuild hashers env plan q d).pending.map BuildJob.drvPath =
        q.pending.map BuildJob.drvPath ++ [d.drvPath] := by
  obtain ⟨h, run, hl, hleased⟩ := hq
  refine ⟨⟨_, run.snoc (.push q d.drvPath (buildFeatures env d) d.outputs
    (collectInputPaths env plan d) (env.clock d)), ?_, hleased⟩, ?_⟩
  · rw [ledger_snoc, hl]
    rfl
  · simp [queueBuild, pushBuild, BuildQueue.push, BuildQueue.newJob]

theorem queueBuilds_pushed (hashers : Hashers) (ourId : EndpointId) (env : PushEnv)
    (plan : BuildPlan) :
    PushedOnly hashers ourId (queueBuilds hashers env plan (.new ourId)) ∧
      (queueBuilds hashers env plan (.new ourId)).pending.map BuildJob.drvPath =
        plan.toBuild.map DrvInfo.drvPath := by
  have all : ∀ (items : List DrvInfo) (q : BuildQueue), PushedOnly hashers ourId q →
      PushedOnly hashers ourId (items.foldl (queueBuild hashers env plan) q) ∧
        (items.foldl (queueBuild hashers env plan) q).pending.map BuildJob.drvPath =
          q.pending.map BuildJob.drvPath ++ items.map DrvInfo.drvPath := by
    intro items
    induction items with
    | nil => exact fun q hq => ⟨hq, by simp⟩
    | cons d items ih =>
      intro q hq
      obtain ⟨hpushed, hpaths⟩ := queueBuild_pushed env plan d hq
      obtain ⟨hpushed, hrest⟩ := ih _ hpushed
      refine ⟨hpushed, ?_⟩
      rw [List.foldl_cons, hrest, hpaths]
      simp
  obtain ⟨hpushed, hpaths⟩ := all plan.toBuild (.new ourId) ⟨[], .nil, rfl, rfl⟩
  exact ⟨hpushed, by simpa [BuildQueue.new, queueBuilds] using hpaths⟩

end IrohNix.BuildPush
