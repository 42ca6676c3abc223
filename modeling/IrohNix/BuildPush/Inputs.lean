import IrohNix.Builder.Dependencies
import IrohNix.BuildPush.Sorting

namespace IrohNix.BuildPush
open IrohNix.Lib IrohNix.Build IrohNix.Builder IrohNix.Index IrohNix.Nix IrohNix.Node
  IrohNix.Requester

/-- What `create_build_plan` asks Nix for: the derivations in the closure, each under its path, and
those of their outputs that exist. -/
structure Closure where
  drvs : HashMap String DrvInfo
  keyed : ∀ path info, drvs.get? path = some info → info.drvPath = path
  existing : HashSet String

/-- A derivation needs building if any of its outputs does not exist. -/
def Closure.needsBuild (closure : Closure) (info : DrvInfo) : Bool :=
  info.outputs.any fun out => (closure.existing.get? out).isNone

def Closure.toBuildSet (closure : Closure) (walk : closure.drvs.Iter) : HashSet String :=
  HashMap.collect ((walk.items.filter fun e => closure.needsBuild e.2).map Prod.fst)

/-- The orders in which `create_build_plan` walks its maps and sets. -/
structure PlanOrders (closure : Closure) where
  drvs : closure.drvs.Iter
  visits : (closure.toBuildSet drvs).Iter
  inputs : (drvPath : String) → (info : DrvInfo) → info.inputDrvs.Iter
  degrees : (sortMaps ⟨closure.drvs, closure.toBuildSet drvs, visits, inputs⟩).inDegree.Iter
  existing : closure.existing.Iter

def PlanOrders.sortInput {closure : Closure} (orders : PlanOrders closure) : SortInput :=
  ⟨closure.drvs, closure.toBuildSet orders.drvs, orders.visits, orders.inputs⟩

/-- Analyze a derivation and create a build plan. -/
def createBuildPlan (closure : Closure) (orders : PlanOrders closure) : Option BuildPlan := do
  let buildOrder ← topologicalSort orders.sortInput orders.degrees
  some {
    toBuild := buildOrder.filterMap closure.drvs.get?
    existingPaths := orders.existing.keys }

/-- What indexing one path meets. -/
structure ExistingEnv where
  files : FileSystem
  nix : NixDatabase

/-- A failure is reported, and the next path is turned to. -/
def indexExistingPath (hashers : Hashers) (gossip : Bool) (env : ExistingEnv) (path : String) :
    Action Unit :=
  if env.files.pathExists path then do
    let _ ← (indexStorePath hashers env.files env.nix gossip path path).attempt
    pure ()
  else pure ()

/-- Add existing paths to the index so that builders can access them. -/
def indexExisting (hashers : Hashers) (gossip : Bool) (env : Nat → ExistingEnv)
    (existingPaths : List String) : Action Unit :=
  .forEach (fun path => indexExistingPath hashers gossip (env path.2) path.1) existingPaths.zipIdx

/-- What the queueing loop looks up. -/
def indexedBlake3 (index : HashIndex) (path : String) : Option Bytes32 :=
  (index.getByStorePath path).map fun entry => entry.blake3.bytes

/-- Everything `build_push` meets between the analysis and its wait for the builds. -/
structure BuildPushEnv where
  gossip : Bool
  existing : Nat → ExistingEnv
  features : List String
  order : (d : DrvInfo) → d.inputDrvs.Iter
  clock : DrvInfo → UInt64

/-- The index when the builds are queued. -/
def pushIndex (hashers : Hashers) (env : BuildPushEnv) (plan : BuildPlan) (index : HashIndex) :
    HashIndex :=
  indexAfter index (indexExisting hashers env.gossip env.existing plan.existingPaths).effects

/-- The queue of `build_push` when all builds are queued. -/
def pushPlan (hashers : Hashers) (env : BuildPushEnv) (plan : BuildPlan) (index : HashIndex)
    (q : BuildQueue) : BuildQueue :=
  queueBuilds hashers
    ⟨env.features, indexedBlake3 (pushIndex hashers env plan index), env.order, env.clock⟩ plan q

/-- The requester can supply the path: it is an input source or an output of an input derivation,
planned or not, and the index holds it. -/
structure Supplies (closure : Closure) (index : HashIndex) (d : DrvInfo) (input : InputPath) :
    Prop where
  source : input.storePath ∈ d.inputSrcs ∨ ∃ dep info, d.dependsOn dep ∧
    closure.drvs.get? dep = some info ∧ input.storePath ∈ info.outputs
  indexed : indexedBlake3 index input.storePath = some input.blake3

/-- The job lists the path, and a builder that lacks it and goes through with fetching the
dependencies has asked for it by its hash. -/
structure AskedFor (hashers : Hashers) (codec : Transfer.NarCodec) (job : BuildJob)
    (input : InputPath) : Prop where
  listed : input ∈ job.inputPaths
  missing : ∀ pathExists : String → Bool, pathExists input.storePath = false →
    .ofInputPath input ∈ missingPaths pathExists (job.inputPaths.map .ofInputPath)
  fetched : ∀ (pathExists : String → Bool) (env : Nat → DependencyEnv),
    pathExists input.storePath = false →
    (fetchDependencies hashers codec pathExists env
      (job.inputPaths.map .ofInputPath)).result = .ok () →
    ∃ i header nar, Imported hashers codec (env i) (.ofInputPath input) header nar

/-- The job of a derivation lists all that the requester can supply. -/
def ListsInputs (hashers : Hashers) (codec : Transfer.NarCodec) (closure : Closure)
    (index : HashIndex) (d : DrvInfo) (job : BuildJob) : Prop :=
  ∀ input, Supplies closure index d input → AskedFor hashers codec job input

/-- What the index holds of an input derivation all of whose outputs exist is an input of another
kind as well. -/
def Covered (closure : Closure) (index : HashIndex) (d : DrvInfo) : Prop :=
  ∀ dep info, d.dependsOn dep → closure.drvs.get? dep = some info →
    closure.needsBuild info = false → ∀ path ∈ info.outputs, (index.getByStorePath path).isSome →
      path ∈ d.inputSrcs ∨ ∃ dep' info', d.dependsOn dep' ∧ closure.drvs.get? dep' = some info' ∧
        closure.needsBuild info' = true ∧ path ∈ info'.outputs

section
variable {closure : Closure}

theorem get_toBuildSet (walk : closure.drvs.Iter) (path : String) :
    ((closure.toBuildSet walk).get? path).isSome ↔
      ∃ info, closure.drvs.get? path = some info ∧ closure.needsBuild info = true := by
  have hmem : path ∈ (walk.items.filter fun e => closure.needsBuild e.2).map Prod.fst ↔
      ∃ info, closure.drvs.get? path = some info ∧ closure.needsBuild info = true := by
    simp only [List.mem_map, List.mem_filter, Prod.exists, walk.mem_iff]
    constructor
    · intro h
      obtain ⟨_, info, ⟨hget, hneeds⟩, rfl⟩ := h
      exact ⟨info, hget, hneeds⟩
    · intro h
      obtain ⟨info, hget, hneeds⟩ := h
      exact ⟨path, info, ⟨hget, hneeds⟩, rfl⟩
  rw [Closure.toBuildSet, HashMap.get_collect, ← hmem]
  split <;> simp_all

/-- The derivations that are looked up are the ones whose paths are. -/
theorem mem_lookedUp {order : List String} {d : DrvInfo} :
    d ∈ order.filterMap closure.drvs.get? ↔
      d.drvPath ∈ order ∧ closure.drvs.get? d.drvPath = some d := by
  rw [List.mem_filterMap]
  constructor
  · intro h
    obtain ⟨path, hpath, hget⟩ := h
    obtain rfl := closure.keyed path d hget
    exact ⟨hpath, hget⟩
  · intro h
    exact ⟨d.drvPath, h⟩

/-- The plan has derivations that need building, with all their inputs that need it; what it
leaves out needs something that it leaves out. -/
structure Planned (closure : Closure) (plan : BuildPlan) : Prop where
  needed : ∀ d ∈ plan.toBuild, closure.drvs.get? d.drvPath = some d ∧ closure.needsBuild d = true
  inputs : ∀ d ∈ plan.toBuild, ∀ dep info, d.dependsOn dep → closure.drvs.get? dep = some info →
    closure.needsBuild info = true → info ∈ plan.toBuild
  rest : ∀ path d, closure.drvs.get? path = some d → closure.needsBuild d = true →
    d ∉ plan.toBuild → ∃ dep info, d.dependsOn dep ∧ closure.drvs.get? dep = some info ∧
      closure.needsBuild info = true ∧ info ∉ plan.toBuild

theorem createBuildPlan_planned (orders : PlanOrders closure) :
    ∃ plan, createBuildPlan closure orders = some plan ∧ Planned closure plan ∧
      plan.existingPaths = orders.existing.keys := by
  obtain ⟨order, hsorted, _, inside, first, none_ready⟩ :=
    topologicalSort_sorted orders.sortInput orders.degrees
  have mem_set : ∀ path, path ∈ toBuildSet orders.sortInput ↔
      ∃ info, closure.drvs.get? path = some info ∧ closure.needsBuild info = true :=
    get_toBuildSet orders.drvs
  refine ⟨⟨_, _⟩, by rw [createBuildPlan, hsorted]; rfl, ⟨?_, ?_, ?_⟩, rfl⟩
  · intro d hd
    obtain ⟨hin, hget⟩ := mem_lookedUp.mp hd
    obtain ⟨info, hinfo, hneeds⟩ := (mem_set d.drvPath).mp (inside d.drvPath hin)
    cases hget.symm.trans hinfo
    exact ⟨hget, hneeds⟩
  · intro d hd dep info hdep hget hneeds
    obtain ⟨hin, hd⟩ := mem_lookedUp.mp hd
    obtain ⟨before, after, horder⟩ := List.append_of_mem hin
    have hbefore := first before d.drvPath after horder dep ((mem_set dep).mpr ⟨info, hget, hneeds⟩)
      ⟨d, hd, hdep⟩
    obtain rfl := closure.keyed dep info hget
    refine mem_lookedUp.mpr ⟨?_, hget⟩
    rw [horder]
    exact List.mem_append_left _ hbefore
  · intro path d hget hneeds hout
    obtain rfl := closure.keyed path d hget
    have hunlisted : d.drvPath ∉ order := fun hin => hout (mem_lookedUp.mpr ⟨hin, hget⟩)
    obtain ⟨dep, hset, ⟨d', hget', hdep⟩, hleft⟩ :=
      none_ready d.drvPath ((mem_set d.drvPath).mpr ⟨d, hget, hneeds⟩) hunlisted
    obtain ⟨info, hinfo, hinfoNeeds⟩ := (mem_set dep).mp hset
    have hget' : closure.drvs.get? d.drvPath = some d' := hget'
    cases hget.symm.trans hget'
    refine ⟨dep, info, hdep, hinfo, hinfoNeeds, fun hin => hleft ?_⟩
    obtain rfl := closure.keyed dep info hinfo
    exact (mem_lookedUp.mp hin).1

/-- A plan is in the order it promises, whatever the orders in which the maps are walked; of a
closure with a cycle it is a part. -/
theorem createBuildPlan_ordered (orders : PlanOrders closure)
    (fits : orders.visits.items.length < 2 ^ 64) :
    ∃ plan, createBuildPlan closure orders = some plan ∧ plan.Ordered := by
  obtain ⟨order, hsorted, nodup, inside, first, _⟩ :=
    topologicalSort_sorted orders.sortInput orders.degrees
  have known : ∀ path ∈ order, ∃ d, closure.drvs.get? path = some d ∧ d.drvPath = path := by
    intro path hpath
    obtain ⟨d, hget, _⟩ := (get_toBuildSet orders.drvs path).mp (inside path hpath)
    exact ⟨d, hget, closure.keyed path d hget⟩
  have paths : (order.filterMap closure.drvs.get?).map DrvInfo.drvPath = order := by
    rw [List.map_filterMap]
    refine (List.filterMap_congr fun path hpath => ?_).trans List.filterMap_some
    obtain ⟨d, hget, hkey⟩ := known path hpath
    rw [hget, Option.map_some, hkey]
  have needs_input : ∀ d ∈ order.filterMap closure.drvs.get?, ∀ e, d.dependsOn e →
      NeedsInput orders.sortInput d.drvPath e := fun d hd e hdep =>
    ⟨d, (mem_lookedUp.mp hd).2, hdep⟩
  refine ⟨⟨_, _⟩, by rw [createBuildPlan, hsorted]; rfl, ?_, ?_, ?_, ?_⟩
  · rw [paths]
    exact nodup
  · have sorted := first.pairwise nodup inside
    rw [← paths] at sorted
    refine (List.pairwise_map.mp sorted).imp_of_mem ?_
    intro d e hd _ hnot hdep
    exact hnot (needs_input d hd e.drvPath hdep)
  · intro d hd hdep
    have listed := (mem_lookedUp.mp hd).1
    exact first.not_self nodup listed (inside d.drvPath listed) (needs_input d hd _ hdep)
  · have hlength : order.length ≤ orders.visits.keys.length := by
      refine (nodup.subperm fun path hpath => ?_).length_le
      exact orders.visits.mem_keys path |>.mpr (inside path hpath)
    rw [HashMap.Iter.keys, List.length_map] at hlength
    calc (order.filterMap closure.drvs.get?).length
        = order.length := by rw [← List.length_map, paths]
      _ ≤ orders.visits.items.length := hlength
      _ < 2 ^ 64 := fits

/-- The queued jobs list what is collected for them. -/
theorem queueBuilds_inputs (hashers : Hashers) (env : PushEnv) (plan : BuildPlan)
    (q : BuildQueue) :
    (queueBuilds hashers env plan q).pending.map (fun job => (job.drvPath, job.inputPaths)) =
      q.pending.map (fun job => (job.drvPath, job.inputPaths)) ++
        plan.toBuild.map fun d => (d.drvPath, collectInputPaths env plan d) := by
  have all : ∀ (items : List DrvInfo) (q : BuildQueue),
      (items.foldl (queueBuild hashers env plan) q).pending.map
          (fun job => (job.drvPath, job.inputPaths)) =
        q.pending.map (fun job => (job.drvPath, job.inputPaths)) ++
          items.map fun d => (d.drvPath, collectInputPaths env plan d) := by
    intro items
    induction items with
    | nil => exact fun q => by simp
    | cons d items ih =>
      intro q
      rw [List.foldl_cons, ih]
      simp [queueBuild, pushBuild, BuildQueue.push, BuildQueue.newJob]
  exact all plan.toBuild q

theorem mem_indexedInputs {env : PushEnv} {paths : List String} {input : InputPath} :
    input ∈ indexedInputs env paths ↔
      input.storePath ∈ paths ∧ env.indexed input.storePath = some input.blake3 := by
  simp only [indexedInputs, List.mem_filterMap, Option.map_eq_some_iff]
  constructor
  · intro h
    obtain ⟨path, hpath, blake3, hindexed, rfl⟩ := h
    exact ⟨hpath, hindexed⟩
  · intro h
    exact ⟨_, h.1, _, h.2, rfl⟩

/-- Listed are the sources and the outputs of input derivations that need building. -/
theorem mem_collectInputPaths {env : PushEnv} {plan : BuildPlan} (planned : Planned closure plan)
    {d : DrvInfo} (hd : d ∈ plan.toBuild) {input : InputPath} :
    input ∈ collectInputPaths env plan d ↔
      (input.storePath ∈ d.inputSrcs ∨ ∃ dep info, d.dependsOn dep ∧
        closure.drvs.get? dep = some info ∧ closure.needsBuild info = true ∧
        input.storePath ∈ info.outputs) ∧
      env.indexed input.storePath = some input.blake3 := by
  have found : ∀ dep info, plan.toBuild.find? (fun e => e.drvPath == dep) = some info →
      closure.drvs.get? dep = some info ∧ closure.needsBuild info = true := by
    intro dep info h
    obtain rfl : info.drvPath = dep := by simpa using List.find?_some h
    exact planned.needed info (List.mem_of_find?_eq_some h)
  have mem_keys : ∀ dep, dep ∈ (env.order d).items.map Prod.fst ↔ d.dependsOn dep :=
    (env.order d).mem_keys
  rw [collectInputPaths, List.mem_append, mem_indexedInputs, List.mem_flatMap, or_and_right]
  refine or_congr_right ?_
  constructor
  · intro h
    obtain ⟨dep, hdep, h⟩ := h
    cases hfind : plan.toBuild.find? (fun e => e.drvPath == dep) with
    | none => simp [hfind] at h
    | some info =>
      simp only [hfind] at h
      obtain ⟨hpath, hindexed⟩ := mem_indexedInputs.mp h
      obtain ⟨hget, hneeds⟩ := found dep info hfind
      exact ⟨⟨dep, info, (mem_keys dep).mp hdep, hget, hneeds, hpath⟩, hindexed⟩
  · intro h
    obtain ⟨⟨dep, info, hdep, hget, hneeds, hpath⟩, hindexed⟩ := h
    refine ⟨dep, (mem_keys dep).mpr hdep, ?_⟩
    have hin := planned.inputs d hd dep info hdep hget hneeds
    have hkey : (info.drvPath == dep) = true := by simpa using closure.keyed dep info hget
    cases hfind : plan.toBuild.find? (fun e => e.drvPath == dep) with
    | none => exact absurd hkey (by simpa using List.find?_eq_none.mp hfind info hin)
    | some info' =>
      cases hget.symm.trans (found dep info' hfind).1
      exact mem_indexedInputs.mpr ⟨hpath, hindexed⟩

theorem mem_missingPaths {pathExists : String → Bool} {inputPaths : List InputPath}
    {input : InputPath} (listed : input ∈ inputPaths)
    (lacks : pathExists input.storePath = false) :
    .ofInputPath input ∈ missingPaths pathExists (inputPaths.map .ofInputPath) := by
  apply List.mem_filter.mpr
  exact ⟨List.mem_map_of_mem listed, by simpa [InputPathProto.ofInputPath] using lacks⟩

/-- A builder asks for what is listed and it lacks. -/
theorem asked_of_listed {hashers : Hashers} {codec : Transfer.NarCodec} {job : BuildJob}
    {input : InputPath} (listed : input ∈ job.inputPaths) :
    AskedFor hashers codec job input where
  listed := listed
  missing _ lacks := mem_missingPaths listed lacks
  fetched pathExists env lacks done := by
    obtain ⟨i, hi⟩ := List.mem_iff_getElem?.mp (mem_missingPaths listed lacks)
    have hok := Logged.ok_of_forEach done (.ofInputPath input, i)
      (List.mem_zipIdx_iff_getElem?.mpr hi)
    exact ⟨i, fetchDependency_ok.mp hok⟩

/-- A job lists what can be supplied exactly where the inputs that are not planned are covered. -/
theorem lists_iff_covered (hashers : Hashers) (codec : Transfer.NarCodec) {plan : BuildPlan}
    (planned : Planned closure plan) {env : BuildPushEnv} {index : HashIndex} {d : DrvInfo}
    (hd : d ∈ plan.toBuild) {job : BuildJob}
    (hjob : job.inputPaths = collectInputPaths
      ⟨env.features, indexedBlake3 index, env.order, env.clock⟩ plan d) :
    ListsInputs hashers codec closure index d job ↔ Covered closure index d := by
  have mem_job : ∀ input, input ∈ job.inputPaths ↔
      (input.storePath ∈ d.inputSrcs ∨ ∃ dep info, d.dependsOn dep ∧
        closure.drvs.get? dep = some info ∧ closure.needsBuild info = true ∧
        input.storePath ∈ info.outputs) ∧
      indexedBlake3 index input.storePath = some input.blake3 := by
    intro input
    rw [hjob]
    exact mem_collectInputPaths planned hd
  constructor
  · intro lists dep info hdep hget _ path hpath hindexed
    obtain ⟨entry, hentry⟩ := Option.isSome_iff_exists.mp hindexed
    have supplies : Supplies closure index d ⟨path, entry.blake3.bytes⟩ :=
      ⟨.inr ⟨dep, info, hdep, hget, hpath⟩, by simp [indexedBlake3, hentry]⟩
    exact ((mem_job _).mp (lists _ supplies).listed).1
  · intro covered input supplies
    apply asked_of_listed
    refine (mem_job input).mpr ⟨?_, supplies.indexed⟩
    rcases supplies.source with hsrc | ⟨dep, info, hdep, hget, hpath⟩
    · exact .inl hsrc
    · cases hneeds : closure.needsBuild info with
      | true => exact .inr ⟨dep, info, hdep, hget, hneeds, hpath⟩
      | false =>
        apply covered dep info hdep hget hneeds input.storePath hpath
        have hindexed := supplies.indexed
        rw [indexedBlake3, Option.map_eq_some_iff] at hindexed
        obtain ⟨entry, hentry, _⟩ := hindexed
        simp [hentry]

theorem pushPlan_inputs (hashers : Hashers) (env : BuildPushEnv) (plan : BuildPlan)
    (start : HashIndex) (ourId : EndpointId) :
    (pushPlan hashers env plan start (.new ourId)).pending.map
        (fun job => (job.drvPath, job.inputPaths)) =
      plan.toBuild.map fun d => (d.drvPath,
        collectInputPaths ⟨env.features, indexedBlake3 (pushIndex hashers env plan start),
          env.order, env.clock⟩ plan d) :=
  queueBuilds_inputs hashers _ plan (.new ourId)

/-- Each planned derivation has a job, and the job lists what the requester can supply if and only
if what the index holds of inputs that are not planned is an input of another kind as well. -/
theorem inputs_listed_iff (hashers : Hashers) (codec : Transfer.NarCodec) (ourId : EndpointId)
    (closure : Closure) (orders : PlanOrders closure) (env : BuildPushEnv) (start : HashIndex) :
    ∃ plan, createBuildPlan closure orders = some plan ∧
      (pushPlan hashers env plan start (.new ourId)).pending.length = plan.toBuild.length ∧
      ∀ (i : Nat) d job, plan.toBuild[i]? = some d →
        (pushPlan hashers env plan start (.new ourId)).pending[i]? = some job →
        job.drvPath = d.drvPath ∧
          (ListsInputs hashers codec closure (pushIndex hashers env plan start) d job ↔
            Covered closure (pushIndex hashers env plan start) d) := by
  obtain ⟨plan, hplan, planned, _⟩ := createBuildPlan_planned orders
  have hpending := pushPlan_inputs hashers env plan start ourId
  refine ⟨plan, hplan, ?_, ?_⟩
  · simpa using congrArg List.length hpending
  · intro i d job hd hjob
    have hsame := congrArg (·[i]?) hpending
    simp only [List.getElem?_map, hd, hjob, Option.map_some, Option.some.injEq,
      Prod.mk.injEq] at hsame
    exact ⟨hsame.1, lists_iff_covered hashers codec planned (List.mem_of_getElem? hd) hsame.2⟩

end

section ExistingInput

def dependencyDrv : DrvInfo :=
  ⟨"/nix/store/lib.drv", "x86_64-linux", [], ["/nix/store/lib"], ∅, []⟩

def dependentDrv : DrvInfo :=
  ⟨"/nix/store/app.drv", "x86_64-linux", [], ["/nix/store/app"],
    Finmap.insert "/nix/store/lib.drv" ["out"] ∅, []⟩

/-- The library exists, the application is to be built. -/
def appClosure : Closure where
  drvs := Finmap.insert "/nix/store/app.drv" dependentDrv
    (Finmap.insert "/nix/store/lib.drv" dependencyDrv ∅)
  keyed path info h := by
    rw [HashMap.get_insert, HashMap.get_insert] at h
    split at h
    · cases h
      symm
      assumption
    · split at h
      · cases h
        symm
        assumption
      · simp at h
  existing := HashMap.collect ["/nix/store/lib"]

def oneFile : FileSystem := ⟨fun _ => true, fun _ => .ok (.regular false [])⟩

noncomputable def appEnv : BuildPushEnv where
  gossip := true
  existing _ := ⟨oneFile, emptyDatabase⟩
  features := []
  order d := d.inputDrvs.someIter
  clock _ := 0

theorem library_indexed : ((indexAfter .empty (indexExisting zeroHashers true
    (fun _ => ⟨oneFile, emptyDatabase⟩) ["/nix/store/lib"]).effects).getByStorePath
      "/nix/store/lib").isSome = true := by
  decide +kernel

noncomputable def someOrders (closure : Closure) : PlanOrders closure where
  drvs := closure.drvs.someIter
  visits := HashMap.someIter _
  inputs _ info := info.inputDrvs.someIter
  degrees := HashMap.someIter _
  existing := closure.existing.someIter

theorem dependsOn_dependent {dep : String} :
    dependentDrv.dependsOn dep ↔ dep = "/nix/store/lib.drv" := by
  rw [DrvInfo.dependsOn, dependentDrv, HashMap.get_insert]
  split <;> simp_all

theorem dependency_exists : appClosure.needsBuild dependencyDrv = false := by
  simp [Closure.needsBuild, appClosure, dependencyDrv, HashMap.get_collect]

theorem dependent_missing : appClosure.needsBuild dependentDrv = true := by
  simp [Closure.needsBuild, appClosure, dependentDrv, HashMap.get_collect]

theorem get_dependency : appClosure.drvs.get? "/nix/store/lib.drv" = some dependencyDrv := by
  simp [appClosure, HashMap.get_insert]

theorem get_dependent : appClosure.drvs.get? "/nix/store/app.drv" = some dependentDrv :=
  HashMap.get_insert_self _ _ _

/-- The path of the library is in the index, and the job of the application does not list it. -/
theorem existing_input_unlisted : ∃ (orders : PlanOrders appClosure) (plan : BuildPlan) (i : Nat)
    (job : BuildJob), createBuildPlan appClosure orders = some plan ∧
    plan.toBuild[i]? = some dependentDrv ∧
    (pushPlan zeroHashers appEnv plan .empty (.new ⟨zeroBytes32⟩)).pending[i]? = some job ∧
    ¬ ListsInputs zeroHashers Transfer.shortCodec appClosure
      (pushIndex zeroHashers appEnv plan .empty) dependentDrv job := by
  let orders := someOrders appClosure
  obtain ⟨plan, hplan, planned, hexisting⟩ := createBuildPlan_planned orders
  have hpaths : plan.existingPaths = ["/nix/store/lib"] := by
    have hmem : ∀ path, path ∈ orders.existing.keys ↔ path ∈ ["/nix/store/lib"] := by
      intro path
      rw [orders.existing.mem_keys, appClosure, HashMap.get_collect]
      split <;> simp_all
    rw [hexisting]
    exact List.perm_singleton.mp
      ((List.perm_ext_iff_of_nodup orders.existing.keys_nodup (List.nodup_singleton _)).mpr hmem)
  have hbuilt : dependentDrv ∈ plan.toBuild := by
    by_contra hout
    obtain ⟨dep, info, hdep, hget, hneeds, _⟩ :=
      planned.rest _ dependentDrv get_dependent dependent_missing hout
    obtain rfl := dependsOn_dependent.mp hdep
    cases get_dependency.symm.trans hget
    exact Bool.false_ne_true (dependency_exists.symm.trans hneeds)
  obtain ⟨i, hi⟩ := List.mem_iff_getElem?.mp hbuilt
  have hjobs := congrArg (·[i]?) (pushPlan_inputs zeroHashers appEnv plan .empty ⟨zeroBytes32⟩)
  simp only [List.getElem?_map, hi, Option.map_some, Option.map_eq_some_iff] at hjobs
  obtain ⟨job, hjob, hsame⟩ := hjobs
  refine ⟨orders, plan, i, job, hplan, hi, hjob, ?_⟩
  rw [lists_iff_covered zeroHashers _ planned hbuilt (Prod.mk.inj hsame).2]
  intro covered
  have hindexed : ((pushIndex zeroHashers appEnv plan .empty).getByStorePath
      "/nix/store/lib").isSome := by
    rw [pushIndex, hpaths]
    exact library_indexed
  rcases covered _ _ (dependsOn_dependent.mpr rfl) get_dependency dependency_exists _
    List.mem_cons_self hindexed with hsrc | ⟨dep, info, hdep, hget, hneeds, _⟩
  · simp [dependentDrv] at hsrc
  · obtain rfl := dependsOn_dependent.mp hdep
    cases get_dependency.symm.trans hget
    exact Bool.false_ne_true (dependency_exists.symm.trans hneeds)

end ExistingInput

end IrohNix.BuildPush
