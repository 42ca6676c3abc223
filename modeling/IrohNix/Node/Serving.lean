import IrohNix.Builder.Dependencies
import IrohNix.Index.ThreeWay
import IrohNix.Lib.Runs
import IrohNix.Transfer.Answers

namespace IrohNix.Node
open IrohNix.Lib IrohNix.Builder IrohNix.Index IrohNix.Nar IrohNix.Nix IrohNix.Transfer

/-- What a node is set to do, with all that it meets on the way. -/
inductive NodeTask where
  | serve (env : ServeEnv) (request : NarRequest)
  | fetchFrom (nix : NixDatabase) (config : RetryConfig) (peer : Nat → NarExchange)
      (blake3 : Blake3Hash)
  | fetchDependencies (pathExists : String → Bool) (env : Nat → DependencyEnv)
      (inputPaths : List InputPathProto)
  | indexStorePath (files : FileSystem) (nix : NixDatabase) (gossip : Bool)
      (storePath fsPath : String)
  | indexOutputs (env : Nat → OutputEnv) (lines : List String)

/-- What a task does. The index is looked into once, when a request is taken up. -/
def NodeTask.effects (hashers : Hashers) (codec : NarCodec) (index : HashIndex) :
    NodeTask → List Effect
  | .serve env request => (handleNarRequest hashers env index request).effects
  | .fetchFrom nix config peer blake3 =>
    (fetchFromWithConfig hashers codec nix config peer blake3).effects
  | .fetchDependencies pathExists env inputPaths =>
    (Builder.fetchDependencies hashers codec pathExists env inputPaths).effects
  | .indexStorePath files nix gossip storePath fsPath =>
    (Node.indexStorePath hashers files nix gossip storePath fsPath).effects
  | .indexOutputs env lines => (Builder.indexOutputs hashers env (outputPaths lines)).effects

def NodeTask.serves : NodeTask → Bool
  | .serve .. => true
  | _ => false

/-- A task in progress: whether it serves a request, and the effects still to come. -/
structure Running where
  serves : Bool
  effects : List Effect

/-- A node: its index, its tasks in progress, and the paths that requests have had
handed to the NAR serializer. -/
structure ServingNode where
  index : HashIndex
  running : List Running
  served : List String

def ServingNode.new : ServingNode := ⟨Table.empty, [], []⟩

inductive NodeEvent where
  | start (task : NodeTask)
  | advance
  | deleteByBlake3 (blake3 : Blake3Hash)

/-- The path a request has serialized by this effect. -/
def servedPath : Bool → Effect → List String
  | true, .serialize path => [path]
  | _, _ => []

@[simp] theorem servedPath_false (e : Effect) : servedPath false e = [] := by cases e <;> rfl

/-- Tasks start at any time, and take turns in any order. A row may be deleted in between. -/
inductive NodeStep (hashers : Hashers) (codec : NarCodec) :
    ServingNode → NodeEvent → ServingNode → Prop where
  | start (s : ServingNode) (task : NodeTask) :
      NodeStep hashers codec s (.start task)
        { s with running := s.running ++ [⟨task.serves, task.effects hashers codec s.index⟩] }
  | advance (index : HashIndex) (served : List String) (before after : List Running)
      (serves : Bool) (e : Effect) (rest : List Effect) :
      NodeStep hashers codec ⟨index, before ++ ⟨serves, e :: rest⟩ :: after, served⟩ .advance
        ⟨e.onIndex index, before ++ ⟨serves, rest⟩ :: after, served ++ servedPath serves e⟩
  | deleteByBlake3 (s : ServingNode) (blake3 : Blake3Hash) :
      NodeStep hashers codec s (.deleteByBlake3 blake3)
        { s with index := (s.index.deleteByBlake3 blake3).1 }

/-- A path that is on disk and known to Nix, of which the header goes out. -/
def OnDemand (env : ServeEnv) (storePath : String) : Prop :=
  env.files.pathExists storePath = true ∧ ∃ nixInfo sha256,
    env.nix.query storePath = .ok nixInfo ∧ nixInfo.sha256Bytes env.nix = .ok sha256 ∧
    HeaderSent env ⟨nixInfo.narSize, sha256, storePath⟩

/-- A path that is not on disk, but that a cache delivers. -/
def Proxied (hashers : Hashers) (env : ServeEnv) (storePath : String) : Prop :=
  env.files.pathExists storePath = false ∧ ∃ cache result, env.httpCache = some cache ∧
    cache.fetchByStorePath hashers storePath = .ok result

/-- No path outside the store comes in: not in a request for a path that looks valid and
that is served on demand or proxied, not in the header of a NAR a remote node delivers, not
in a job, as an input that gets imported, and not from the node itself, as a path that gets
indexed. -/
def NodeTask.Confined (hashers : Hashers) (codec : NarCodec) : NodeTask → Prop
  | .serve env (.byStorePath storePath) =>
    isValidStorePath storePath = true → OnDemand env storePath ∨ Proxied hashers env storePath →
      InsideStore storePath
  | .serve _ (.byBlake3 _) => True
  | .fetchFrom _ config peer blake3 =>
    ∀ header nar, fetchNarWithConfig hashers codec config peer blake3 = .ok (header, nar) →
      InsideStore header.storePath
  | .fetchDependencies pathExists env inputPaths =>
    ∀ (i : Nat) (hi : i < (missingPaths pathExists inputPaths).length),
      (∀ (j : Nat) (hj : j ≤ i), ∃ header nar,
        Imported hashers codec (env j) (missingPaths pathExists inputPaths)[j] header nar) →
      InsideStore (missingPaths pathExists inputPaths)[i].storePath
  | .indexStorePath files nix _ storePath fsPath =>
    Indexable hashers files nix storePath fsPath → InsideStore storePath
  | .indexOutputs env lines =>
    ∀ (i : Nat) (hi : i < (outputPaths lines).length),
      (∀ (j : Nat) (hj : j ≤ i), ∃ info,
        (serializeToSink hashers (env j).files (outputPaths lines)[j]).result = .ok info) →
      InsideStore (outputPaths lines)[i]

/-- An effect that neither indexes nor serves a path outside the store. -/
def Effect.Confined (serves : Bool) : Effect → Prop
  | .insert entry => InsideStore entry.storePath
  | .serialize path => serves = true → InsideStore path
  | .send _ | .announceHave .. | .restore .. => True

/-- Rows, tasks in progress and what was served all keep to the store. -/
structure Contained (s : ServingNode) : Prop where
  rows : ∀ row ∈ s.index.rows, InsideStore row.storePath
  running : ∀ task ∈ s.running, ∀ e ∈ task.effects, e.Confined task.serves
  served : ∀ path ∈ s.served, InsideStore path

/-- By its hash only the path of a row is served. -/
theorem byBlake3_confined {hashers : Hashers} {index : HashIndex} {env : ServeEnv} {hash : Bytes32}
    (rows : ∀ row ∈ index.rows, InsideStore row.storePath) :
    (handleNarRequest hashers env index (.byBlake3 hash)).Only (Effect.Confined true) := by
  have inside : ∀ path, requestedPath index (.byBlake3 hash) = some path → InsideStore path := by
    intro path asked
    obtain ⟨entry, hget, rfl⟩ := Option.map_eq_some_iff.mp asked
    obtain ⟨row, hr, hp⟩ := getByBlake3_row hget
    exact hp ▸ rows row hr
  intro e he
  cases handleNarRequest_does hashers env index _ e he with
  | send => trivial
  | serialize path asked => exact fun _ => inside path asked
  | insert path cache result asked configured fetched =>
    unfold Effect.Confined FetchResult.entry
    rw [(fetchByStorePath_ok fetched).storePath]
    exact inside path asked

theorem stream_confined {hashers : Hashers} {env : ServeEnv} {storePath : String}
    {narSize : UInt64} {sha256 : Sha256Hash}
    (inside : HeaderSent env ⟨narSize, sha256.bytes, storePath⟩ → InsideStore storePath) :
    (streamNarFromPath hashers env storePath narSize sha256).Only (Effect.Confined true) := by
  intro e he
  rcases streamNarFromPath_does hashers env storePath narSize sha256 e he with ⟨_, rfl⟩ | rfl
  · trivial
  · exact fun _ => inside (streamNarFromPath_serializes.mp he)

/-- By its name a path is served that is on disk, if a row or Nix knows it, and one that a
cache delivers is indexed. -/
theorem byStorePath_confined_iff {hashers : Hashers} {codec : NarCodec} {index : HashIndex}
    {env : ServeEnv} {storePath : String}
    (rows : ∀ row ∈ index.rows, InsideStore row.storePath) :
    (NodeTask.serve env (.byStorePath storePath)).Confined hashers codec ↔
      (handleNarRequest hashers env index (.byStorePath storePath)).Only
        (Effect.Confined true) := by
  have sends : ∀ m : Action Unit, m.Only IsSend → m.Only (Effect.Confined true) := by
    intro m only e he
    obtain ⟨data, rfl⟩ := only e he
    trivial
  simp only [NodeTask.Confined, handleNarRequest, handleNarByStorePath]
  cases isValidStorePath storePath with
  | false => simpa using sends _ (sendErrorResponse_sends env _)
  | true =>
    simp only [Bool.not_true, Bool.false_eq_true, if_false, true_imp_iff]
    by_cases onDisk : env.files.pathExists storePath = true
    · have proxied : ¬ Proxied hashers env storePath := by simp [Proxied, onDisk]
      simp only [onDisk, if_true, proxied, or_false]
      cases hget : index.getByStorePath storePath with
      | some entry =>
        obtain ⟨row, hr, hp⟩ := getByStorePath_row hget
        have inside : InsideStore storePath := hp ▸ rows row hr
        exact iff_of_true (fun _ => inside) (stream_confined fun _ => inside)
      | none =>
        constructor
        · intro confined e he
          simp only [Logged.mem_bind, Logged.effects_lift, List.not_mem_nil, false_or,
            Logged.result_lift] at he
          obtain ⟨nixInfo, hq, sha256, hs, he⟩ := he
          exact stream_confined (fun sent => confined ⟨onDisk, nixInfo, sha256, hq, hs, sent⟩) e he
        · intro only demand
          obtain ⟨_, nixInfo, sha256, hq, hs, sent⟩ := demand
          refine only (.serialize storePath) ?_ rfl
          simp only [Logged.mem_bind, Logged.effects_lift, List.not_mem_nil, false_or,
            Logged.result_lift]
          exact ⟨nixInfo, hq, sha256, hs, streamNarFromPath_serializes.mpr sent⟩
    · have missing : ¬ OnDemand env storePath := by simp [OnDemand, onDisk]
      simp only [onDisk, Bool.false_eq_true, if_false, missing, false_or]
      cases hcache : env.httpCache with
      | none =>
        refine iff_of_true (fun proxied => ?_) (sends _ (sendErrorResponse_sends env _))
        obtain ⟨_, cache, _, configured, _⟩ := proxied
        rw [hcache] at configured
        contradiction
      | some cache =>
        constructor
        · intro confined e he
          rcases fetchAndStreamFromHttp_does hashers env cache storePath none e he with
            ⟨data, rfl⟩ | ⟨result, fetched, rfl⟩
          · trivial
          · unfold Effect.Confined FetchResult.entry
            rw [(fetchByStorePath_ok fetched).storePath]
            exact confined ⟨by simpa using onDisk, cache, result, hcache, fetched⟩
        · intro only proxied
          obtain ⟨_, cache', result, configured, fetched⟩ := proxied
          cases hcache.symm.trans configured
          rw [← (fetchByStorePath_ok fetched).storePath]
          refine only (.insert result.entry) ?_
          simp [fetchAndStreamFromHttp, fetched, insertEntry]

/-- For a task that serves no request, only the rows it writes matter. -/
theorem confined_iff_inserts {effects : List Effect} :
    (∀ e ∈ effects, e.Confined false) ↔
      ∀ entry, .insert entry ∈ effects → InsideStore entry.storePath := by
  constructor
  · intro confined entry he
    exact confined _ he
  · intro inserts e he
    cases e with
    | send | announceHave | restore => trivial
    | serialize path => exact fun h => by contradiction
    | insert entry => exact inserts entry he

/-- As long as the rows it may find are inside the store, what a task does is confined
exactly if the task is. -/
theorem task_confined_iff {hashers : Hashers} {codec : NarCodec} {index : HashIndex}
    {task : NodeTask} (rows : ∀ row ∈ index.rows, InsideStore row.storePath) :
    task.Confined hashers codec ↔
      ∀ e ∈ task.effects hashers codec index, e.Confined task.serves := by
  cases task with
  | serve env request =>
    cases request with
    | byBlake3 hash => exact iff_of_true trivial (byBlake3_confined rows)
    | byStorePath storePath => exact byStorePath_confined_iff rows
  | fetchFrom nix config peer blake3 =>
    refine Iff.trans ?_ confined_iff_inserts.symm
    constructor
    · intro confined entry he
      obtain ⟨header, nar, hf, rfl⟩ := fetchFrom_inserts.mp he
      exact confined header nar hf
    · intro inserts header nar hf
      exact inserts _ (fetchFrom_inserts.mpr ⟨header, nar, hf, rfl⟩)
  | fetchDependencies pathExists env inputPaths =>
    refine Iff.trans ?_ confined_iff_inserts.symm
    constructor
    · intro confined entry he
      obtain ⟨i, hi, hbefore, header, nar, himported, rfl⟩ := fetchMissing_inserts.mp he
      refine confined i hi fun j hj => ?_
      rcases Nat.lt_or_eq_of_le hj with hlt | rfl
      · exact hbefore j hlt
      · exact ⟨header, nar, himported⟩
    · intro inserts i hi himported
      obtain ⟨header, nar, last⟩ := himported i (Nat.le_refl i)
      exact inserts _ (fetchMissing_inserts.mpr
        ⟨i, hi, fun j hj => himported j (Nat.le_of_lt hj), header, nar, last, rfl⟩)
  | indexStorePath files nix gossip storePath fsPath =>
    refine Iff.trans ?_ confined_iff_inserts.symm
    constructor
    · intro confined entry he
      obtain ⟨_, _, _, _, _, hm, rfl⟩ := indexStorePath_inserts.mp he
      exact confined (indexable_iff.mpr ⟨_, hm⟩)
    · intro inserts indexable
      obtain ⟨⟨_, _, _, _, _⟩, hm⟩ := indexable_iff.mp indexable
      exact inserts _ (indexStorePath_inserts.mpr ⟨_, _, _, _, _, hm, rfl⟩)
  | indexOutputs env lines =>
    refine Iff.trans ?_ confined_iff_inserts.symm
    constructor
    · intro confined entry he
      obtain ⟨i, hi, hbefore, he⟩ := Logged.mem_mapEach_zipIdx.mp he
      obtain ⟨info, hinfo, rfl⟩ := indexOutput_inserts.mp he
      refine confined i hi fun j hj => ?_
      rcases Nat.lt_or_eq_of_le hj with hlt | rfl
      · exact output_indexed_iff.mp (hbefore j hlt)
      · exact ⟨info, hinfo⟩
    · intro inserts i hi serialized
      obtain ⟨info, hinfo⟩ := serialized i (Nat.le_refl i)
      refine inserts _ (Logged.mem_mapEach_zipIdx.mpr ⟨i, hi, fun j hj => ?_,
        indexOutput_inserts.mpr ⟨info, hinfo, rfl⟩⟩)
      exact output_indexed_iff.mpr (serialized j (Nat.le_of_lt hj))

theorem Contained.step {hashers : Hashers} {codec : NarCodec} {s t : ServingNode} {e : NodeEvent}
    (c : Contained s) (step : NodeStep hashers codec s e t)
    (confined : ∀ task, e = .start task → task.Confined hashers codec) : Contained t := by
  cases step with
  | start task =>
    refine ⟨c.rows, fun r hr => ?_, c.served⟩
    rcases List.mem_append.mp hr with hr | hr
    · exact c.running r hr
    · rw [List.mem_singleton.mp hr]
      exact (task_confined_iff c.rows).mp (confined _ rfl)
  | deleteByBlake3 blake3 =>
    refine ⟨fun row hr => ?_, c.running, c.served⟩
    exact c.rows row ((HashIndex.mem_deleteByBlake3 _ _ _).mp hr).1
  | advance index served before after serves e rest =>
    have hnext : e.Confined serves := c.running ⟨serves, e :: rest⟩ (by simp) e (by simp)
    refine ⟨fun row hr => ?_, fun r hr => ?_, fun path hp => ?_⟩
    · have hrow : row ∈ (indexAfter index [e]).rows := hr
      rcases indexAfter_rows hrow with hr | ⟨entry, he, rfl⟩
      · exact c.rows row hr
      · obtain rfl := List.mem_singleton.mp he
        exact hnext
    · simp only [List.mem_append, List.mem_cons] at hr
      rcases hr with hr | rfl | hr
      · exact c.running r (by simp [hr])
      · exact fun e' he' => c.running ⟨serves, e :: rest⟩ (by simp) e' (by simp [he'])
      · exact c.running r (by simp [hr])
    · rcases List.mem_append.mp hp with hp | hp
      · exact c.served path hp
      · cases serves <;> cases e <;> simp only [servedPath, List.not_mem_nil,
          List.mem_singleton] at hp
        subst hp
        exact hnext rfl

/-- A run of a node from some state on that starts only the tasks allowed. -/
abbrev RunStarting (hashers : Hashers) (codec : NarCodec) (allowed : NodeTask → Prop)
    (init : ServingNode) : List NodeEvent → ServingNode → Prop :=
  RunWhile (fun _ _ e => ∀ task, e = .start task → allowed task) (NodeStep hashers codec) init

section Started
variable {hashers : Hashers} {codec : NarCodec} {allowed : NodeTask → Prop} {init : ServingNode}

theorem Contained.run {h : List NodeEvent} {s : ServingNode} (c : Contained init)
    (confined : ∀ task, allowed task → task.Confined hashers codec)
    (run : RunStarting hashers codec allowed init h s) : Contained s := by
  refine RunWhile.invariant (fun _ s => Contained s) c ?_ run
  exact fun h s e t _ c ok step => c.step step fun task he => confined task (ok task he)

/-- The last task takes as many of its turns as it is left to. -/
theorem runs_until {index : HashIndex} {before : List Running} {serves : Bool}
    {done rest : List Effect} {served : List String} {h : List NodeEvent}
    (run : RunStarting hashers codec allowed init h
      ⟨index, before ++ [⟨serves, done ++ rest⟩], served⟩) :
    ∃ h', RunStarting hashers codec allowed init h'
      ⟨indexAfter index done, before ++ [⟨serves, rest⟩],
        served ++ done.flatMap (servedPath serves)⟩ := by
  induction done generalizing index served h with
  | nil =>
    refine ⟨h, ?_⟩
    simpa [indexAfter] using run
  | cons e done ih =>
    have next := run.snoc (.advance index served before [] serves e (done ++ rest))
      (fun task htask => by contradiction)
    obtain ⟨h', reached⟩ := ih next
    refine ⟨h', ?_⟩
    simpa [indexAfter, List.append_assoc] using reached

/-- A task that is started and left alone does all its effects. -/
theorem performed {s : ServingNode} {h : List NodeEvent}
    (run : RunStarting hashers codec allowed init h s) (task : NodeTask) (ok : allowed task) :
    ∃ h', RunStarting hashers codec allowed init h'
      ⟨indexAfter s.index (task.effects hashers codec s.index),
        s.running ++ [⟨task.serves, []⟩],
        s.served ++ (task.effects hashers codec s.index).flatMap (servedPath task.serves)⟩ := by
  have started := run.snoc (.start s task) fun started hs => NodeEvent.start.inj hs ▸ ok
  rw [← List.append_nil (task.effects hashers codec s.index)] at started
  exact runs_until started

/-- A request for a NAR by its hash. -/
def NodeTask.ByHash : NodeTask → Prop
  | .serve _ (.byBlake3 _) => True
  | _ => False

theorem NodeTask.ByHash.confined {task : NodeTask} (asks : task.ByHash) :
    task.Confined hashers codec := by
  cases task with
  | serve env request =>
    cases request with
    | byBlake3 hash => trivial
    | byStorePath => contradiction
  | fetchFrom | fetchDependencies | indexStorePath | indexOutputs => contradiction

/-- A path that a row is of is served to whoever asks by its hash, if it is on disk. -/
theorem row_served {s : ServingNode} {h : List NodeEvent} {row : Row}
    (run : RunStarting hashers codec NodeTask.ByHash init h s) (hr : row ∈ s.index.rows) :
    ∃ h' t, RunStarting hashers codec NodeTask.ByHash init h' t ∧ row.storePath ∈ t.served := by
  obtain ⟨h', answered⟩ := performed run (.serve wireEnv (.byBlake3 row.blake3)) trivial
  refine ⟨h', _, answered, List.mem_append_right _ (List.mem_flatMap.mpr
    ⟨.serialize row.storePath, ?_, List.mem_singleton.mpr rfl⟩)⟩
  have found : s.index.getByBlake3 ⟨row.blake3⟩ = some row.toEntry :=
    (s.index.holds_of_row hr).byBlake3
  have onDisk : wireEnv.files.pathExists row.toEntry.storePath = true := rfl
  simp only [NodeTask.effects, handleNarRequest, handleNarByBlake3, found, onDisk, if_true]
  exact streamNarFromPath_serializes.mpr ⟨⟨_, rfl⟩, fun _ _ => rfl⟩

end Started

/-- While nothing outside the store comes in, nothing outside it is served; and when one
more task is started, nothing outside it is served to those who ask by hash, exactly if that
task brings nothing outside it in. -/
theorem served_inside (hashers : Hashers) (codec : NarCodec) {h : List NodeEvent}
    {s : ServingNode} (run : RunStarting hashers codec (NodeTask.Confined hashers codec) .new h s) :
    (∀ path ∈ s.served, InsideStore path) ∧
      ∀ task t, NodeStep hashers codec s (.start task) t →
        ((∀ h' t', RunStarting hashers codec NodeTask.ByHash t h' t' →
          ∀ path ∈ t'.served, InsideStore path) ↔ task.Confined hashers codec) := by
  have start : Contained ServingNode.new := by constructor <;> simp [ServingNode.new]
  have contained : Contained s := start.run (fun _ confined => confined) run
  refine ⟨contained.served, fun task t step => ⟨fun inside => ?_, fun confined => ?_⟩⟩
  · -- each effect is reached, and a row it writes is then asked for
    cases step
    refine (task_confined_iff contained.rows).mpr fun e he => ?_
    obtain ⟨done, rest, parts⟩ := List.append_of_mem he
    have started : RunStarting hashers codec NodeTask.ByHash
        { s with running := s.running ++ [⟨task.serves, task.effects hashers codec s.index⟩] } []
        ⟨s.index, s.running ++ [⟨task.serves, (done ++ [e]) ++ rest⟩], s.served⟩ := by
      rw [List.append_assoc, List.singleton_append, ← parts]
      exact .nil
    obtain ⟨h', reached⟩ := runs_until started
    cases e with
    | send | announceHave | restore => trivial
    | insert entry =>
      have written : entry.toRow ∈ (indexAfter s.index (done ++ [.insert entry])).rows := by
        rw [indexAfter, List.foldl_append]
        exact (HashIndex.mem_insert _ entry _).mpr (.inr rfl)
      obtain ⟨h'', t', run', served⟩ := row_served reached written
      exact inside h'' t' run' _ served
    | serialize path =>
      intro serves
      refine inside h' _ reached path ?_
      simp [serves, servedPath]
  · intro h' t' run'
    have next : Contained t := contained.step step fun _ he => NodeEvent.start.inj he ▸ confined
    exact (next.run (fun _ asks => asks.confined) run').served

section Asked

/-- A fetch of the empty NAR, which the remote node says is of the path. -/
def naming (path : String) : NodeTask :=
  .fetchFrom emptyDatabase .default (fun _ => .answering (emptyNarResponse path)) ⟨zeroBytes32⟩

/-- What a request that follows such a fetch has serialized. -/
def servedAfter (path : String) (request : NarRequest) : List String :=
  let index := indexAfter Table.empty ((naming path).effects zeroHashers shortCodec Table.empty)
  ((NodeTask.serve wireEnv request).effects zeroHashers shortCodec index).flatMap
    (servedPath true)

theorem served_after (allowed : NodeTask → Prop) (path : String) (request : NarRequest)
    (named : allowed (naming path)) (asked : allowed (.serve wireEnv request)) :
    ∃ h s, RunStarting zeroHashers shortCodec allowed .new h s ∧
      s.served = servedAfter path request := by
  obtain ⟨h, fetched⟩ := performed .nil (naming path) named
  obtain ⟨h', answered⟩ := performed fetched (.serve wireEnv request) asked
  refine ⟨h', _, answered, ?_⟩
  have unserved : ∀ effects : List Effect, effects.flatMap (servedPath false) = [] := by simp
  simp only [ServingNode.new, servedAfter, NodeTask.serves, naming, unserved, List.nil_append]

theorem served_inside_named : ∃ h s,
    RunStarting zeroHashers shortCodec (NodeTask.Confined zeroHashers shortCodec) .new h s ∧
    s.served = ["/nix/store/a"] ∧ ∀ path ∈ s.served, InsideStore path := by
  have named : fetchNarWithConfig zeroHashers shortCodec .default
      (fun _ => .answering (emptyNarResponse "/nix/store/a")) ⟨zeroBytes32⟩ =
        .ok (⟨0, zeroBytes32, "/nix/store/a"⟩, []) :=
    withRetry_first .default (by decide +kernel)
  have confined : (naming "/nix/store/a").Confined zeroHashers shortCodec := by
    intro header nar hf
    cases named.symm.trans hf
    decide
  obtain ⟨h, s, run, hserved⟩ := served_after (NodeTask.Confined zeroHashers shortCodec)
    "/nix/store/a" (.byBlake3 zeroBytes32) confined trivial
  refine ⟨h, s, run, ?_, (served_inside zeroHashers shortCodec run).1⟩
  rw [hserved]
  decide +kernel

/-- A path that a remote node has made up is served to whoever asks, by its hash, and by
its name where that starts like a store path. -/
theorem served_outside :
    (∃ h s, Run (NodeStep zeroHashers shortCodec) .new h s ∧ "/etc/passwd" ∈ s.served) ∧
    ¬ InsideStore "/etc/passwd" ∧
    (∃ h s, Run (NodeStep zeroHashers shortCodec) .new h s ∧
      "/nix/store/../../etc/passwd" ∈ s.served) ∧
    ¬ InsideStore "/nix/store/../../etc/passwd" := by
  refine ⟨?_, by decide, ?_, by decide⟩
  · obtain ⟨h, s, run, hserved⟩ := served_after (fun _ => True) "/etc/passwd"
      (.byBlake3 zeroBytes32) trivial trivial
    refine ⟨h, s, run.run, ?_⟩
    rw [hserved]
    decide +kernel
  · obtain ⟨h, s, run, hserved⟩ := served_after (fun _ => True)
      "/nix/store/../../etc/passwd" (.byStorePath "/nix/store/../../etc/passwd") trivial trivial
    refine ⟨h, s, run.run, ?_⟩
    rw [hserved]
    decide +kernel

end Asked

end IrohNix.Node
