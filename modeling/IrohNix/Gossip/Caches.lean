import IrohNix.Build.Job
import IrohNix.Lib.HashMap

namespace IrohNix.Gossip
open IrohNix.Lib IrohNix.Build

inductive GossipMessage where
  | have' (blake3 : Bytes32) (storePath : String) (narSize : UInt64)
  | want (blake3 : Bytes32)
  | iHave (blake3 : Bytes32) (storePath : String) (narSize : UInt64)
  | needBuilder (requester : Bytes32) (systemFeatures : List String)
  | buildComplete (result : BuildResult)
deriving DecidableEq

structure ProviderInfo where
  endpointId : EndpointId
  storePath : String
  narSize : UInt64
deriving DecidableEq

structure RequesterInfo where
  endpointId : EndpointId
  systemFeatures : List String
deriving DecidableEq

structure ProviderCache where
  providers : HashMap Bytes32 (List ProviderInfo)

/-- The peers needing builders, one entry for each. -/
structure RequesterCache where
  requesters : HashMap Bytes32 RequesterInfo

namespace ProviderCache

def new : ProviderCache := ⟨∅⟩

/-- The first entry of a peer under a hash is kept, later ones are dropped. -/
def addProvider (cache : ProviderCache) (blake3 : Bytes32) (info : ProviderInfo) :
    ProviderCache :=
  let providers := (cache.providers.get? blake3).getD []
  if !providers.any (fun p => p.endpointId = info.endpointId) then
    ⟨cache.providers.insert blake3 (providers ++ [info])⟩
  else ⟨cache.providers.insert blake3 providers⟩

def getProviders (cache : ProviderCache) (blake3 : Bytes32) : Option (List ProviderInfo) :=
  cache.providers.get? blake3

def removeProvider (cache : ProviderCache) (endpointId : EndpointId) : ProviderCache :=
  ⟨cache.providers.mapValues fun providers =>
    providers.filter (fun p => p.endpointId ≠ endpointId)⟩

/-- The provider is listed under the hash. -/
def Lists (cache : ProviderCache) (blake3 : Bytes32) (info : ProviderInfo) : Prop :=
  ∃ providers, cache.getProviders blake3 = some providers ∧ info ∈ providers

theorem new_lists {blake3 : Bytes32} {info : ProviderInfo} : ¬ new.Lists blake3 info := by
  simp [Lists, new, getProviders]

theorem remove_provider_lists {cache : ProviderCache} {peer : EndpointId} {blake3 : Bytes32}
    {info : ProviderInfo} (h : (cache.removeProvider peer).Lists blake3 info) :
    cache.Lists blake3 info := by
  obtain ⟨providers, hget, hmem⟩ := h
  simp only [removeProvider, getProviders, HashMap.get_mapValues, Option.map_eq_some_iff] at hget
  obtain ⟨old, hold, rfl⟩ := hget
  exact ⟨old, hold, (List.mem_filter.mp hmem).1⟩

/-- The peer is listed under the hash. -/
def Records (cache : ProviderCache) (blake3 : Bytes32) (peer : EndpointId) : Prop :=
  ∃ info, cache.Lists blake3 info ∧ info.endpointId = peer

theorem new_records {blake3 : Bytes32} {peer : EndpointId} : ¬ new.Records blake3 peer := by
  intro h
  obtain ⟨info, hl, _⟩ := h
  exact new_lists hl

theorem records_iff {cache : ProviderCache} {blake3 : Bytes32} {peer : EndpointId} :
    cache.Records blake3 peer ↔
      ∃ info ∈ (cache.providers.get? blake3).getD [], info.endpointId = peer := by
  unfold Records Lists getProviders
  cases cache.providers.get? blake3 <;> simp

/-- An entry is new only where its peer was not listed. -/
theorem add_provider_lists {cache : ProviderCache} {b blake3 : Bytes32} {i info : ProviderInfo}
    (h : (cache.addProvider b i).Lists blake3 info) :
    cache.Lists blake3 info ∨ blake3 = b ∧ info = i ∧ ¬ cache.Records b i.endpointId := by
  obtain ⟨providers, hget, hmem⟩ := h
  simp only [addProvider, getProviders] at hget
  -- the list under `b`, before the new entry
  have old : ∀ p ∈ (cache.providers.get? b).getD [], cache.Lists b p := by
    intro p hp
    cases hb : cache.providers.get? b with
    | none => simp [hb] at hp
    | some l => exact ⟨l, hb, by simpa [hb] using hp⟩
  split at hget <;> rw [HashMap.get_insert] at hget <;> split at hget
  · rename_i hany he
    cases hget
    rcases List.mem_append.mp hmem with hm | hm
    · exact .inl (he ▸ old info hm)
    · exact .inr ⟨he, List.mem_singleton.mp hm, by simpa [records_iff] using hany⟩
  · exact .inl ⟨providers, hget, hmem⟩
  · rename_i _ he
    cases hget
    exact .inl (he ▸ old info hmem)
  · exact .inl ⟨providers, hget, hmem⟩

/-- Whether an entry is dropped or kept, its peer is listed afterwards. -/
theorem add_provider_records {cache : ProviderCache} {b blake3 : Bytes32} {info : ProviderInfo}
    {peer : EndpointId} :
    (cache.addProvider b info).Records blake3 peer ↔
      cache.Records blake3 peer ∨ blake3 = b ∧ peer = info.endpointId := by
  simp only [records_iff, addProvider]
  split <;> simp only [HashMap.get_insert] <;> by_cases he : blake3 = b
  · subst he
    simp only [if_pos, Option.getD_some, List.mem_append, List.mem_singleton, true_and]
    constructor
    · intro h
      obtain ⟨i, hi | rfl, hp⟩ := h
      · exact .inl ⟨i, hi, hp⟩
      · exact .inr hp.symm
    · intro h
      rcases h with ⟨i, hi, hp⟩ | rfl
      · exact ⟨i, .inl hi, hp⟩
      · exact ⟨info, .inr rfl, rfl⟩
  · simp [he]
  · rename_i hany
    subst he
    simp only [if_pos, Option.getD_some, true_and]
    refine ⟨.inl, fun h => ?_⟩
    rcases h with h | rfl
    · exact h
    · simpa using hany
  · simp [he]

theorem remove_provider_records {cache : ProviderCache} {peer p : EndpointId} {blake3 : Bytes32} :
    (cache.removeProvider peer).Records blake3 p ↔ cache.Records blake3 p ∧ p ≠ peer := by
  simp only [records_iff, removeProvider, HashMap.get_mapValues]
  cases cache.providers.get? blake3 with
  | none => simp
  | some providers =>
    simp only [Option.map_some, Option.getD_some, List.mem_filter, decide_eq_true_eq]
    constructor
    · intro h
      obtain ⟨i, ⟨hi, hne⟩, rfl⟩ := h
      exact ⟨⟨i, hi, rfl⟩, hne⟩
    · intro h
      obtain ⟨⟨i, hi, rfl⟩, hne⟩ := h
      exact ⟨i, ⟨hi, hne⟩, rfl⟩

end ProviderCache

namespace RequesterCache

def new : RequesterCache := ⟨∅⟩

def addRequester (cache : RequesterCache) (info : RequesterInfo) : RequesterCache :=
  ⟨cache.requesters.insert info.endpointId.asBytes info⟩

def removeRequester (cache : RequesterCache) (endpointId : EndpointId) : RequesterCache :=
  ⟨cache.requesters.erase endpointId.asBytes⟩

def allRequesters (cache : RequesterCache) (order : cache.requesters.Iter) : List RequesterInfo :=
  order.items.map Prod.snd

def getMatchingRequesters (cache : RequesterCache) (order : cache.requesters.Iter)
    (ourFeatures : List String) : List RequesterInfo :=
  (cache.allRequesters order).filter fun r =>
    r.systemFeatures.all (fun f => ourFeatures.contains f)

theorem mem_matching_requesters {cache : RequesterCache} {order : cache.requesters.Iter}
    {ourFeatures : List String} {info : RequesterInfo} :
    info ∈ cache.getMatchingRequesters order ourFeatures ↔
      (∃ key, cache.requesters.get? key = some info) ∧
        ∀ f ∈ info.systemFeatures, f ∈ ourFeatures := by
  simp only [getMatchingRequesters, allRequesters, List.mem_filter, List.mem_map, Prod.exists,
    exists_eq_right, order.mem_iff, List.all_eq_true, List.contains_iff_mem]

end RequesterCache

/-- The two caches a gossip service keeps. -/
structure Caches where
  providerCache : ProviderCache
  requesterCache : RequesterCache

def Caches.new : Caches := ⟨.new, .new⟩

/-- What a message makes the service call, where a callback is installed. -/
inductive Callback where
  | needBuilder (info : RequesterInfo)
  | buildComplete (result : BuildResult)

def announceNeedBuilder (ourId : EndpointId) (systemFeatures : List String) : GossipMessage :=
  .needBuilder ourId.asBytes systemFeatures

/-- The outputs of a completed build, listed under its builder. -/
def addOutputs (cache : ProviderCache) (builderId : EndpointId) (outputs : List BuildOutput) :
    ProviderCache :=
  outputs.foldl
    (fun cache output =>
      cache.addProvider output.blake3 ⟨builderId, output.storePath, output.narSize⟩)
    cache

/-- The body of `handle_message` once the message is decoded. An error leaves
the caches as they were. -/
def dispatch (crypto : Ed25519) (caches : Caches) (sender : EndpointId) :
    GossipMessage → Except Error (Caches × Option Callback)
  | .have' blake3 storePath narSize =>
    .ok ({ caches with
      providerCache := caches.providerCache.addProvider blake3 ⟨sender, storePath, narSize⟩ }, none)
  | .want _ => .ok (caches, none)
  | .iHave blake3 storePath narSize =>
    .ok ({ caches with
      providerCache := caches.providerCache.addProvider blake3 ⟨sender, storePath, narSize⟩ }, none)
  | .needBuilder requester systemFeatures =>
    match crypto.endpointIdFromBytes requester with
    | none => .error (.protocol "invalid requester ID")
    | some requesterId =>
      let info : RequesterInfo := ⟨requesterId, systemFeatures⟩
      .ok ({ caches with requesterCache := caches.requesterCache.addRequester info },
        some (.needBuilder info))
  | .buildComplete result =>
    match crypto.endpointIdFromBytes result.builder with
    | none => .error (.protocol "invalid builder ID")
    | some builderId =>
      .ok ({ caches with providerCache := addOutputs caches.providerCache builderId result.outputs },
        some (.buildComplete result))

def handleMessage (codec : Postcard GossipMessage) (crypto : Ed25519) (caches : Caches)
    (content : Bytes) (sender : EndpointId) : Except Error (Caches × Option Callback) :=
  match codec.fromBytes content with
  | .error e => .error (.protocol ("deserialize: " ++ e))
  | .ok msg => dispatch crypto caches sender msg

/-- `run_receiver` on `Event::NeighborDown`. -/
def neighborDown (caches : Caches) (peer : EndpointId) : Caches :=
  ⟨caches.providerCache.removeProvider peer, caches.requesterCache.removeRequester peer⟩

theorem add_outputs_lists {cache : ProviderCache} {builderId : EndpointId}
    {outputs : List BuildOutput} {blake3 : Bytes32} {info : ProviderInfo}
    (h : (addOutputs cache builderId outputs).Lists blake3 info) :
    cache.Lists blake3 info ∨ ∃ output ∈ outputs, blake3 = output.blake3 ∧
      info = ⟨builderId, output.storePath, output.narSize⟩ ∧
      ¬ cache.Records output.blake3 builderId := by
  induction outputs generalizing cache with
  | nil => exact .inl h
  | cons output outputs ih =>
    rcases ih h with h | ⟨o, ho, hb, hi, hnew⟩
    · rcases ProviderCache.add_provider_lists h with h | he
      · exact .inl h
      · exact .inr ⟨output, List.mem_cons_self, he⟩
    · refine .inr ⟨o, List.mem_cons_of_mem _ ho, hb, hi, fun hr => ?_⟩
      exact hnew (ProviderCache.add_provider_records.mpr (.inl hr))

theorem add_outputs_records {cache : ProviderCache} {builderId : EndpointId}
    {outputs : List BuildOutput} {blake3 : Bytes32} {peer : EndpointId} :
    (addOutputs cache builderId outputs).Records blake3 peer ↔
      cache.Records blake3 peer ∨
        peer = builderId ∧ ∃ output ∈ outputs, blake3 = output.blake3 := by
  induction outputs generalizing cache with
  | nil => simp [addOutputs]
  | cons output outputs ih =>
    have hfold : addOutputs cache builderId (output :: outputs) =
        addOutputs (cache.addProvider output.blake3
          ⟨builderId, output.storePath, output.narSize⟩) builderId outputs := rfl
    rw [hfold, ih, ProviderCache.add_provider_records, List.exists_mem_cons_iff]
    constructor
    · intro h
      rcases h with (h | ⟨hb, hp⟩) | ⟨hp, h⟩
      · exact .inl h
      · exact .inr ⟨hp, .inl hb⟩
      · exact .inr ⟨hp, .inr h⟩
    · intro h
      rcases h with h | ⟨hp, hb | h⟩
      · exact .inl (.inl h)
      · exact .inl (.inr ⟨hb, hp⟩)
      · exact .inr ⟨hp, h⟩

end IrohNix.Gossip
