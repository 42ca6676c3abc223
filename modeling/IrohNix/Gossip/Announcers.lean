import IrohNix.Gossip.Relay

namespace IrohNix.Gossip
open IrohNix.Lib IrohNix.Build IrohNix.Requester

namespace ProviderCache

/-- How often a peer is listed under a hash. -/
def timesListed (cache : ProviderCache) (blake3 : Bytes32) (peer : EndpointId) : Nat :=
  ((cache.getProviders blake3).getD []).countP (fun p => p.endpointId = peer)

/-- No peer has two entries under one hash. -/
def OneEach (cache : ProviderCache) : Prop :=
  ∀ blake3, (((cache.getProviders blake3).getD []).map ProviderInfo.endpointId).Nodup

theorem timesListed_pos {cache : ProviderCache} {blake3 : Bytes32} {peer : EndpointId} :
    0 < cache.timesListed blake3 peer ↔ cache.Records blake3 peer := by
  rw [records_iff, timesListed, List.countP_pos_iff, getProviders]
  simp only [decide_eq_true_eq]

theorem OneEach.timesListed_le {cache : ProviderCache} (h : cache.OneEach) (blake3 : Bytes32)
    (peer : EndpointId) : cache.timesListed blake3 peer ≤ 1 := by
  have hcount := List.nodup_iff_count_le_one.mp (h blake3) peer
  rw [List.count_eq_countP, List.countP_map] at hcount
  exact hcount

theorem new_oneEach : new.OneEach := by
  intro blake3
  simp [new, getProviders]

theorem OneEach.addProvider {cache : ProviderCache} (h : cache.OneEach) (b : Bytes32)
    (info : ProviderInfo) : (cache.addProvider b info).OneEach := by
  intro blake3
  have old := h blake3
  simp only [getProviders] at old ⊢
  simp only [ProviderCache.addProvider]
  split <;> rw [HashMap.get_insert] <;> by_cases he : blake3 = b
  · rename_i fresh
    subst he
    -- the entry is appended only to a list without its peer
    have absent : info.endpointId ∉
        ((cache.providers.get? blake3).getD []).map ProviderInfo.endpointId := by
      intro hm
      obtain ⟨p, hp, hid⟩ := List.mem_map.mp hm
      simp only [Bool.not_eq_true', List.any_eq_false, decide_eq_true_eq] at fresh
      exact fresh p hp hid
    simp only [if_pos, Option.getD_some, List.map_append, List.map_cons, List.map_nil]
    exact List.Nodup.append old (List.nodup_singleton _) (by simpa using absent)
  · simpa [he] using old
  · subst he
    simpa using old
  · simpa [he] using old

theorem OneEach.removeProvider {cache : ProviderCache} (h : cache.OneEach) (peer : EndpointId) :
    (cache.removeProvider peer).OneEach := by
  intro blake3
  have old := h blake3
  simp only [getProviders] at old ⊢
  simp only [ProviderCache.removeProvider, HashMap.get_mapValues]
  cases hget : cache.providers.get? blake3 with
  | none => simp
  | some providers =>
    rw [hget] at old
    apply List.Nodup.sublist _ old
    exact List.Sublist.map _ List.filter_sublist

end ProviderCache

theorem add_outputs_oneEach {cache : ProviderCache} (h : cache.OneEach) (builderId : EndpointId)
    (outputs : List BuildOutput) : (addOutputs cache builderId outputs).OneEach := by
  apply foldl_invariant ProviderCache.OneEach _ h
  intro cache output h
  exact h.addProvider _ _

theorem handle_gossip_oneEach {codec : Postcard GossipMessage} {crypto : Ed25519} {caches : Caches}
    (h : caches.providerCache.OneEach) (deliveredFrom : EndpointId) (content : Bytes) :
    (handleGossip codec crypto caches deliveredFrom content).providerCache.OneEach := by
  unfold handleGossip handleMessage
  cases codec.fromBytes content with
  | error e => exact h
  | ok msg =>
    cases msg with
    | have' b path size => exact h.addProvider _ _
    | iHave b path size => exact h.addProvider _ _
    | want b => exact h
    | needBuilder requester features =>
      simp only [dispatch]
      cases crypto.endpointIdFromBytes requester <;> exact h
    | buildComplete result =>
      simp only [dispatch]
      cases crypto.endpointIdFromBytes result.builder with
      | none => exact h
      | some builderId => exact add_outputs_oneEach h builderId result.outputs

/-- What `iroh_gossip` delivers to a subscriber. -/
inductive Event where
  | received (content : Bytes) (deliveredFrom : EndpointId)
  | neighborUp (peer : EndpointId)
  | neighborDown (peer : EndpointId)
  | lagged

/-- The body of `run_receiver`'s loop. A message that cannot be handled and an error
of the stream are logged. -/
def onEvent (codec : Postcard GossipMessage) (crypto : Ed25519) (caches : Caches) :
    Except String Event → Caches
  | .ok (.received content deliveredFrom) => handleGossip codec crypto caches deliveredFrom content
  | .ok (.neighborUp _) => caches
  | .ok (.neighborDown peer) => neighborDown caches peer
  | .ok .lagged => caches
  | .error _ => caches

/-- The caches of a node after the events its receiver was given. -/
def runReceiver (codec : Postcard GossipMessage) (crypto : Ed25519)
    (events : List (Except String Event)) : Caches :=
  events.foldl (onEvent codec crypto) .new

/-- The event is a well-formed message that announces the hash for the peer. -/
def EventAnnounces (codec : Postcard GossipMessage) (crypto : Ed25519) (blake3 : Bytes32)
    (peer : EndpointId) : Except String Event → Prop
  | .ok (.received content deliveredFrom) =>
    ∃ msg, codec.fromBytes content = .ok msg ∧ Announces crypto deliveredFrom blake3 peer msg
  | _ => False

def IsNeighborDown (peer : EndpointId) (event : Except String Event) : Prop :=
  event = .ok (.neighborDown peer)

theorem on_event_records (codec : Postcard GossipMessage) (crypto : Ed25519) (blake3 : Bytes32)
    (peer : EndpointId) (caches : Caches) (event : Except String Event) :
    (onEvent codec crypto caches event).providerCache.Records blake3 peer ↔
      EventAnnounces codec crypto blake3 peer event ∨
        caches.providerCache.Records blake3 peer ∧ ¬ IsNeighborDown peer event := by
  cases event with
  | error e => simp [onEvent, EventAnnounces, IsNeighborDown]
  | ok event =>
    cases event with
    | received content deliveredFrom =>
      simp only [onEvent, handle_gossip_records, EventAnnounces, IsNeighborDown, Except.ok.injEq,
        reduceCtorEq, not_false_eq_true, and_true]
      exact or_comm
    | neighborUp p => simp [onEvent, EventAnnounces, IsNeighborDown]
    | neighborDown p =>
      simp only [onEvent, neighborDown, ProviderCache.remove_provider_records, EventAnnounces,
        IsNeighborDown, Except.ok.injEq, Event.neighborDown.injEq, false_or]
      rw [eq_comm]
    | lagged => simp [onEvent, EventAnnounces, IsNeighborDown]

theorem on_event_oneEach (codec : Postcard GossipMessage) (crypto : Ed25519) (caches : Caches)
    (event : Except String Event) (h : caches.providerCache.OneEach) :
    (onEvent codec crypto caches event).providerCache.OneEach := by
  cases event with
  | error e => exact h
  | ok event =>
    cases event with
    | received content deliveredFrom => exact handle_gossip_oneEach h deliveredFrom content
    | neighborUp p => exact h
    | neighborDown p => exact h.removeProvider p
    | lagged => exact h

theorem run_receiver_oneEach (codec : Postcard GossipMessage) (crypto : Ed25519)
    (events : List (Except String Event)) :
    (runReceiver codec crypto events).providerCache.OneEach := by
  apply foldl_invariant (fun caches : Caches => caches.providerCache.OneEach)
  · exact on_event_oneEach codec crypto
  · exact ProviderCache.new_oneEach

/-- After any events, a peer is listed under a hash, and then once, exactly if an event
since the peer was last lost announced the hash for it. -/
theorem listed_iff_announced (codec : Postcard GossipMessage) (crypto : Ed25519)
    (events : List (Except String Event)) (blake3 : Bytes32) (peer : EndpointId) :
    ((runReceiver codec crypto events).providerCache.timesListed blake3 peer = 1 ↔
      AddedSince (EventAnnounces codec crypto blake3 peer) (IsNeighborDown peer) events) ∧
    ((runReceiver codec crypto events).providerCache.timesListed blake3 peer = 0 ↔
      ¬ AddedSince (EventAnnounces codec crypto blake3 peer) (IsNeighborDown peer) events) := by
  have once := (run_receiver_oneEach codec crypto events).timesListed_le blake3 peer
  have listed : (runReceiver codec crypto events).providerCache.Records blake3 peer ↔ _ :=
    foldl_addedSince (fun caches : Caches => caches.providerCache.Records blake3 peer)
      (on_event_records codec crypto blake3 peer) ProviderCache.new_records events
  rw [← listed, ← ProviderCache.timesListed_pos]
  constructor <;> omega

end IrohNix.Gossip
