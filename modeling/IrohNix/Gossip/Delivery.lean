import IrohNix.Gossip.Caches

namespace IrohNix.Gossip
open IrohNix.Lib

/-- One turn of the receiver loop. A failed message is logged and skipped. -/
def receive (crypto : Ed25519) (caches : Caches) (delivery : EndpointId × GossipMessage) : Caches :=
  match dispatch crypto caches delivery.1 delivery.2 with
  | .error _ => caches
  | .ok (caches', _) => caches'

/-- The receiver loop on messages delivered in order, with no neighbour lost. -/
def receiveAll (crypto : Ed25519) (inbox : List (EndpointId × GossipMessage)) : Caches :=
  inbox.foldl (receive crypto) .new

/-- The features a message announces for one requester. -/
def announcedFor (crypto : Ed25519) (id : EndpointId) : GossipMessage → Option (List String)
  | .needBuilder requester systemFeatures =>
    if crypto.endpointIdFromBytes requester = some id then some systemFeatures else none
  | _ => none

theorem receive_requester (crypto : Ed25519) (caches : Caches) (id : EndpointId)
    (delivery : EndpointId × GossipMessage) :
    (receive crypto caches delivery).requesterCache.requesters.get? id.asBytes =
      match announcedFor crypto id delivery.2 with
      | some features => some ⟨id, features⟩
      | none => caches.requesterCache.requesters.get? id.asBytes := by
  obtain ⟨sender, msg⟩ := delivery
  cases msg with
  | have' | want | iHave => rfl
  | buildComplete result =>
    simp only [receive, dispatch, announcedFor]
    cases crypto.endpointIdFromBytes result.builder <;> rfl
  | needBuilder requester systemFeatures =>
    simp only [receive, dispatch, announcedFor]
    cases hr : crypto.endpointIdFromBytes requester with
    | none => simp
    | some requesterId =>
      by_cases he : requesterId = id
      · simp [he, RequesterCache.addRequester]
      · have hb : id.asBytes ≠ requesterId.asBytes := by
          intro hb
          cases id
          cases requesterId
          exact he (congrArg EndpointId.mk hb.symm)
        simp [he, hb, RequesterCache.addRequester, HashMap.get_insert]

/-- Every entry is kept under the bytes of the peer it is about. -/
def WellKeyed (cache : RequesterCache) : Prop :=
  ∀ key info, cache.requesters.get? key = some info → info.endpointId.asBytes = key

theorem receive_wellKeyed {crypto : Ed25519} {caches : Caches}
    (h : WellKeyed caches.requesterCache) (delivery : EndpointId × GossipMessage) :
    WellKeyed (receive crypto caches delivery).requesterCache := by
  obtain ⟨sender, msg⟩ := delivery
  cases msg with
  | have' | want | iHave => exact h
  | buildComplete result =>
    simp only [receive, dispatch]
    cases crypto.endpointIdFromBytes result.builder <;> exact h
  | needBuilder requester systemFeatures =>
    simp only [receive, dispatch]
    cases crypto.endpointIdFromBytes requester with
    | none => exact h
    | some requesterId =>
      intro key info hk
      simp only [RequesterCache.addRequester, HashMap.get_insert] at hk
      split at hk
      · rename_i he
        cases hk
        exact he.symm
      · exact h key info hk

theorem receiveAll_wellKeyed (crypto : Ed25519) (inbox : List (EndpointId × GossipMessage)) :
    WellKeyed (receiveAll crypto inbox).requesterCache := by
  induction inbox using List.reverseRecOn with
  | nil => simp [WellKeyed, receiveAll, Caches.new, RequesterCache.new]
  | append_singleton inbox delivery ih =>
    simp only [receiveAll, List.foldl_append, List.foldl_cons, List.foldl_nil]
    exact receive_wellKeyed ih delivery

/-- The cache holds a requester's latest announcement and no earlier one. -/
theorem receiveAll_requester (crypto : Ed25519) (id : EndpointId)
    (inbox : List (EndpointId × GossipMessage)) :
    (receiveAll crypto inbox).requesterCache.requesters.get? id.asBytes =
      ((inbox.filterMap (fun d => announcedFor crypto id d.2)).getLast?).map (⟨id, ·⟩) := by
  induction inbox using List.reverseRecOn with
  | nil => simp [receiveAll, Caches.new, RequesterCache.new]
  | append_singleton inbox delivery ih =>
    simp only [receiveAll, List.foldl_append, List.foldl_cons, List.foldl_nil] at ih ⊢
    rw [receive_requester, List.filterMap_append]
    cases ha : announcedFor crypto id delivery.2 with
    | none => simpa [ha] using ih
    | some features => simp [ha]

/-- A peer with these features, having read the inbox, is shown the requester
when it offers all the requester's latest announcement asks for. -/
theorem shown_iff (crypto : Ed25519) (id : EndpointId)
    (inbox : List (EndpointId × GossipMessage))
    (order : (receiveAll crypto inbox).requesterCache.requesters.Iter) (ourFeatures : List String) :
    (∃ info ∈ (receiveAll crypto inbox).requesterCache.getMatchingRequesters order ourFeatures,
        info.endpointId = id) ↔
      ∃ features, (inbox.filterMap (fun d => announcedFor crypto id d.2)).getLast? = some features ∧
        ∀ f ∈ features, f ∈ ourFeatures := by
  have hlast := receiveAll_requester crypto id inbox
  constructor
  · intro hshown
    obtain ⟨info, hm, hid⟩ := hshown
    obtain ⟨⟨key, hkey⟩, hfeatures⟩ := RequesterCache.mem_matching_requesters.mp hm
    have hk := receiveAll_wellKeyed crypto inbox key info hkey
    rw [hid] at hk
    rw [← hk, hlast, Option.map_eq_some_iff] at hkey
    obtain ⟨features, hf, rfl⟩ := hkey
    exact ⟨features, hf, hfeatures⟩
  · intro hlatest
    obtain ⟨features, hf, hsub⟩ := hlatest
    rw [hf, Option.map_some] at hlast
    exact ⟨⟨id, features⟩, RequesterCache.mem_matching_requesters.mpr ⟨⟨_, hlast⟩, hsub⟩, rfl⟩

end IrohNix.Gossip
