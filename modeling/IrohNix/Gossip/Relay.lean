import IrohNix.Lib.Runs
import IrohNix.Requester.Admission

namespace IrohNix.Gossip
open IrohNix.Lib IrohNix.Build IrohNix.Requester

/-- A message on its way through the network, with the node that broadcast it. -/
structure Broadcast where
  author : EndpointId
  content : Bytes

/-- All nodes with their caches, and which node has which broadcast to pass on. -/
structure Network where
  caches : EndpointId → Caches
  held : List (EndpointId × Broadcast)

def Network.new : Network := ⟨fun _ => .new, []⟩

inductive NetworkEvent where
  | broadcast (b : Broadcast)
  | deliver (deliveredFrom receiver : EndpointId) (b : Broadcast)
  | neighborDown (node peer : EndpointId)

/-- A node that has a broadcast hands it to any neighbour, at any time and as often as
it likes. The receiver is told which neighbour that was, and may relay in turn. -/
inductive NetworkStep (codec : Postcard GossipMessage) (crypto : Ed25519)
    (neighbours : EndpointId → EndpointId → Prop) : Network → NetworkEvent → Network → Prop where
  | broadcast (s : Network) (b : Broadcast) :
      NetworkStep codec crypto neighbours s (.broadcast b)
        { s with held := (b.author, b) :: s.held }
  | deliver (s : Network) (deliveredFrom receiver : EndpointId) (b : Broadcast)
      (link : neighbours deliveredFrom receiver) (has : (deliveredFrom, b) ∈ s.held) :
      NetworkStep codec crypto neighbours s (.deliver deliveredFrom receiver b)
        { caches := Function.update s.caches receiver
            (handleGossip codec crypto (s.caches receiver) deliveredFrom b.content)
          held := (receiver, b) :: s.held }
  | neighborDown (s : Network) (node peer : EndpointId) :
      NetworkStep codec crypto neighbours s (.neighborDown node peer)
        { s with caches := Function.update s.caches node (neighborDown (s.caches node) peer) }

/-- The message says that the hash can be had from the peer: its sender, for the two
announcements, or the builder of a completed build. -/
def Announces (crypto : Ed25519) (sender : EndpointId) (blake3 : Bytes32) (peer : EndpointId) :
    GossipMessage → Prop
  | .have' b _ _ | .iHave b _ _ => blake3 = b ∧ peer = sender
  | .buildComplete result =>
    crypto.endpointIdFromBytes result.builder = some peer ∧
      ∃ output ∈ result.outputs, blake3 = output.blake3
  | .want _ | .needBuilder _ _ => False

/-- What handling a message records is what it says when the neighbour that handed it
over is taken for its sender. -/
theorem handle_gossip_records {codec : Postcard GossipMessage} {crypto : Ed25519} {caches : Caches}
    {deliveredFrom peer : EndpointId} {content : Bytes} {blake3 : Bytes32} :
    (handleGossip codec crypto caches deliveredFrom content).providerCache.Records blake3 peer ↔
      caches.providerCache.Records blake3 peer ∨
        ∃ msg, codec.fromBytes content = .ok msg ∧
          Announces crypto deliveredFrom blake3 peer msg := by
  unfold handleGossip handleMessage
  cases hm : codec.fromBytes content with
  | error e => simp
  | ok msg =>
    simp only [Except.ok.injEq, exists_eq_left']
    cases msg with
    | have' b path size => exact ProviderCache.add_provider_records
    | iHave b path size => exact ProviderCache.add_provider_records
    | want b => simp [dispatch, Announces]
    | needBuilder requester features =>
      simp only [dispatch, Announces, or_false]
      cases crypto.endpointIdFromBytes requester <;> rfl
    | buildComplete result =>
      simp only [dispatch, Announces]
      cases crypto.endpointIdFromBytes result.builder with
      | none => simp
      | some builderId =>
        simp only [add_outputs_records, Option.some.injEq, eq_comm]

/-- Which peers the nodes have been told of, after one more event, if every message
is taken as its author's. A lost neighbour is forgotten. -/
def NetworkEvent.tell (codec : Postcard GossipMessage) (crypto : Ed25519)
    (told : EndpointId → Bytes32 → EndpointId → Prop) :
    NetworkEvent → EndpointId → Bytes32 → EndpointId → Prop
  | .broadcast _ => told
  | .deliver _ receiver b => fun node blake3 peer =>
    told node blake3 peer ∨ node = receiver ∧ ∃ msg, codec.fromBytes b.content = .ok msg ∧
      Announces crypto b.author blake3 peer msg
  | .neighborDown node lost => fun n blake3 peer =>
    told n blake3 peer ∧ ¬ (n = node ∧ peer = lost)

def toldOf (codec : Postcard GossipMessage) (crypto : Ed25519) (h : List NetworkEvent) :
    EndpointId → Bytes32 → EndpointId → Prop :=
  h.foldl (NetworkEvent.tell codec crypto) fun _ _ _ => False

/-- Each node records, for each hash, the peers that announced it. -/
def Attributed (told : EndpointId → Bytes32 → EndpointId → Prop) (s : Network) : Prop :=
  ∀ node blake3 peer, (s.caches node).providerCache.Records blake3 peer ↔ told node blake3 peer

/-- A node's own announcement of a hash. -/
def Offers (blake3 : Bytes32) : GossipMessage → Prop
  | .have' b _ _ | .iHave b _ _ => b = blake3
  | _ => False

/-- An announcement is handed over by its author, or its receiver has recorded both
the author and the neighbour for the hash already. -/
def ByAuthor (codec : Postcard GossipMessage) (s : Network) : NetworkEvent → Prop
  | .deliver deliveredFrom receiver b =>
    ∀ msg, codec.fromBytes b.content = .ok msg → ∀ blake3, Offers blake3 msg →
      deliveredFrom = b.author ∨
        (s.caches receiver).providerCache.Records blake3 deliveredFrom ∧
        (s.caches receiver).providerCache.Records blake3 b.author
  | .broadcast _ | .neighborDown .. => True

/-- Taking one peer for another among those told of makes no difference exactly when
they are the same or both told of anyway. -/
theorem records_agree_iff {told : Bytes32 → EndpointId → Prop} {b : Bytes32}
    {sender author : EndpointId} :
    (∀ blake3 peer, (told blake3 peer ∨ blake3 = b ∧ peer = sender) ↔
      (told blake3 peer ∨ blake3 = b ∧ peer = author)) ↔
    sender = author ∨ told b sender ∧ told b author := by
  constructor
  · intro h
    by_cases he : sender = author
    · exact .inl he
    · have hs := (h b sender).mp (.inr ⟨rfl, rfl⟩)
      have ha := (h b author).mpr (.inr ⟨rfl, rfl⟩)
      simp only [he, Ne.symm he, and_false, or_false] at hs ha
      exact .inr ⟨hs, ha⟩
  · intro h blake3 peer
    rcases h with rfl | ⟨hs, ha⟩
    · rfl
    · constructor
      · intro hp
        rcases hp with hp | ⟨rfl, rfl⟩
        · exact .inl hp
        · exact .inl hs
      · intro hp
        rcases hp with hp | ⟨rfl, rfl⟩
        · exact .inl hp
        · exact .inl ha

/-- One delivery at its receiver. -/
theorem deliver_agrees_iff {codec : Postcard GossipMessage} {crypto : Ed25519}
    {told : Bytes32 → EndpointId → Prop} {deliveredFrom author : EndpointId} {content : Bytes} :
    (∀ blake3 peer,
      (told blake3 peer ∨ ∃ msg, codec.fromBytes content = .ok msg ∧
        Announces crypto deliveredFrom blake3 peer msg) ↔
      (told blake3 peer ∨ ∃ msg, codec.fromBytes content = .ok msg ∧
        Announces crypto author blake3 peer msg)) ↔
    ∀ msg, codec.fromBytes content = .ok msg → ∀ blake3, Offers blake3 msg →
      deliveredFrom = author ∨ told blake3 deliveredFrom ∧ told blake3 author := by
  cases hm : codec.fromBytes content with
  | error e => simp
  | ok msg =>
    simp only [Except.ok.injEq, exists_eq_left', forall_eq']
    cases msg with
    | have' b path size => simpa [Announces, Offers] using records_agree_iff
    | iHave b path size => simpa [Announces, Offers] using records_agree_iff
    | want | needBuilder | buildComplete => simp [Announces, Offers]

theorem attributed_step {codec : Postcard GossipMessage} {crypto : Ed25519}
    {neighbours : EndpointId → EndpointId → Prop}
    {told : EndpointId → Bytes32 → EndpointId → Prop} {s t : Network} {e : NetworkEvent}
    (a : Attributed told s) (step : NetworkStep codec crypto neighbours s e t) :
    Attributed (e.tell codec crypto told) t ↔ ByAuthor codec s e := by
  cases step with
  | broadcast b => exact iff_true_intro a
  | neighborDown node lost =>
    refine iff_true_intro fun n blake3 peer => ?_
    by_cases hn : n = node
    · subst hn
      simp [NetworkEvent.tell, neighborDown, ProviderCache.remove_provider_records, a n blake3 peer]
    · simp [NetworkEvent.tell, hn, a n blake3 peer]
  | deliver deliveredFrom receiver b link has =>
    have heard : ∀ blake3 peer,
        (s.caches receiver).providerCache.Records blake3 peer ↔ told receiver blake3 peer :=
      a receiver
    have agrees := @deliver_agrees_iff codec crypto (told receiver) deliveredFrom b.author b.content
    simp only [ByAuthor, heard]
    refine Iff.trans ?_ agrees
    constructor
    · intro h blake3 peer
      have := h receiver blake3 peer
      simpa [NetworkEvent.tell, handle_gossip_records, heard] using this
    · intro h n blake3 peer
      by_cases hn : n = receiver
      · subst hn
        simpa [NetworkEvent.tell, handle_gossip_records, heard] using h blake3 peer
      · simpa [NetworkEvent.tell, hn] using a n blake3 peer

/-- While announcements come from their authors directly, every node records exactly
the peers that announced to it; and it does so after one more event exactly if that
event is no exception. -/
theorem providers_announced_iff (codec : Postcard GossipMessage) (crypto : Ed25519)
    (neighbours : EndpointId → EndpointId → Prop) (h : List NetworkEvent) (s : Network)
    (run : RunWhile (fun _ => ByAuthor codec) (NetworkStep codec crypto neighbours) .new h s) :
    Attributed (toldOf codec crypto h) s ∧
      ∀ e t, NetworkStep codec crypto neighbours s e t →
        (Attributed (toldOf codec crypto (h ++ [e])) t ↔ ByAuthor codec s e) := by
  have told_snoc : ∀ h e, toldOf codec crypto (h ++ [e]) =
      NetworkEvent.tell codec crypto (toldOf codec crypto h) e := by
    intro h e
    simp [toldOf, List.foldl_append]
  have attributed : Attributed (toldOf codec crypto h) s := by
    refine RunWhile.invariant (fun h s => Attributed (toldOf codec crypto h) s) ?_ ?_ run
    · intro node blake3 peer
      exact iff_of_false ProviderCache.new_records id
    · intro h s e t _ a meets step
      rw [told_snoc]
      exact (attributed_step a step).mpr meets
  refine ⟨attributed, fun e t step => ?_⟩
  rw [told_snoc]
  exact attributed_step attributed step

section Relayed

/-- Three nodes, told apart by one byte. -/
def peerNamed (n : UInt8) : EndpointId := ⟨Vector.replicate 32 n⟩

/-- Two links: from the first node to the second, and from that to the third. -/
def inLine (a b : EndpointId) : Prop :=
  a = peerNamed 1 ∧ b = peerNamed 2 ∨ a = peerNamed 2 ∧ b = peerNamed 3

def announcement : GossipMessage := .have' zeroBytes32 "/nix/store/a" 0

/-- The first node's announcement reaches the second. -/
theorem announced_run : ∃ h s,
    RunWhile (fun _ => ByAuthor (constantCodec announcement))
      (NetworkStep (constantCodec announcement) plainCrypto inLine) .new h s ∧
    (peerNamed 2, ⟨peerNamed 1, []⟩) ∈ s.held ∧ toldOf (constantCodec announcement) plainCrypto h
      (peerNamed 2) zeroBytes32 (peerNamed 1) ∧
    s.caches (peerNamed 3) = .new := by
  have start : RunWhile (fun _ => ByAuthor (constantCodec announcement))
    (NetworkStep (constantCodec announcement) plainCrypto inLine) .new [] .new := .nil
  have sent := start.snoc (.broadcast _ ⟨peerNamed 1, []⟩) trivial
  have received := sent.snoc (.deliver _ (peerNamed 1) (peerNamed 2) ⟨peerNamed 1, []⟩
    (.inl ⟨rfl, rfl⟩) (List.mem_singleton_self _)) fun _ _ _ _ => .inl rfl
  refine ⟨_, _, received, List.mem_cons_self, ?_, ?_⟩
  · exact .inr ⟨rfl, _, rfl, rfl, rfl⟩
  · have third : peerNamed 3 ≠ peerNamed 2 := by decide
    simp only [Function.update_of_ne third]
    rfl

theorem providers_announced_direct : ∃ s : Network,
    (s.caches (peerNamed 2)).providerCache.Records zeroBytes32 (peerNamed 1) := by
  obtain ⟨h, s, run, _, told, _⟩ := announced_run
  refine ⟨s, ?_⟩
  exact ((providers_announced_iff _ _ _ h s run).1 _ _ _).mpr told

/-- The third node, which the second relays to, records the second for the first. -/
theorem provider_is_relay : ∃ h s,
    Run (NetworkStep (constantCodec announcement) plainCrypto inLine) .new h s ∧
    .deliver (peerNamed 2) (peerNamed 3) ⟨peerNamed 1, []⟩ ∈ h ∧
    (s.caches (peerNamed 3)).providerCache.Records zeroBytes32 (peerNamed 2) ∧
    ¬ (s.caches (peerNamed 3)).providerCache.Records zeroBytes32 (peerNamed 1) := by
  obtain ⟨h, s, run, held, _, unheard⟩ := announced_run
  have relayed := run.run.snoc (.deliver s (peerNamed 2) (peerNamed 3) ⟨peerNamed 1, []⟩
    (.inr ⟨rfl, rfl⟩) held)
  refine ⟨_, _, relayed, by simp, ?_, ?_⟩ <;>
    simp only [Function.update_self, handle_gossip_records, unheard]
  · exact .inr ⟨announcement, rfl, rfl, rfl⟩
  · intro h
    rcases h with h | ⟨msg, hm, h⟩
    · exact ProviderCache.new_records h
    · cases hm
      exact absurd h.2 (by decide)

end Relayed

end IrohNix.Gossip
