import IrohNix.Build.QueueRun
import IrohNix.Control.Handler
import IrohNix.Gossip.Delivery

namespace IrohNix.Requester
open IrohNix.Lib IrohNix.Build IrohNix.Gossip IrohNix.Control

/-- `Node::push_build` on a node with a build queue: the queue, the answer, and
the message broadcast where gossip is enabled. -/
def pushBuild (hashers : Hashers) (q : BuildQueue) (gossip : Bool) (drvPath : String)
    (systemFeatures outputs : List String) (inputPaths : List InputPath) (timestamp : UInt64) :
    BuildQueue × (JobId × Bool) × Option GossipMessage :=
  let (queue, jobId, shouldAnnounce) :=
    q.push hashers drvPath systemFeatures outputs inputPaths timestamp
  (queue, (jobId, shouldAnnounce),
    if shouldAnnounce && gossip then some (announceNeedBuilder q.ourId systemFeatures) else none)

/-- A requester on the gossip network: its queue, and the messages it has broadcast. -/
structure Announcer where
  queue : BuildQueue
  sent : List GossipMessage

/-- A submission, with the features it requires and whether nothing was pending,
or another call on the queue. -/
inductive AnnouncerEvent where
  | submit (idle : Bool) (systemFeatures : List String)
  | call (e : QueueEvent)

inductive AnnouncerStep (hashers : Hashers) : Announcer → AnnouncerEvent → Announcer → Prop where
  | submitBuild (s : Announcer) (first second : s.queue.leased.Iter) (timestamp : UInt64)
      (drvPath system : String) (requiredFeatures : List String)
      (inputPaths : List InputPathInfo) (expectedOutputs : List String) (handled : Handled)
      (hh : handleControlRequest hashers s.queue first second timestamp
        (.submitBuild drvPath system requiredFeatures inputPaths expectedOutputs) = handled) :
      AnnouncerStep hashers s (.submit s.queue.pending.isEmpty (system :: requiredFeatures))
        ⟨handled.queue, s.sent ++ handled.announced.toList⟩
  | pushBuild (s : Announcer) (drvPath : String) (systemFeatures outputs : List String)
      (inputPaths : List InputPath) (timestamp : UInt64) (queue : BuildQueue)
      (answer : JobId × Bool) (announced : Option GossipMessage)
      (hp : pushBuild hashers s.queue true drvPath systemFeatures outputs inputPaths timestamp =
        (queue, answer, announced)) :
      AnnouncerStep hashers s (.submit s.queue.pending.isEmpty systemFeatures)
        ⟨queue, s.sent ++ announced.toList⟩
  | call (s : Announcer) (e : QueueEvent) (queue : BuildQueue)
      (step : QueueStep hashers s.queue e queue) (notPush : e.pushed hashers = none) :
      AnnouncerStep hashers s (.call e) ⟨queue, s.sent⟩

abbrev AnnouncerRun (hashers : Hashers) (ourId : EndpointId) :
    List AnnouncerEvent → Announcer → Prop :=
  Run (AnnouncerStep hashers) ⟨.new ourId, []⟩

/-- The features of a submission made while nothing was pending. -/
def AnnouncerEvent.opens : AnnouncerEvent → Option (List String)
  | .submit true systemFeatures => some systemFeatures
  | _ => none

/-- The features of the last submission that found nothing pending. -/
def lastOpening (h : List AnnouncerEvent) : Option (List String) :=
  (h.filterMap AnnouncerEvent.opens).getLast?

/-- A queue that never needed builders has never held a job. -/
def Untouched (q : BuildQueue) : Prop :=
  q.neededFeatures = none → q.pending = [] ∧ q.leased = ∅

theorem Untouched.announces {q : BuildQueue} (h : Untouched q) :
    (q.pending.isEmpty || q.neededFeatures.isNone) = q.pending.isEmpty := by
  cases hn : q.neededFeatures with
  | none => simp [(h hn).1]
  | some needed => simp

/-- The second queue needs what the first one does. -/
def KeepsNeeded (q q' : BuildQueue) : Prop :=
  Untouched q' ∧ q'.neededFeatures = q.neededFeatures ∧ q'.ourId = q.ourId

/-- No call but a push changes what a requester says it needs. -/
theorem call_keeps_needed {hashers : Hashers} {q q' : BuildQueue} {e : QueueEvent}
    (step : QueueStep hashers q e q') (notPush : e.pushed hashers = none) (h : Untouched q) :
    KeepsNeeded q q' := by
  cases step with
  | push => simp [QueueEvent.pushed] at notPush
  | takePendingFetches | broadcastLog => exact ⟨h, rfl, rfl⟩
  | pull builder features now =>
    rcases q.pull_cases builder features now with ⟨_, hq⟩ | ⟨before, job, after, hp, _, _, hq⟩
    · rw [hq]
      exact ⟨h, rfl, rfl⟩
    · rw [hq]
      refine ⟨fun hn => ?_, rfl, rfl⟩
      have := (h hn).1
      simp [hp] at this
  | heartbeat jobId builder status now =>
    rcases q.heartbeat_cases jobId builder status now with ⟨hq, _⟩ | ⟨lease, hl, _, hq⟩
    · rw [hq]
      exact ⟨h, rfl, rfl⟩
    · rw [hq]
      refine ⟨fun hn => ?_, rfl, rfl⟩
      rw [(h hn).2] at hl
      simp at hl
  | complete jobId builder result =>
    rcases q.complete_cases jobId builder result with ⟨hq, _⟩ | ⟨lease, hl, _, hq⟩
    · rw [hq]
      exact ⟨h, rfl, rfl⟩
    · rw [hq]
      refine ⟨fun hn => ?_, rfl, rfl⟩
      rw [(h hn).2] at hl
      simp at hl
  | fail jobId builder error =>
    rcases q.fail_cases jobId builder error with ⟨hq, _⟩ | ⟨lease, hl, _, hq⟩
    · rw [hq]
      exact ⟨h, rfl, rfl⟩
    · rw [hq]
      refine ⟨fun hn => ?_, rfl, rfl⟩
      rw [(h hn).2] at hl
      simp at hl
  | checkTimeouts order now =>
    have keep : ∀ p jobId lease, KeepsNeeded q p → p.leased.get? jobId = some lease →
        KeepsNeeded q (p.expire jobId lease) := by
      intro p jobId lease hP hl
      obtain ⟨hu, hn, hid⟩ := hP
      refine ⟨fun hnone => ?_, hn, hid⟩
      rw [(hu hnone).2] at hl
      simp at hl
    exact BuildQueue.check_timeouts_induct keep order now ⟨h, rfl, rfl⟩

/-- What a requester has broadcast is the features of each submission that found
nothing pending, in order. -/
structure Announced (ourId : EndpointId) (h : List AnnouncerEvent) (s : Announcer) : Prop where
  owner : s.queue.ourId = ourId
  untouched : Untouched s.queue
  sent : s.sent = (h.filterMap AnnouncerEvent.opens).map (announceNeedBuilder ourId)
  opened : s.queue.neededFeatures = lastOpening h

theorem announced_start (ourId : EndpointId) : Announced ourId [] ⟨.new ourId, []⟩ where
  owner := rfl
  untouched := fun _ => ⟨rfl, rfl⟩
  sent := rfl
  opened := rfl

theorem Announced.submit {ourId : EndpointId} {h : List AnnouncerEvent} {s : Announcer}
    (a : Announced ourId h s) (hashers : Hashers) (drvPath : String)
    (systemFeatures outputs : List String) (inputPaths : List InputPath) (timestamp : UInt64) :
    let pushed := s.queue.push hashers drvPath systemFeatures outputs inputPaths timestamp
    Announced ourId (h ++ [.submit s.queue.pending.isEmpty systemFeatures])
      ⟨pushed.1, s.sent ++ (if pushed.2.2 then
        some (announceNeedBuilder s.queue.ourId systemFeatures) else none).toList⟩ := by
  have hannounce := a.untouched.announces
  simp only [BuildQueue.push, hannounce]
  cases hp : s.queue.pending.isEmpty with
  | true =>
    exact {
      owner := a.owner
      untouched := fun hn => by simp at hn
      sent := by simp [a.sent, a.owner, AnnouncerEvent.opens]
      opened := by simp [lastOpening, AnnouncerEvent.opens] }
  | false =>
    refine ⟨a.owner, fun hn => ?_, by simp [a.sent, AnnouncerEvent.opens],
      by simpa [lastOpening, AnnouncerEvent.opens] using a.opened⟩
    have hempty := (a.untouched (by simpa using hn)).1
    simp [hempty] at hp

theorem Announced.step {hashers : Hashers} {ourId : EndpointId} {h : List AnnouncerEvent}
    {s t : Announcer} {e : AnnouncerEvent} (a : Announced ourId h s)
    (step : AnnouncerStep hashers s e t) : Announced ourId (h ++ [e]) t := by
  cases step with
  | submitBuild first second timestamp drvPath system requiredFeatures inputPaths expectedOutputs
      handled hh =>
    subst hh
    exact a.submit hashers drvPath (system :: requiredFeatures) expectedOutputs _ timestamp
  | pushBuild drvPath systemFeatures outputs inputPaths timestamp queue answer announced hp =>
    have hs := a.submit hashers drvPath systemFeatures outputs inputPaths timestamp
    simp only [Requester.pushBuild, Bool.and_true, Prod.mk.injEq] at hp
    obtain ⟨rfl, _, rfl⟩ := hp
    exact hs
  | call e queue step notPush =>
    obtain ⟨hu, hn, hid⟩ := call_keeps_needed step notPush a.untouched
    have ho : AnnouncerEvent.opens (.call e) = none := rfl
    exact {
      owner := hid.trans a.owner
      untouched := hu
      sent := by simpa [ho] using a.sent
      opened := by simpa [hn, lastOpening, ho] using a.opened }

theorem announced_run {hashers : Hashers} {ourId : EndpointId} {h : List AnnouncerEvent}
    {s : Announcer} (run : AnnouncerRun hashers ourId h s) : Announced ourId h s :=
  run.invariant (Announced ourId) (announced_start ourId) fun _ _ _ _ _ a step => a.step step

/-- The requester's messages among those a peer has read, in order, are those it
has broadcast. -/
def HasRead (crypto : Ed25519) (ourId : EndpointId) (inbox : List (EndpointId × GossipMessage))
    (sent : List GossipMessage) : Prop :=
  (inbox.map Prod.snd).filter (fun msg => (announcedFor crypto ourId msg).isSome) = sent

theorem HasRead.announced {crypto : Ed25519} {ourId : EndpointId}
    {inbox : List (EndpointId × GossipMessage)} {sent : List GossipMessage}
    (h : HasRead crypto ourId inbox sent) :
    inbox.filterMap (fun d => announcedFor crypto ourId d.2) =
      sent.filterMap (announcedFor crypto ourId) := by
  rw [← h, List.filterMap_filter, List.filterMap_map]
  congr 1
  funext d
  simp only [Function.comp_apply]
  cases announcedFor crypto ourId d.2 <;> rfl

/-- A peer may have read exactly what the requester broadcast. -/
theorem hasRead_sent {crypto : Ed25519} {hashers : Hashers} {ourId : EndpointId}
    (decodes : crypto.endpointIdFromBytes ourId.asBytes = some ourId) {h : List AnnouncerEvent}
    {s : Announcer} (run : AnnouncerRun hashers ourId h s) (peer : EndpointId) :
    HasRead crypto ourId (s.sent.map fun msg => (peer, msg)) s.sent := by
  unfold HasRead
  rw [List.map_map, show Prod.snd ∘ (fun msg : GossipMessage => (peer, msg)) = id from rfl,
    List.map_id, List.filter_eq_self]
  intro msg hm
  rw [(announced_run run).sent] at hm
  obtain ⟨features, _, rfl⟩ := List.mem_map.mp hm
  simp [announceNeedBuilder, announcedFor, decodes]

/-- Every peer that has read what the requester broadcast, and offers all some
pending job requires, is shown the requester. -/
def SeenByCapable (crypto : Ed25519) (ourId : EndpointId)
    (inbox : List (EndpointId × GossipMessage)) (q : BuildQueue) : Prop :=
  ∀ (order : (receiveAll crypto inbox).requesterCache.requesters.Iter) (features : List String),
    (∃ job ∈ q.pending, job.offeredBy features = true) →
      ∃ info ∈ (receiveAll crypto inbox).requesterCache.getMatchingRequesters order features,
        info.endpointId = ourId

theorem offeredBy_iff {job : BuildJob} {features : List String} :
    job.offeredBy features = true ↔ ∀ f ∈ job.systemFeatures, f ∈ features := by
  simp [BuildJob.offeredBy]

/-- Every capable peer sees the requester exactly when each pending job requires
all that the last submission to find nothing pending required: only that one
is announced. -/
theorem seen_by_capable_iff (crypto : Ed25519) (hashers : Hashers) (ourId : EndpointId)
    (decodes : crypto.endpointIdFromBytes ourId.asBytes = some ourId) (h : List AnnouncerEvent)
    (s : Announcer) (run : AnnouncerRun hashers ourId h s)
    (inbox : List (EndpointId × GossipMessage)) (read : HasRead crypto ourId inbox s.sent) :
    SeenByCapable crypto ourId inbox s.queue ↔
      ∀ job ∈ s.queue.pending, ∀ opening, lastOpening h = some opening →
        ∀ f ∈ opening, f ∈ job.systemFeatures := by
  have a := announced_run run
  -- the last message a peer has read of the requester announces the last opening
  have hlast : (inbox.filterMap (fun d => announcedFor crypto ourId d.2)).getLast? =
      lastOpening h := by
    rw [read.announced, a.sent, List.filterMap_map]
    congr 1
    simp only [Function.comp_def, announceNeedBuilder, announcedFor, decodes, if_true]
    exact List.filterMap_some
  constructor
  · intro hseen job hj opening ho f hf
    obtain ⟨order⟩ :=
      HashMap.iter_exists (receiveAll crypto inbox).requesterCache.requesters
    have hshown := hseen order job.systemFeatures ⟨job, hj, offeredBy_iff.mpr fun _ h => h⟩
    obtain ⟨features, hfeatures, hsub⟩ := (shown_iff crypto ourId inbox order _).mp hshown
    rw [hlast, ho] at hfeatures
    cases hfeatures
    exact hsub f hf
  · intro hcond order features hcapable
    obtain ⟨job, hj, hoffered⟩ := hcapable
    apply (shown_iff crypto ourId inbox order features).mpr
    rw [hlast]
    cases ho : lastOpening h with
    | none =>
      rw [(a.untouched (a.opened.trans ho)).1] at hj
      simp at hj
    | some opening =>
      refine ⟨opening, rfl, fun f hf => ?_⟩
      exact offeredBy_iff.mp hoffered f (hcond job hj opening ho f hf)


section Overshadowed

theorem seen_by_capable_first : ∃ s : Announcer, s.queue.pending.length = 1 ∧
    SeenByCapable plainCrypto ⟨zeroBytes32⟩ (s.sent.map fun msg => (⟨zeroBytes32⟩, msg))
      s.queue := by
  have start : AnnouncerRun zeroHashers ⟨zeroBytes32⟩ [] _ := .nil
  have run := start.snoc (.pushBuild _ "/nix/store/a.drv" ["x86_64-linux"] [] [] 0 _ _ _ rfl)
  refine ⟨_, rfl, (seen_by_capable_iff plainCrypto zeroHashers ⟨zeroBytes32⟩ rfl _ _ run _
    (hasRead_sent rfl run _)).mpr ?_⟩
  intro job hj opening ho f hf
  cases List.mem_singleton.mp hj
  cases ho
  exact hf

/-- A second job that needs less than the announced one is not announced, so a
builder with just what it needs never sees the requester. -/
theorem capable_builder_blind : ∃ h s, AnnouncerRun zeroHashers ⟨zeroBytes32⟩ h s ∧
    HasRead plainCrypto ⟨zeroBytes32⟩ (s.sent.map fun msg => (⟨zeroBytes32⟩, msg)) s.sent ∧
    ¬ SeenByCapable plainCrypto ⟨zeroBytes32⟩ (s.sent.map fun msg => (⟨zeroBytes32⟩, msg))
      s.queue := by
  have start : AnnouncerRun zeroHashers ⟨zeroBytes32⟩ [] _ := .nil
  have run := (start.snoc
    (.pushBuild _ "/nix/store/a.drv" ["x86_64-linux", "kvm"] [] [] 0 _ _ _ rfl)).snoc
    (.pushBuild _ "/nix/store/b.drv" ["x86_64-linux"] [] [] 0 _ _ _ rfl)
  refine ⟨_, _, run, hasRead_sent rfl run _, fun hseen => ?_⟩
  obtain ⟨order⟩ := HashMap.iter_exists (receiveAll plainCrypto
    [(⟨zeroBytes32⟩, announceNeedBuilder ⟨zeroBytes32⟩ ["x86_64-linux", "kvm"])]).requesterCache.requesters
  have hshown := hseen order ["x86_64-linux"] ⟨_, List.mem_cons_of_mem _ List.mem_cons_self, rfl⟩
  obtain ⟨features, hfeatures, hsub⟩ := (shown_iff plainCrypto ⟨zeroBytes32⟩ _ order _).mp hshown
  cases hfeatures
  exact absurd (hsub "kvm" (by decide)) (by decide)

end Overshadowed

end IrohNix.Requester
