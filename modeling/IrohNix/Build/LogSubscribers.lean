import IrohNix.Build.Queue
import IrohNix.Lib.Runs

namespace IrohNix.Build
open IrohNix.Lib

/-- What a subscription asked for: the log of one job, or of all. -/
inductive Subscription where
  | job (jobId : UInt64)
  | all

/-- The key of `log_subscribers` a subscription is kept under. -/
def Subscription.key : Subscription → UInt64
  | .job jobId => jobId
  | .all => 0

def Subscription.Wants (subscription : Subscription) (jobId : UInt64) : Prop :=
  match subscription with
  | .job wanted => wanted = jobId
  | .all => True

/-- Whether a send on the channel succeeds. -/
def LogSender.accepts (tx : LogSender) : Bool := tx.receiving && tx.buffered.length < 256

theorem LogSender.trySend_eq (tx : LogSender) (entry : LogEntry) :
    tx.trySend entry =
      if tx.accepts then some { tx with buffered := tx.buffered ++ [entry] } else none := by
  unfold trySend accepts
  cases tx.receiving
  · rfl
  · by_cases full : 256 ≤ tx.buffered.length <;> simp [full, Nat.not_lt.mpr, Nat.lt_of_not_le]

/-- A channel, both its ends, with the subscription that made it. -/
structure LogChannel where
  subscription : Subscription
  sender : LogSender

def LogChannel.push (c : LogChannel) (entry : LogEntry) : LogChannel :=
  { c with sender := { c.sender with buffered := c.sender.buffered ++ [entry] } }

/-- The channel after a send that may fail. -/
def LogChannel.offer (c : LogChannel) (entry : LogEntry) : LogChannel :=
  if c.sender.accepts then c.push entry else c

@[simp] theorem LogChannel.offer_subscription (c : LogChannel) (entry : LogEntry) :
    (c.offer entry).subscription = c.subscription := by
  unfold offer push
  split <;> rfl

/-- `log_subscribers`, each sender known by the number of its channel, and the channels in
the order they were made. -/
structure LogSubscribers where
  subs : HashMap UInt64 (List Nat)
  channels : List LogChannel

/-- `retain(try_send(..).is_ok())` over a list of senders. -/
def trySendAll (channels : List LogChannel) (entry : LogEntry) :
    List Nat → List Nat × List LogChannel
  | [] => ([], channels)
  | i :: ids =>
    match channels[i]? with
    | none => trySendAll channels entry ids
    | some channel =>
      match channel.sender.trySend entry with
      | none => trySendAll channels entry ids
      | some sender =>
        let (kept, channels) := trySendAll (channels.set i { channel with sender }) entry ids
        (i :: kept, channels)

namespace LogSubscribers

def new : LogSubscribers := ⟨∅, []⟩

/-- A new channel, its sender appended to the list under the subscription's key. -/
def subscribe (s : LogSubscribers) (subscription : Subscription) : LogSubscribers where
  subs := s.subs.insert subscription.key
    ((s.subs.get? subscription.key).getD [] ++ [s.channels.length])
  channels := s.channels ++ [⟨subscription, ⟨[], true⟩⟩]

def subscribeLogs (s : LogSubscribers) (jobId : UInt64) : LogSubscribers := s.subscribe (.job jobId)

def subscribeAllLogs (s : LogSubscribers) : LogSubscribers := s.subscribe .all

/-- The sends to the list under one key. -/
def sendUnder (s : LogSubscribers) (key : UInt64) (entry : LogEntry) : LogSubscribers :=
  match s.subs.get? key with
  | none => s
  | some subscribers =>
    let (kept, channels) := trySendAll s.channels entry subscribers
    { subs := s.subs.insert key kept, channels }

def broadcastLog (s : LogSubscribers) (jobId : UInt64) (data : Bytes) (stream : UInt8) :
    LogSubscribers :=
  let entry : LogEntry := { jobId, data, stream }
  (s.sendUnder jobId entry).sendUnder 0 entry

def cleanupLogSubscribers (s : LogSubscribers) : LogSubscribers :=
  let isOpen (i : Nat) : Bool := s.channels[i]?.any fun c => c.sender.receiving
  { s with subs := (s.subs.mapValues (List.filter isOpen)).retain fun v => !v.isEmpty }

/-- The receiver of a channel takes its first entry, if there is one. -/
def receive (s : LogSubscribers) (i : Nat) : LogSubscribers :=
  { s with channels := s.channels.modify i fun c =>
      { c with sender := { c.sender with buffered := c.sender.buffered.tail } } }

def dropReceiver (s : LogSubscribers) (i : Nat) : LogSubscribers :=
  { s with channels := s.channels.modify i fun c => { c with sender := ⟨[], false⟩ } }

/-- The senders under a key. -/
def listed (s : LogSubscribers) (key : UInt64) : List Nat := (s.subs.get? key).getD []

/-- Whether a send on a channel succeeds. -/
def accepting (s : LogSubscribers) (i : Nat) : Bool := s.channels[i]?.any (·.sender.accepts)

end LogSubscribers

/-- What is done to the subscribers, by the queue's users and by the holders of receivers. -/
inductive LogCall where
  | subscribeLogs (jobId : UInt64)
  | subscribeAllLogs
  | broadcastLog (jobId : UInt64) (data : Bytes) (stream : UInt8)
  | cleanupLogSubscribers
  | receive (channel : Nat)
  | dropReceiver (channel : Nat)

def LogSubscribers.call (s : LogSubscribers) : LogCall → LogSubscribers
  | .subscribeLogs jobId => s.subscribeLogs jobId
  | .subscribeAllLogs => s.subscribeAllLogs
  | .broadcastLog jobId data stream => s.broadcastLog jobId data stream
  | .cleanupLogSubscribers => s.cleanupLogSubscribers
  | .receive i => s.receive i
  | .dropReceiver i => s.dropReceiver i

def LogStep (s : LogSubscribers) (e : LogCall) (t : LogSubscribers) : Prop := s.call e = t

/-- A sender whose channel is gone, closed or full is dropped from the list. -/
theorem trySendAll_skips {channels : List LogChannel} {k : Nat}
    (refuses : channels[k]?.any (·.sender.accepts) = false) (entry : LogEntry) (ids : List Nat) :
    trySendAll channels entry (k :: ids) = trySendAll channels entry ids := by
  cases hc : channels[k]? with
  | none => simp only [trySendAll, hc]
  | some c =>
    have refused : c.sender.accepts = false := by simpa [hc] using refuses
    simp [trySendAll, hc, LogSender.trySend_eq, refused]

theorem trySendAll_sends {channels : List LogChannel} {k : Nat} {c : LogChannel}
    (hc : channels[k]? = some c) (accepts : c.sender.accepts = true) (entry : LogEntry)
    (ids : List Nat) :
    trySendAll channels entry (k :: ids) =
      (k :: (trySendAll (channels.set k (c.push entry)) entry ids).1,
        (trySendAll (channels.set k (c.push entry)) entry ids).2) := by
  simp [trySendAll, hc, LogSender.trySend_eq, accepts, LogChannel.push]

/-- Each channel on the list is offered the entry, and stays on it if it takes it. -/
theorem trySendAll_spec (entry : LogEntry) (ids : List Nat) (nodup : ids.Nodup)
    (channels : List LogChannel) :
    (trySendAll channels entry ids).1 =
        ids.filter (fun i => channels[i]?.any (·.sender.accepts)) ∧
      ∀ i, (trySendAll channels entry ids).2[i]? =
        channels[i]?.map fun c => if i ∈ ids then c.offer entry else c := by
  induction ids generalizing channels with
  | nil => simp [trySendAll]
  | cons k ids ih =>
    obtain ⟨fresh, nodup⟩ := List.nodup_cons.mp nodup
    cases taken : channels[k]?.any (·.sender.accepts) with
    | false =>
      obtain ⟨kept, sent⟩ := ih nodup channels
      rw [trySendAll_skips taken]
      refine ⟨by rw [kept, List.filter_cons_of_neg (by simp [taken])], fun i => ?_⟩
      rw [sent]
      by_cases hi : i = k
      · subst hi
        cases hc : channels[i]? with
        | none => rfl
        | some c =>
          have refused : c.sender.accepts = false := by simpa [hc] using taken
          simp [fresh, LogChannel.offer, refused]
      · simp [hi]
    | true =>
      obtain ⟨c, hc, accepts⟩ := (Option.any_eq_true _ _).mp taken
      obtain ⟨kept, sent⟩ := ih nodup (channels.set k (c.push entry))
      have apart : ∀ i ∈ ids, k ≠ i := fun i hi he => fresh (he ▸ hi)
      rw [trySendAll_sends hc accepts]
      refine ⟨?_, fun i => ?_⟩
      · rw [List.filter_cons_of_pos (by simp [hc, accepts])]
        refine congrArg _ (kept.trans (List.filter_congr fun i hi => ?_))
        rw [List.getElem?_set_ne (apart i hi)]
      · refine (sent i).trans ?_
        by_cases hi : k = i
        · subst hi
          obtain ⟨bound, hget⟩ := List.getElem?_eq_some_iff.mp hc
          simp [bound, hget, fresh, LogChannel.offer, accepts]
        · rw [List.getElem?_set_ne hi]
          simp [Ne.symm hi]

namespace LogSubscribers

/-- A sender is on a list at most once, and on the list of its own key only. -/
structure Filed (s : LogSubscribers) : Prop where
  nodup : ∀ key, (s.listed key).Nodup
  made : ∀ key, ∀ i ∈ s.listed key, ∃ c, s.channels[i]? = some c ∧ c.subscription.key = key

variable {s : LogSubscribers}

theorem Filed.apart (filed : s.Filed) {i : Nat} {key key' : UInt64} (h : i ∈ s.listed key)
    (h' : i ∈ s.listed key') : key = key' := by
  obtain ⟨c, hc, hkey⟩ := filed.made key i h
  obtain ⟨c', hc', hkey'⟩ := filed.made key' i h'
  cases hc.symm.trans hc'
  exact hkey.symm.trans hkey'

theorem sendUnder_spec (filed : s.Filed) (key : UInt64) (entry : LogEntry) :
    (∀ i, (s.sendUnder key entry).channels[i]? =
        s.channels[i]?.map fun c => if i ∈ s.listed key then c.offer entry else c) ∧
      ∀ k, (s.sendUnder key entry).listed k =
        if k = key then (s.listed key).filter s.accepting else s.listed k := by
  unfold sendUnder
  split
  · rename_i absent
    have empty : s.listed key = [] := by simp [listed, absent]
    refine ⟨fun i => by simp [empty], fun k => ?_⟩
    by_cases he : k = key <;> simp [he, empty]
  · rename_i ids present
    have hl : s.listed key = ids := by simp [listed, present]
    obtain ⟨kept, sent⟩ := trySendAll_spec entry ids (hl ▸ filed.nodup key) s.channels
    refine ⟨fun i => hl.symm ▸ sent i, fun k => ?_⟩
    rw [listed, HashMap.get_insert]
    split
    · exact hl.symm ▸ kept
    · rfl

theorem Filed.sendUnder (filed : s.Filed) (key : UInt64) (entry : LogEntry) :
    (s.sendUnder key entry).Filed := by
  obtain ⟨channels, listed⟩ := sendUnder_spec filed key entry
  have part : ∀ k, ((s.sendUnder key entry).listed k).Sublist (s.listed k) := by
    intro k
    rw [listed]
    split
    · rename_i he
      exact he ▸ List.filter_sublist
    · exact .refl _
  refine ⟨fun k => (filed.nodup k).sublist (part k), fun k i hi => ?_⟩
  obtain ⟨c, hc, hkey⟩ := filed.made k i ((part k).subset hi)
  refine ⟨_, by rw [channels, hc, Option.map_some], ?_⟩
  split
  · rw [LogChannel.offer_subscription, hkey]
  · exact hkey

/-- A broadcast for a job other than 0 offers the entry once. -/
theorem broadcast_channels (filed : s.Filed) {jobId : UInt64} (other : jobId ≠ 0) (data : Bytes)
    (stream : UInt8) (i : Nat) :
    (s.broadcastLog jobId data stream).channels[i]? = s.channels[i]?.map fun c =>
      if i ∈ s.listed jobId ∨ i ∈ s.listed 0 then c.offer ⟨jobId, data, stream⟩ else c := by
  obtain ⟨channels, listed⟩ := sendUnder_spec filed jobId ⟨jobId, data, stream⟩
  have all := (sendUnder_spec (filed.sendUnder jobId ⟨jobId, data, stream⟩) 0
    ⟨jobId, data, stream⟩).1 i
  rw [channels, listed, if_neg (Ne.symm other), Option.map_map] at all
  refine all.trans ?_
  cases hc : s.channels[i]? with
  | none => rfl
  | some c =>
    by_cases specific : i ∈ s.listed jobId
    · have apart : i ∉ s.listed 0 := fun wild => other (filed.apart specific wild)
      simp [specific, apart]
    · simp [specific]

/-- A broadcast for job 0 offers the entry to the same list twice. -/
theorem broadcast_zero_channels (filed : s.Filed) (data : Bytes) (stream : UInt8) (i : Nat) :
    (s.broadcastLog 0 data stream).channels[i]? = s.channels[i]?.map fun c =>
      if i ∈ s.listed 0 ∧ c.sender.accepts then (c.push ⟨0, data, stream⟩).offer ⟨0, data, stream⟩
      else c := by
  obtain ⟨channels, listed⟩ := sendUnder_spec filed 0 ⟨0, data, stream⟩
  have again := (sendUnder_spec (filed.sendUnder 0 ⟨0, data, stream⟩) 0 ⟨0, data, stream⟩).1 i
  rw [channels, listed, if_pos rfl, Option.map_map] at again
  refine again.trans ?_
  cases hc : s.channels[i]? with
  | none => rfl
  | some c =>
    by_cases accepts : c.sender.accepts = true <;> by_cases wild : i ∈ s.listed 0 <;>
      simp [wild, accepting, hc, accepts, LogChannel.offer]

theorem broadcast_listed (filed : s.Filed) {jobId : UInt64} (other : jobId ≠ 0) (data : Bytes)
    (stream : UInt8) {i : Nat} {c : LogChannel} (hc : s.channels[i]? = some c) (key : UInt64) :
    i ∈ (s.broadcastLog jobId data stream).listed key ↔
      i ∈ s.listed key ∧ (key = jobId ∨ key = 0 → c.sender.accepts = true) := by
  obtain ⟨channels, listed⟩ := sendUnder_spec filed jobId ⟨jobId, data, stream⟩
  have all := (sendUnder_spec (filed.sendUnder jobId ⟨jobId, data, stream⟩) 0
    ⟨jobId, data, stream⟩).2 key
  change i ∈ LogSubscribers.listed _ key ↔ _
  rw [broadcastLog, all]
  by_cases wild : key = 0
  · subst wild
    rw [if_pos rfl, listed, if_neg (Ne.symm other), List.mem_filter]
    refine and_congr_right fun hi => ?_
    have apart : i ∉ s.listed jobId := fun h => other (filed.apart h hi)
    simp [accepting, channels, hc, apart]
  · rw [if_neg wild, listed]
    by_cases specific : key = jobId <;> simp [specific, wild, other, accepting, hc]

theorem broadcast_zero_listed (filed : s.Filed) (data : Bytes) (stream : UInt8) {i : Nat}
    {c : LogChannel} (hc : s.channels[i]? = some c) (key : UInt64) :
    i ∈ (s.broadcastLog 0 data stream).listed key ↔ i ∈ s.listed key ∧
      (key = 0 → c.sender.accepts = true ∧ (c.push ⟨0, data, stream⟩).sender.accepts = true) := by
  obtain ⟨channels, listed⟩ := sendUnder_spec filed 0 ⟨0, data, stream⟩
  have again := (sendUnder_spec (filed.sendUnder 0 ⟨0, data, stream⟩) 0 ⟨0, data, stream⟩).2 key
  rw [broadcastLog, again]
  by_cases wild : key = 0
  · subst wild
    rw [if_pos rfl, listed, if_pos rfl, List.mem_filter, List.mem_filter, and_assoc]
    refine and_congr_right fun hi => ?_
    by_cases accepts : c.sender.accepts = true <;>
      simp [accepting, channels, hc, hi, accepts, LogChannel.offer]
  · rw [if_neg wild, listed, if_neg wild]
    simp [wild]

/-- A broadcast changes no more of a channel than what it has buffered. -/
theorem broadcast_keeps (filed : s.Filed) (jobId : UInt64) (data : Bytes) (stream : UInt8) :
    ∃ g : Nat → LogChannel → LogChannel,
      (∀ i c, (g i c).subscription = c.subscription ∧
        (g i c).sender.receiving = c.sender.receiving) ∧
      ∀ i, (s.broadcastLog jobId data stream).channels[i]? = s.channels[i]?.map (g i) := by
  let entry : LogEntry := ⟨jobId, data, stream⟩
  have first := (sendUnder_spec filed jobId entry).1
  have second := (sendUnder_spec (filed.sendUnder jobId entry) 0 entry).1
  let send (ids : List Nat) (i : Nat) (c : LogChannel) : LogChannel :=
    if i ∈ ids then c.offer entry else c
  have kept : ∀ ids i c, (send ids i c).subscription = c.subscription ∧
      (send ids i c).sender.receiving = c.sender.receiving := by
    intro ids i c
    simp only [send, LogChannel.offer, LogChannel.push]
    split
    · split <;> exact ⟨rfl, rfl⟩
    · exact ⟨rfl, rfl⟩
  refine ⟨fun i c => send ((s.sendUnder jobId entry).listed 0) i (send (s.listed jobId) i c),
    fun i c => ⟨(kept _ _ _).1.trans (kept _ _ _).1, (kept _ _ _).2.trans (kept _ _ _).2⟩, ?_⟩
  intro i
  refine (second i).trans ?_
  rw [first i, Option.map_map]
  rfl

/-- What the queue's model keeps of the subscribers: the senders under each key. -/
def senders (s : LogSubscribers) : HashMap UInt64 (List LogSender) :=
  s.subs.mapValues fun ids => ids.filterMap fun i => s.channels[i]?.map LogChannel.sender

theorem get_senders (s : LogSubscribers) (key : UInt64) :
    s.senders.get? key = (s.subs.get? key).map fun ids =>
      ids.filterMap fun i => s.channels[i]?.map LogChannel.sender :=
  HashMap.get_mapValues _ _ _

theorem sendUnder_subs (s : LogSubscribers) (key : UInt64) (entry : LogEntry) (k : UInt64) :
    (s.sendUnder key entry).subs.get? k =
      (s.subs.get? k).map fun _ => (s.sendUnder key entry).listed k := by
  unfold sendUnder listed
  split
  · rename_i absent
    by_cases he : k = key
    · simp [he, absent]
    · cases s.subs.get? k <;> rfl
  · rename_i ids present
    simp only [HashMap.get_insert]
    by_cases he : k = key
    · simp [he, present]
    · cases s.subs.get? k <;> simp [he]

/-- The sends are the queue's own, seen through the senders. -/
theorem sendUnder_senders (filed : s.Filed) (key : UInt64) (entry : LogEntry) :
    (s.sendUnder key entry).senders = BuildQueue.sendTo s.senders key entry := by
  obtain ⟨channels, listed⟩ := sendUnder_spec filed key entry
  unfold BuildQueue.sendTo
  rw [get_senders]
  cases hk : s.subs.get? key with
  | none =>
    have same : s.sendUnder key entry = s := by
      unfold sendUnder
      rw [hk]
    rw [same]
    rfl
  | some ids =>
    have hids : s.listed key = ids := by simp [LogSubscribers.listed, hk]
    apply HashMap.ext_get
    intro k
    simp only [Option.map_some, HashMap.get_insert, get_senders, sendUnder_subs, Option.map_map]
    by_cases he : k = key
    · rw [if_pos he, he, hk, Option.map_some, Function.comp_apply, listed, if_pos rfl, hids]
      rw [List.filterMap_filter, List.filterMap_filterMap]
      refine congrArg some (List.filterMap_congr fun i hi => ?_)
      rw [channels, hids]
      cases hc : s.channels[i]? with
      | none => simp
      | some c =>
        by_cases accepts : c.sender.accepts = true <;>
          simp [accepting, hc, hi, accepts, LogSender.trySend_eq, LogChannel.offer, LogChannel.push]
    · rw [if_neg he, listed, if_neg he]
      cases hs : s.subs.get? k with
      | none => rfl
      | some others =>
        have hothers : s.listed k = others := by simp [LogSubscribers.listed, hs]
        rw [hothers]
        refine congrArg some (List.filterMap_congr fun i hi => ?_)
        have apart : i ∉ s.listed key := fun h => he (filed.apart (hothers ▸ hi) h)
        simp [channels, apart]

theorem broadcast_senders (filed : s.Filed) (jobId : UInt64) (data : Bytes) (stream : UInt8)
    {q : BuildQueue} (same : q.logSubscribers = s.senders) :
    (q.broadcastLog jobId data stream).logSubscribers =
      (s.broadcastLog jobId data stream).senders := by
  rw [broadcastLog, sendUnder_senders (filed.sendUnder _ _), sendUnder_senders filed, ← same]
  rfl

theorem subscribe_listed (s : LogSubscribers) (subscription : Subscription) (key : UInt64) :
    (s.subscribe subscription).listed key =
      if key = subscription.key then s.listed key ++ [s.channels.length] else s.listed key := by
  simp only [listed, subscribe, HashMap.get_insert]
  by_cases he : key = subscription.key <;> simp [he]

theorem Filed.subscribe (filed : s.Filed) (subscription : Subscription) :
    (s.subscribe subscription).Filed := by
  have fresh : ∀ key, s.channels.length ∉ s.listed key := by
    intro key h
    obtain ⟨c, hc, _⟩ := filed.made key _ h
    simp at hc
  refine ⟨fun key => ?_, fun key i hi => ?_⟩
  · rw [subscribe_listed]
    split
    · exact List.nodup_append.mpr ⟨filed.nodup key, List.nodup_singleton _, fun i hi k hk he =>
        fresh key (List.mem_singleton.mp hk ▸ he ▸ hi)⟩
    · exact filed.nodup key
  · have old : i ∈ s.listed key → ∃ c, (s.subscribe subscription).channels[i]? = some c ∧
        c.subscription.key = key := by
      intro hi
      obtain ⟨c, hc, hkey⟩ := filed.made key i hi
      exact ⟨c, List.getElem?_append_left (List.getElem?_eq_some_iff.mp hc).1 ▸ hc, hkey⟩
    rw [subscribe_listed] at hi
    split at hi
    · rename_i he
      rcases List.mem_append.mp hi with hi | hi
      · exact old hi
      · rw [List.mem_singleton.mp hi]
        exact ⟨_, List.getElem?_concat_length, he.symm⟩
    · exact old hi

theorem listed_cleanup (s : LogSubscribers) (key : UInt64) :
    s.cleanupLogSubscribers.listed key =
      (s.listed key).filter fun i => s.channels[i]?.any fun c => c.sender.receiving := by
  simp only [listed, cleanupLogSubscribers, HashMap.get_retain, HashMap.get_mapValues]
  cases s.subs.get? key with
  | none => rfl
  | some ids =>
    rw [Option.map_some, Option.filter_some]
    split
    · rfl
    · rename_i empty
      exact (List.isEmpty_iff.mp (by simpa using empty)).symm

theorem Filed.cleanup (filed : s.Filed) : s.cleanupLogSubscribers.Filed := by
  refine ⟨fun key => ?_, fun key i hi => ?_⟩
  · rw [listed_cleanup]
    exact (filed.nodup key).filter _
  · rw [listed_cleanup] at hi
    exact filed.made key i (List.mem_filter.mp hi).1

/-- What the holders of the receivers do leaves the lists as they are. -/
theorem Filed.modify (filed : s.Filed) (i : Nat) (f : LogChannel → LogChannel)
    (keeps : ∀ c, (f c).subscription = c.subscription) :
    Filed { s with channels := s.channels.modify i f } := by
  refine ⟨filed.nodup, fun key k hk => ?_⟩
  obtain ⟨c, hc, hkey⟩ := filed.made key k hk
  refine ⟨_, by rw [List.getElem?_modify, hc]; rfl, ?_⟩
  split
  · rw [keeps, hkey]
  · exact hkey

theorem filed_call (filed : s.Filed) (e : LogCall) : (s.call e).Filed := by
  cases e with
  | subscribeLogs jobId => exact filed.subscribe (.job jobId)
  | subscribeAllLogs => exact filed.subscribe .all
  | broadcastLog jobId data stream => exact (filed.sendUnder jobId _).sendUnder 0 _
  | cleanupLogSubscribers => exact filed.cleanup
  | receive i => exact filed.modify i _ fun _ => rfl
  | dropReceiver i => exact filed.modify i _ fun _ => rfl

theorem filed_run {h : List LogCall} (run : Run LogStep .new h s) : s.Filed := by
  refine run.invariant (fun _ s => s.Filed) ?_ ?_
  · exact ⟨fun _ => List.nodup_nil, fun _ _ hi => nomatch hi⟩
  · intro h s e t _ filed step
    exact step ▸ filed_call filed e

end LogSubscribers

end IrohNix.Build
