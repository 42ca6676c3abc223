import IrohNix.Build.LogSubscribers

namespace IrohNix.Build
open IrohNix.Lib

theorem LogSender.accepts_iff {tx : LogSender} :
    tx.accepts = true ↔ tx.receiving = true ∧ tx.buffered.length < 256 := by
  simp [accepts]

theorem LogChannel.offer_of_accepts {c : LogChannel} (accepts : c.sender.accepts = true)
    (entry : LogEntry) : c.offer entry = c.push entry := if_pos accepts

/-- A copy more is another channel. -/
theorem LogChannel.push_ne (c : LogChannel) (entry : LogEntry) : c.push entry ≠ c := by
  intro same
  have := congrArg (fun c => c.sender.buffered.length) same
  simp [push] at this

theorem Subscription.Wants.key {subscription : Subscription} {jobId : UInt64}
    (wants : subscription.Wants jobId) : subscription.key = jobId ∨ subscription.key = 0 := by
  cases subscription with
  | job wanted => exact .inl wants
  | all => exact .inr rfl

theorem Subscription.wants_zero {subscription : Subscription} (zero : subscription.key = 0) :
    subscription.Wants 0 := by
  cases subscription with
  | job wanted => exact zero
  | all => trivial

namespace LogSubscribers

/-- The channel of a subscription that is still on its list. -/
def Registered (s : LogSubscribers) (i : Nat) (c : LogChannel) : Prop :=
  s.channels[i]? = some c ∧ i ∈ s.listed c.subscription.key

/-- A broadcast hands one copy to each registered subscriber that wants it, is open and has
room for two, and nothing to those who do not want it. -/
structure DeliversOnce (s : LogSubscribers) (jobId : UInt64) (data : Bytes) (stream : UInt8) :
    Prop where
  wanted : ∀ i c, s.Registered i c → c.subscription.Wants jobId → c.sender.receiving = true →
    c.sender.buffered.length + 2 ≤ 256 →
    (s.broadcastLog jobId data stream).channels[i]? = some (c.push ⟨jobId, data, stream⟩)
  unwanted : ∀ i c, s.channels[i]? = some c →
    ¬ (s.Registered i c ∧ c.subscription.Wants jobId) →
    (s.broadcastLog jobId data stream).channels[i]? = some c

/-- No open subscriber could be reached by way of the key 0 alone: for job 0, by two sends to
one list; for another job, as a subscriber to job 0. -/
def ZeroUnheard (s : LogSubscribers) (jobId : UInt64) : Prop :=
  ∀ i c, s.Registered i c → c.sender.receiving = true →
    (jobId = 0 → c.subscription.key = 0 → 256 < c.sender.buffered.length + 2) ∧
      (jobId ≠ 0 → c.subscription = .job 0 → 256 ≤ c.sender.buffered.length)

variable {s : LogSubscribers}

/-- A registered subscriber is on one of the two lists the entries it wants are sent to. -/
theorem Registered.listed_of_wants {i : Nat} {c : LogChannel} {jobId : UInt64}
    (registered : s.Registered i c) (wants : c.subscription.Wants jobId) :
    i ∈ s.listed jobId ∨ i ∈ s.listed 0 := by
  rcases wants.key with hkey | hkey
  · exact .inl (hkey ▸ registered.2)
  · exact .inr (hkey ▸ registered.2)

theorem Filed.registered (filed : s.Filed) {i : Nat} {c : LogChannel} {key : UInt64}
    (hc : s.channels[i]? = some c) (listed : i ∈ s.listed key) :
    s.Registered i c ∧ c.subscription.key = key := by
  obtain ⟨c', hc', hkey⟩ := filed.made key i listed
  cases hc.symm.trans hc'
  exact ⟨⟨hc, hkey ▸ listed⟩, hkey⟩

theorem delivers_once_zero (filed : s.Filed) (data : Bytes) (stream : UInt8) :
    s.DeliversOnce 0 data stream ↔ s.ZeroUnheard 0 := by
  have sent := broadcast_zero_channels filed data stream
  constructor
  · intro once i c registered receiving
    refine ⟨fun _ zero => ?_, fun other => absurd rfl other⟩
    by_contra room
    have accepts : c.sender.accepts = true := LogSender.accepts_iff.mpr ⟨receiving, by omega⟩
    have again : (c.push ⟨0, data, stream⟩).sender.accepts = true := by
      refine LogSender.accepts_iff.mpr ⟨receiving, ?_⟩
      simp only [LogChannel.push, List.length_append, List.length_singleton]
      omega
    have one := once.wanted i c registered (Subscription.wants_zero zero) receiving (by omega)
    rw [sent, registered.1, Option.map_some, if_pos ⟨zero ▸ registered.2, accepts⟩,
      LogChannel.offer_of_accepts again] at one
    exact LogChannel.push_ne _ _ (Option.some.inj one)
  · intro unheard
    refine ⟨fun i c registered wants receiving room => ?_, fun i c hc unwanted => ?_⟩
    · have zero : c.subscription.key = 0 := wants.key.elim id id
      have := (unheard i c registered receiving).1 rfl zero
      omega
    · rw [sent, hc, Option.map_some, if_neg]
      intro h
      obtain ⟨registered, zero⟩ := filed.registered hc h.1
      exact unwanted ⟨registered, Subscription.wants_zero zero⟩

theorem delivers_once_other (filed : s.Filed) {jobId : UInt64} (other : jobId ≠ 0) (data : Bytes)
    (stream : UInt8) : s.DeliversOnce jobId data stream ↔ s.ZeroUnheard jobId := by
  have sent := broadcast_channels filed other data stream
  constructor
  · intro once i c registered receiving
    refine ⟨fun zero => absurd zero other, fun _ jobZero => ?_⟩
    by_contra room
    have accepts : c.sender.accepts = true := LogSender.accepts_iff.mpr ⟨receiving, by omega⟩
    have listed : i ∈ s.listed 0 := by
      have listed := registered.2
      rw [jobZero] at listed
      exact listed
    have none := once.unwanted i c registered.1 fun h => by
      have wants := h.2
      rw [jobZero] at wants
      exact other wants.symm
    rw [sent, registered.1, Option.map_some, if_pos (.inr listed),
      LogChannel.offer_of_accepts accepts] at none
    exact LogChannel.push_ne _ _ (Option.some.inj none)
  · intro unheard
    refine ⟨fun i c registered wants receiving room => ?_, fun i c hc unwanted => ?_⟩
    · have listed := registered.listed_of_wants wants
      rw [sent, registered.1, Option.map_some, if_pos listed, LogChannel.offer_of_accepts]
      exact LogSender.accepts_iff.mpr ⟨receiving, by omega⟩
    · rw [sent, hc, Option.map_some]
      refine congrArg some ((ite_eq_right_iff).mpr fun listed => if_neg fun accepts => ?_)
      obtain ⟨receiving, room⟩ := LogSender.accepts_iff.mp accepts
      rcases listed with listed | listed
      · obtain ⟨registered, key⟩ := filed.registered hc listed
        refine unwanted ⟨registered, ?_⟩
        cases hs : c.subscription with
        | job wanted =>
          rw [hs] at key
          exact key
        | all => trivial
      · obtain ⟨registered, key⟩ := filed.registered hc listed
        cases hs : c.subscription with
        | job wanted =>
          rw [hs] at key
          have := (unheard i c registered receiving).2 other (hs.trans (congrArg _ key))
          omega
        | all => exact unwanted ⟨registered, hs ▸ trivial⟩

/-- Whatever was subscribed, sent, read and dropped before, a broadcast delivers once exactly
where the wildcard key 0 is not a job's own. -/
theorem delivers_once_iff (h : List LogCall) (s : LogSubscribers) (run : Run LogStep .new h s)
    (jobId : UInt64) (data : Bytes) (stream : UInt8) :
    s.DeliversOnce jobId data stream ↔ s.ZeroUnheard jobId := by
  by_cases zero : jobId = 0
  · exact zero ▸ delivers_once_zero (filed_run run) data stream
  · exact delivers_once_other (filed_run run) zero data stream

section OneSubscriber

/-- One subscriber to all jobs, with an empty channel. -/
theorem one_subscriber_run :
    Run LogStep .new [.subscribeAllLogs] (LogSubscribers.new.subscribe .all) :=
  .snoc .nil rfl

theorem delivers_once_one_subscriber :
    DeliversOnce (LogSubscribers.new.subscribe .all) 1 [104, 105] 1 := by
  refine (delivers_once_iff _ _ one_subscriber_run 1 [104, 105] 1).mpr fun i c registered _ => ?_
  refine ⟨fun zero => absurd zero (by decide), fun _ job => ?_⟩
  cases i with
  | zero =>
    cases registered.1
    cases job
  | succ i => cases registered.1

/-- An entry for job 0 reaches the subscriber to all jobs twice. -/
theorem job_zero_twice : ∃ h s, Run LogStep .new h s ∧
    (∀ i c, s.Registered i c → c.sender.receiving = true ∧ c.sender.buffered.length + 2 ≤ 256) ∧
      (s.broadcastLog 0 [104, 105] 1).channels[0]?.map (·.sender.buffered) =
        some [⟨0, [104, 105], 1⟩, ⟨0, [104, 105], 1⟩] ∧
      ¬ s.DeliversOnce 0 [104, 105] 1 := by
  refine ⟨_, _, one_subscriber_run, fun i c registered => ?_, rfl, fun once => ?_⟩
  · cases i with
    | zero =>
      cases registered.1
      decide
    | succ i => cases registered.1
  · have one := once.wanted 0 ⟨.all, ⟨[], true⟩⟩ ⟨rfl, List.mem_singleton_self _⟩ trivial rfl
      (by decide)
    cases one

end OneSubscriber

end LogSubscribers

end IrohNix.Build
