import IrohNix.Build.LogDelivery

namespace IrohNix.Build.LogSubscribers
open IrohNix.Lib

variable {s : LogSubscribers}

/-- Every subscriber whose receiver still exists is registered. -/
def OpenRegistered (s : LogSubscribers) : Prop :=
  ∀ i c, s.channels[i]? = some c → c.sender.receiving = true → s.Registered i c

/-- No channel the entry is sent to is full, or would be after the first of the two sends of an
entry for job 0. -/
def LeavesRoom (_ : List LogCall) (s : LogSubscribers) : LogCall → Prop
  | .broadcastLog jobId _ _ =>
    ∀ i c, s.Registered i c → c.sender.receiving = true →
      c.subscription.key = jobId ∨ c.subscription.key = 0 →
      c.sender.buffered.length + (if jobId = 0 then 2 else 1) ≤ 256
  | _ => True

/-- A broadcast keeps a registered subscriber if its channel has room for what it is sent. -/
theorem registered_broadcast (filed : s.Filed) (jobId : UInt64) (data : Bytes) (stream : UInt8)
    {i : Nat} {c : LogChannel} (registered : s.Registered i c)
    (receiving : c.sender.receiving = true) :
    i ∈ (s.broadcastLog jobId data stream).listed c.subscription.key ↔
      (c.subscription.key = jobId ∨ c.subscription.key = 0 →
        c.sender.buffered.length + (if jobId = 0 then 2 else 1) ≤ 256) := by
  by_cases zero : jobId = 0
  · subst zero
    rw [broadcast_zero_listed filed data stream registered.1, and_iff_right registered.2]
    simp only [LogSender.accepts_iff, LogChannel.push, receiving, List.length_append,
      List.length_singleton, or_self, if_true, true_and]
    exact imp_congr_right fun _ => by omega
  · rw [broadcast_listed filed zero data stream registered.1, and_iff_right registered.2]
    simp only [LogSender.accepts_iff, receiving, if_neg zero, true_and]
    exact imp_congr_right fun _ => by omega

theorem open_registered_broadcast (filed : s.Filed) (all : s.OpenRegistered) (h : List LogCall)
    (jobId : UInt64) (data : Bytes) (stream : UInt8) :
    (s.broadcastLog jobId data stream).OpenRegistered ↔
      LeavesRoom h s (.broadcastLog jobId data stream) := by
  obtain ⟨g, kept, channels⟩ := broadcast_keeps filed jobId data stream
  constructor
  · intro after i c registered receiving
    have hc : (s.broadcastLog jobId data stream).channels[i]? = some (g i c) := by
      rw [channels, registered.1, Option.map_some]
    have still := (after i _ hc ((kept i c).2 ▸ receiving)).2
    rw [(kept i c).1] at still
    exact (registered_broadcast filed jobId data stream registered receiving).mp still
  · intro room i c' hc' receiving'
    have hc := hc'
    rw [channels, Option.map_eq_some_iff] at hc
    obtain ⟨c, hc, rfl⟩ := hc
    have receiving : c.sender.receiving = true := (kept i c).2 ▸ receiving'
    have registered := all i c hc receiving
    refine ⟨hc', ?_⟩
    rw [(kept i c).1]
    exact (registered_broadcast filed jobId data stream registered receiving).mpr
      (room i c registered receiving)

theorem OpenRegistered.subscribe (all : s.OpenRegistered) (subscription : Subscription) :
    (s.subscribe subscription).OpenRegistered := by
  intro i c hc receiving
  refine ⟨hc, ?_⟩
  rw [subscribe_listed]
  have hc : (s.channels ++ [⟨subscription, ⟨[], true⟩⟩])[i]? = some c := hc
  rw [List.getElem?_append] at hc
  split at hc
  · have old := (all i c hc receiving).2
    split
    · exact List.mem_append_left _ old
    · exact old
  · obtain ⟨bound, rfl⟩ := List.getElem?_eq_some_iff.mp hc
    have last : i = s.channels.length := by
      simp only [List.length_singleton] at bound
      omega
    simp [last]

theorem OpenRegistered.cleanup (all : s.OpenRegistered) :
    s.cleanupLogSubscribers.OpenRegistered := by
  intro i c hc receiving
  refine ⟨hc, ?_⟩
  have hc : s.channels[i]? = some c := hc
  rw [listed_cleanup, List.mem_filter]
  exact ⟨(all i c hc receiving).2, by simpa [hc] using receiving⟩

/-- The holders of receivers do not open a channel that was closed. -/
theorem OpenRegistered.modify (all : s.OpenRegistered) (k : Nat) (f : LogChannel → LogChannel)
    (keeps : ∀ c, (f c).subscription = c.subscription)
    (closes : ∀ c, (f c).sender.receiving = true → c.sender.receiving = true) :
    OpenRegistered { s with channels := s.channels.modify k f } := by
  intro i c hc receiving
  refine ⟨hc, ?_⟩
  obtain ⟨before, hbefore, rfl⟩ :=
    Option.map_eq_some_iff.mp ((List.getElem?_modify ..).symm.trans hc)
  by_cases here : k = i
  · simp only [if_pos here] at receiving ⊢
    rw [keeps]
    exact (all i before hbefore (closes before receiving)).2
  · simp only [if_neg here] at receiving ⊢
    exact (all i before hbefore receiving).2

theorem open_registered_step {h : List LogCall} {e : LogCall} {t : LogSubscribers} (filed : s.Filed)
    (all : s.OpenRegistered) (step : LogStep s e t) : t.OpenRegistered ↔ LeavesRoom h s e := by
  subst step
  cases e with
  | subscribeLogs jobId => exact iff_of_true (all.subscribe (.job jobId)) trivial
  | subscribeAllLogs => exact iff_of_true (all.subscribe .all) trivial
  | broadcastLog jobId data stream => exact open_registered_broadcast filed all h jobId data stream
  | cleanupLogSubscribers => exact iff_of_true all.cleanup trivial
  | receive i => exact iff_of_true (all.modify i _ (fun _ => rfl) fun _ => id) trivial
  | dropReceiver i => exact iff_of_true (all.modify i _ (fun _ => rfl) nofun) trivial

/-- A registered subscriber with room gets what is broadcast for its job. -/
theorem broadcast_reaches (filed : s.Filed) {jobId : UInt64} {i : Nat} {c : LogChannel}
    (registered : s.Registered i c) (receiving : c.sender.receiving = true)
    (wants : c.subscription.Wants jobId) (room : c.sender.buffered.length < 256) (data : Bytes)
    (stream : UInt8) : ∃ c', (s.broadcastLog jobId data stream).channels[i]? = some c' ∧
      c.sender.buffered ++ [⟨jobId, data, stream⟩] <+: c'.sender.buffered := by
  have accepts := LogSender.accepts_iff.mpr ⟨receiving, room⟩
  have listed := registered.listed_of_wants wants
  by_cases zero : jobId = 0
  · subst zero
    refine ⟨_, by rw [broadcast_zero_channels filed, registered.1, Option.map_some], ?_⟩
    rw [if_pos ⟨listed.elim id id, accepts⟩]
    unfold LogChannel.offer
    split
    · exact List.prefix_append _ _
    · exact List.prefix_rfl
  · refine ⟨_, by rw [broadcast_channels filed zero, registered.1, Option.map_some], ?_⟩
    rw [if_pos listed, LogChannel.offer_of_accepts accepts]
    exact List.prefix_rfl

/-- While every broadcast leaves room in the channels it reaches, no subscriber that can still
read is cut off; and the first that does not cuts one off. -/
theorem open_kept_while_room (h : List LogCall) (s : LogSubscribers)
    (run : RunWhile LeavesRoom LogStep .new h s) :
    (∀ i c, s.channels[i]? = some c → c.sender.receiving = true → s.Registered i c ∧
      ∀ jobId data stream, c.subscription.Wants jobId → c.sender.buffered.length < 256 →
        ∃ c', (s.broadcastLog jobId data stream).channels[i]? = some c' ∧
          c.sender.buffered ++ [⟨jobId, data, stream⟩] <+: c'.sender.buffered) ∧
      ∀ e t, LogStep s e t → (t.OpenRegistered ↔ LeavesRoom h s e) := by
  have filed := filed_run run.run
  have all : s.OpenRegistered := by
    refine run.invariant (fun _ s => s.OpenRegistered) (fun _ _ hc => nomatch hc) ?_
    intro h s e t run all room step
    exact (open_registered_step (filed_run run) all step).mpr room
  refine ⟨fun i c hc receiving => ⟨all i c hc receiving, ?_⟩, fun e t => ?_⟩
  · intro jobId data stream wants room
    exact broadcast_reaches filed (all i c hc receiving) receiving wants room data stream
  · exact open_registered_step filed all

section Burst

def line : LogEntry := ⟨1, [104, 105], 1⟩

/-- The line's job is not the key of the subscribers to all. -/
theorem line_job : (1 : UInt64) ≠ 0 := by decide

theorem open_kept_one_line : ∃ h s, RunWhile LeavesRoom LogStep .new h s ∧ h.length = 2 ∧
    ∀ i c, s.channels[i]? = some c → c.sender.receiving = true → s.Registered i c := by
  have start : RunWhile LeavesRoom LogStep .new [] .new := .nil
  have subscribed : RunWhile LeavesRoom LogStep .new [.subscribeLogs 1] (new.subscribeLogs 1) :=
    start.snoc rfl trivial
  have room : LeavesRoom [.subscribeLogs 1] (new.subscribeLogs 1)
      (.broadcastLog 1 [104, 105] 1) := by
    intro i c registered _ _
    cases i with
    | zero =>
      cases registered.1
      decide
    | succ i => cases registered.1
  have run := subscribed.snoc rfl room
  exact ⟨_, _, run, rfl, fun i c hc receiving =>
    ((open_kept_while_room _ _ run).1 i c hc receiving).1⟩

theorem line_accepts {n : Nat} :
    (⟨List.replicate n line, true⟩ : LogSender).accepts = true ↔ n < 256 := by
  rw [LogSender.accepts_iff, List.length_replicate]
  exact and_iff_right rfl

/-- Some lines nobody reads yet. -/
theorem burst_run (n : Nat) (fits : n ≤ 256) : ∃ h s, Run LogStep .new h s ∧
    s.channels[0]? = some ⟨.job 1, ⟨List.replicate n line, true⟩⟩ ∧ 0 ∈ s.listed 1 := by
  induction n with
  | zero =>
    have run : Run LogStep .new [.subscribeLogs 1] (new.subscribeLogs 1) := Run.nil.snoc rfl
    exact ⟨_, _, run, rfl, List.mem_singleton_self _⟩
  | succ n ih =>
    obtain ⟨h, s, run, hc, listed⟩ := ih (by omega)
    have accepts := line_accepts.mpr (show n < 256 by omega)
    have filed := filed_run run
    have sent : Run LogStep .new (h ++ [.broadcastLog 1 [104, 105] 1])
      (s.broadcastLog 1 [104, 105] 1) := run.snoc rfl
    refine ⟨_, _, sent, ?_, ?_⟩
    · rw [broadcast_channels filed line_job, hc, Option.map_some, if_pos (.inl listed),
        LogChannel.offer_of_accepts accepts, List.replicate_succ']
      rfl
    · exact (broadcast_listed filed line_job _ _ hc 1).mpr ⟨listed, fun _ => accepts⟩

/-- After 257 lines before it reads, a subscriber that then reads gets nothing of its job. -/
theorem slow_reader_cut_off : ∃ h s c, Run LogStep .new h s ∧ s.channels[0]? = some c ∧
    c.subscription = .job 1 ∧ c.sender.receiving = true ∧ c.sender.buffered.length = 255 ∧
      ¬ s.Registered 0 c ∧ (s.broadcastLog 1 [104, 105] 1).channels[0]? = some c := by
  obtain ⟨h, s, run, hc, listed⟩ := burst_run 256 (Nat.le_refl _)
  have refuses := mt line_accepts.mp (Nat.lt_irrefl 256)
  have full : Run LogStep .new (h ++ [.broadcastLog 1 [104, 105] 1])
    (s.broadcastLog 1 [104, 105] 1) := run.snoc rfl
  have gone : 0 ∉ (s.broadcastLog 1 [104, 105] 1).listed 1 := fun still =>
    refuses (((broadcast_listed (filed_run run) line_job _ _ hc 1).mp still).2 (.inl rfl))
  have same : (s.broadcastLog 1 [104, 105] 1).channels[0]? =
      some ⟨.job 1, ⟨List.replicate 256 line, true⟩⟩ := by
    rw [broadcast_channels (filed_run run) line_job, hc, Option.map_some, if_pos (.inl listed),
      LogChannel.offer, if_neg refuses]
  have read : Run LogStep .new (h ++ [.broadcastLog 1 [104, 105] 1] ++ [.receive 0])
    ((s.broadcastLog 1 [104, 105] 1).receive 0) := full.snoc rfl
  have hread : ((s.broadcastLog 1 [104, 105] 1).receive 0).channels[0]? =
      some ⟨.job 1, ⟨(List.replicate 256 line).tail, true⟩⟩ := by
    rw [receive, List.getElem?_modify_eq, same]
    rfl
  refine ⟨_, _, _, read, hread, rfl, rfl, ?_, fun registered => gone registered.2, ?_⟩
  · rw [List.length_tail, List.length_replicate]
  · rw [broadcast_channels (filed_run read) line_job, hread, Option.map_some, if_neg]
    intro h
    rcases h with h | h
    · exact gone h
    · exact line_job ((filed_run read).registered hread h).2

end Burst

end IrohNix.Build.LogSubscribers
