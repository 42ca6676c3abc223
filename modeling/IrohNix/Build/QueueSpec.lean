import IrohNix.Build.Queue

namespace IrohNix.Build.BuildQueue
open IrohNix.Lib

variable {hashers : Hashers} {q : BuildQueue}

/-- Everything a pull can do: nothing when no pending job is offered all it
requires, and otherwise the first such job moves from pending to leased. -/
theorem pull_cases (q : BuildQueue) (builder : EndpointId) (features : List String)
    (now : Instant) :
    ((∀ job ∈ q.pending, job.offeredBy features = false) ∧
      q.pull builder features now = (q, none)) ∨
    ∃ before job after, q.pending = before ++ job :: after ∧
      (∀ j ∈ before, j.offeredBy features = false) ∧ job.offeredBy features = true ∧
      q.pull builder features now =
        ({ q with
            pending := before ++ after
            leased := q.leased.insert job.id ⟨job, builder, now, now, "starting"⟩ },
          some job) := by
  cases hf : q.pending.findIdx? (fun job => job.offeredBy features) with
  | none =>
    left
    refine ⟨?_, by simp [pull, hf]⟩
    intro job hj
    simpa using List.findIdx?_eq_none_iff.mp hf job hj
  | some i =>
    right
    obtain ⟨hi, hjob, hbefore⟩ := List.findIdx?_eq_some_iff_getElem.mp hf
    refine ⟨q.pending.take i, q.pending[i], q.pending.drop (i + 1), ?_, ?_, hjob, ?_⟩
    · rw [List.cons_getElem_drop_succ, List.take_append_drop]
    · intro j hj
      obtain ⟨k, hk, rfl⟩ := List.mem_take_iff_getElem.mp hj
      simpa using hbefore k (by omega)
    · simp [pull, hf, hi, List.eraseIdx_eq_take_drop_succ]

/-- A pull takes the first job that is offered all it requires. -/
theorem pull_first {before after : List BuildJob} {job : BuildJob} {features : List String}
    (pending : q.pending = before ++ job :: after)
    (passed : ∀ j ∈ before, j.offeredBy features = false)
    (offered : job.offeredBy features = true) (builder : EndpointId) (now : Instant) :
    q.pull builder features now =
      ({ q with
          pending := before ++ after
          leased := q.leased.insert job.id ⟨job, builder, now, now, "starting"⟩ },
        some job) := by
  have skipped : before.findIdx? (fun job => job.offeredBy features) = none :=
    List.findIdx?_eq_none_iff.mpr passed
  have found : q.pending.findIdx? (fun job => job.offeredBy features) = some before.length := by
    rw [pending, List.findIdx?_append, skipped, List.findIdx?_cons]
    simp [offered]
  simp only [pull, found]
  simp [pending, List.eraseIdx_append_of_length_le]

theorem pull_none {builder : EndpointId} {features : List String} {now : Instant}
    (unmatched : (q.pull builder features now).2 = none) :
    ∀ job ∈ q.pending, job.offeredBy features = false := by
  rcases q.pull_cases builder features now with ⟨none, _⟩ | ⟨_, _, _, _, _, _, hq⟩
  · exact none
  · rw [hq] at unmatched
    cases unmatched

/-- A heartbeat is accepted from the lease's holder alone. -/
theorem heartbeat_cases (q : BuildQueue) (jobId : JobId) (builder : EndpointId)
    (status : String) (now : Instant) :
    (q.heartbeat jobId builder status now = (q, false) ∧
      ∀ lease, q.leased.get? jobId = some lease → lease.builder ≠ builder) ∨
    ∃ lease, q.leased.get? jobId = some lease ∧ lease.builder = builder ∧
      q.heartbeat jobId builder status now =
        ({ q with leased := q.leased.insert jobId { lease with lastHeartbeat := now, status } },
          true) := by
  cases hl : q.leased.get? jobId with
  | none => exact .inl ⟨by simp [heartbeat, hl], by simp⟩
  | some lease =>
    by_cases hb : lease.builder = builder
    · exact .inr ⟨lease, rfl, hb, by simp [heartbeat, hl, hb]⟩
    · left
      refine ⟨by simp [heartbeat, hl, hb], ?_⟩
      intro l h
      cases h
      exact hb

/-- A completion is accepted from the lease's holder alone; a refused one puts
the lease back exactly. -/
theorem complete_cases (q : BuildQueue) (jobId : JobId) (builder : EndpointId)
    (result : BuildResult) :
    (q.complete jobId builder result = (q, false) ∧
      ∀ lease, q.leased.get? jobId = some lease → lease.builder ≠ builder) ∨
    ∃ lease, q.leased.get? jobId = some lease ∧ lease.builder = builder ∧
      q.complete jobId builder result =
        ({ q with
            leased := q.leased.erase jobId
            pendingFetch := q.pendingFetch ++ [result]
            completed := q.completed.insert lease.job.drvHash (.completed result) },
          true) := by
  cases hl : q.leased.get? jobId with
  | none => exact .inl ⟨by simp [complete, hl], by simp⟩
  | some lease =>
    by_cases hb : lease.builder = builder
    · exact .inr ⟨lease, rfl, hb, by simp [complete, hl, hb]⟩
    · left
      refine ⟨by simp [complete, hl, hb, HashMap.erase_insert_same hl], ?_⟩
      intro l h
      cases h
      exact hb

theorem complete_refused {q' : BuildQueue} {jobId : JobId} {builder : EndpointId}
    {result : BuildResult} (h : q.complete jobId builder result = (q', false)) : q' = q := by
  rcases q.complete_cases jobId builder result with ⟨hq, _⟩ | ⟨_, _, _, hq⟩ <;>
    cases hq.symm.trans h
  rfl

theorem fail_cases (q : BuildQueue) (jobId : JobId) (builder : EndpointId) (error : String) :
    (q.fail jobId builder error = (q, false) ∧
      ∀ lease, q.leased.get? jobId = some lease → lease.builder ≠ builder) ∨
    ∃ lease, q.leased.get? jobId = some lease ∧ lease.builder = builder ∧
      q.fail jobId builder error =
        ({ q with
            leased := q.leased.erase jobId
            completed := q.completed.insert lease.job.drvHash (.failed builder error) },
          true) := by
  cases hl : q.leased.get? jobId with
  | none => exact .inl ⟨by simp [fail, hl], by simp⟩
  | some lease =>
    by_cases hb : lease.builder = builder
    · exact .inr ⟨lease, rfl, hb, by simp [fail, hl, hb]⟩
    · left
      refine ⟨by simp [fail, hl, hb, HashMap.erase_insert_same hl], ?_⟩
      intro l h
      cases h
      exact hb

theorem fail_refused {q' : BuildQueue} {jobId : JobId} {builder : EndpointId} {error : String}
    (h : q.fail jobId builder error = (q', false)) : q' = q := by
  rcases q.fail_cases jobId builder error with ⟨hq, _⟩ | ⟨_, _, _, hq⟩ <;> cases hq.symm.trans h
  rfl

section Pending

/-- Calls on the leases do not see the pending jobs. -/
theorem heartbeat_pending (q : BuildQueue) (jobs : List BuildJob) (jobId : JobId)
    (builder : EndpointId) (status : String) (now : Instant) :
    { q with pending := jobs }.heartbeat jobId builder status now =
      ({ (q.heartbeat jobId builder status now).1 with pending := jobs },
        (q.heartbeat jobId builder status now).2) := by
  simp only [heartbeat]
  split
  · rfl
  · split <;> rfl

theorem complete_pending (q : BuildQueue) (jobs : List BuildJob) (jobId : JobId)
    (builder : EndpointId) (result : BuildResult) :
    { q with pending := jobs }.complete jobId builder result =
      ({ (q.complete jobId builder result).1 with pending := jobs },
        (q.complete jobId builder result).2) := by
  simp only [complete]
  split
  · rfl
  · split <;> rfl

theorem fail_pending (q : BuildQueue) (jobs : List BuildJob) (jobId : JobId)
    (builder : EndpointId) (error : String) :
    { q with pending := jobs }.fail jobId builder error =
      ({ (q.fail jobId builder error).1 with pending := jobs },
        (q.fail jobId builder error).2) := by
  simp only [fail]
  split
  · rfl
  · split <;> rfl

end Pending

/-- One expired lease returned to the front of the queue. -/
def expire (q : BuildQueue) (jobId : JobId) (lease : LeasedJob) : BuildQueue :=
  { q with pending := lease.job :: q.pending, leased := q.leased.erase jobId }

theorem visit_leases_induct {now : Instant} {P : BuildQueue → Prop}
    (step : ∀ q jobId lease, P q → q.leased.get? jobId = some lease → P (q.expire jobId lease))
    (items : List (JobId × LeasedJob)) (nodup : (items.map Prod.fst).Nodup)
    (acc : BuildQueue × List JobId)
    (held : ∀ e ∈ items, acc.1.leased.get? e.1 = some e.2) (start : P acc.1) :
    P (items.foldl (visitLease now) acc).1 := by
  induction items generalizing acc with
  | nil => exact start
  | cons e items ih =>
    obtain ⟨q, timedOut⟩ := acc
    obtain ⟨jobId, lease⟩ := e
    simp only [List.map_cons, List.nodup_cons] at nodup
    obtain ⟨hnew, hrest⟩ := nodup
    have hlease := held (jobId, lease) List.mem_cons_self
    rw [List.foldl_cons]
    apply ih hrest
    · intro e he
      have hne : e.1 ≠ jobId := fun h => hnew (h ▸ List.mem_map.mpr ⟨e, he, rfl⟩)
      have hold := held e (List.mem_cons_of_mem _ he)
      simp only [visitLease]
      split
      · simpa [HashMap.get_erase, hne] using hold
      · exact hold
    · simp only [visitLease]
      split
      · exact step q jobId lease start hlease
      · exact start

/-- What returning one lease preserves, a call of `check_timeouts` preserves, in
whatever order it visits the leases. -/
theorem check_timeouts_induct {P : BuildQueue → Prop}
    (step : ∀ q jobId lease, P q → q.leased.get? jobId = some lease → P (q.expire jobId lease))
    (order : q.leased.Iter) (now : Instant) (start : P q) : P (q.checkTimeouts order now).1 :=
  visit_leases_induct step order.items order.nodup (q, [])
    (fun e he => (order.mem_iff e.1 e.2).mp he) start

/-- The leases whose holder has been silent for too long, in the order they are visited. -/
def expired (q : BuildQueue) (order : q.leased.Iter) (now : Instant) :
    List (JobId × LeasedJob) :=
  order.items.filter fun e => jobLeaseTimeout < now - e.2.lastHeartbeat

theorem visitLease_foldl (now : Instant) (items : List (JobId × LeasedJob)) (q : BuildQueue)
    (timedOut : List JobId) :
    items.foldl (visitLease now) (q, timedOut) =
      ({ q with
          pending := ((items.filter fun e => jobLeaseTimeout < now - e.2.lastHeartbeat).map
            (·.2.job)).reverse ++ q.pending
          leased := ((items.filter fun e => jobLeaseTimeout < now - e.2.lastHeartbeat).map
            Prod.fst).foldl (fun leased jobId => leased.erase jobId) q.leased },
        timedOut ++ (items.filter fun e => jobLeaseTimeout < now - e.2.lastHeartbeat).map
          Prod.fst) := by
  induction items generalizing q timedOut with
  | nil => simp
  | cons e items ih =>
    rw [List.foldl_cons]
    by_cases silent : jobLeaseTimeout < now - e.2.lastHeartbeat
    · rw [List.filter_cons_of_pos (by simpa using silent)]
      simp only [visitLease, if_pos silent, ih]
      simp
    · rw [List.filter_cons_of_neg (by simpa using silent)]
      simp only [visitLease, if_neg silent, ih]

/-- The expired jobs come to the front, the last one that is visited first. -/
theorem checkTimeouts_eq (q : BuildQueue) (order : q.leased.Iter) (now : Instant) :
    q.checkTimeouts order now =
      ({ q with
          pending := ((q.expired order now).map (·.2.job)).reverse ++ q.pending
          leased := ((q.expired order now).map Prod.fst).foldl
            (fun leased jobId => leased.erase jobId) q.leased },
        (q.expired order now).map Prod.fst) :=
  visitLease_foldl now order.items q []

theorem mem_expired {order : q.leased.Iter} {now : Instant} {jobId : JobId} {lease : LeasedJob} :
    (jobId, lease) ∈ q.expired order now ↔
      q.leased.get? jobId = some lease ∧ jobLeaseTimeout < now - lease.lastHeartbeat := by
  rw [expired, List.mem_filter, order.mem_iff, decide_eq_true_iff]

end IrohNix.Build.BuildQueue
