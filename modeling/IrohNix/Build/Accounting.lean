import IrohNix.Build.QueueRun

namespace IrohNix.Build
open IrohNix.Lib

def pendingCount (q : BuildQueue) (j : JobId) : Nat := q.pending.countP (fun job => job.id == j)

def leaseCount (q : BuildQueue) (j : JobId) : Nat := (q.leased.get? j).isSome.toNat

def Ledger.jobCount (l : Ledger) (j : JobId) : Nat := l.jobs.countP (fun job => job.id == j)

/-- The queue against the ledger. The sums need the identifiers to be distinct,
so they are claimed only while the counter has not wrapped. -/
structure Accounts (l : Ledger) (q : BuildQueue) : Prop where
  next : q.nextJobId = UInt64.ofNat (1 + l.jobs.length)
  ids : l.jobs.map (fun job => job.id.val) =
    (List.range l.jobs.length).map (fun i => UInt64.ofNat (1 + i))
  pending : ∀ job ∈ q.pending, job ∈ l.jobs
  leased : ∀ j lease, q.leased.get? j = some lease → lease.job ∈ l.jobs ∧ lease.job.id = j
  balance : l.jobs.length < 2 ^ 64 → ∀ j,
    pendingCount q j + leaseCount q j + l.finished.count j = l.jobCount j
  total : l.jobs.length < 2 ^ 64 →
    q.pending.length + q.leased.len + l.finished.length = l.jobs.length

theorem accounts_new (ourId : EndpointId) : Accounts ⟨[], []⟩ (BuildQueue.new ourId) where
  next := rfl
  ids := rfl
  pending := by simp [BuildQueue.new]
  leased := by simp [BuildQueue.new]
  balance := by simp [BuildQueue.new, pendingCount, leaseCount, Ledger.jobCount]
  total := by simp [BuildQueue.new]

theorem id_numbers_nodup (n : Nat) (h : n < 2 ^ 64) :
    ((List.range n).map (fun i => UInt64.ofNat (1 + i))).Nodup := by
  apply List.Nodup.map_on ?_ List.nodup_range
  intro i hi k hk he
  have hi := List.mem_range.mp hi
  have hk := List.mem_range.mp hk
  have := congrArg UInt64.toNat he
  simp only [UInt64.toNat_ofNat'] at this
  omega

theorem Accounts.ids_nodup {l : Ledger} {q : BuildQueue} (a : Accounts l q)
    (hb : l.jobs.length < 2 ^ 64) : (l.jobs.map BuildJob.id).Nodup := by
  apply List.Nodup.of_map JobId.val
  rw [List.map_map]
  exact a.ids ▸ id_numbers_nodup _ hb

theorem Accounts.jobCount_le {l : Ledger} {q : BuildQueue} (a : Accounts l q)
    (hb : l.jobs.length < 2 ^ 64) (j : JobId) : l.jobCount j ≤ 1 := by
  have h := List.nodup_iff_count_le_one.mp (a.ids_nodup hb) j
  rw [List.count, List.countP_map] at h
  exact h

theorem pendingCount_pos {q : BuildQueue} {job : BuildJob} (hj : job ∈ q.pending) :
    0 < pendingCount q job.id := List.countP_pos_iff.mpr ⟨job, hj, by simp⟩

theorem leaseCount_leased {q : BuildQueue} {j : JobId} {lease : LeasedJob}
    (hl : q.leased.get? j = some lease) : leaseCount q j = 1 := by simp [leaseCount, hl]

/-- No identifier is in two places. -/
theorem Accounts.one_place {l : Ledger} {q : BuildQueue} (a : Accounts l q)
    (hb : l.jobs.length < 2 ^ 64) (j : JobId) :
    pendingCount q j + leaseCount q j + l.finished.count j ≤ 1 :=
  a.balance hb j ▸ a.jobCount_le hb j

/-- A job that waits is not leased. -/
theorem Accounts.free_of_pending {l : Ledger} {q : BuildQueue} (a : Accounts l q)
    (hb : l.jobs.length < 2 ^ 64) {job : BuildJob} (hj : job ∈ q.pending) :
    q.leased.get? job.id = none := by
  cases hl : q.leased.get? job.id with
  | none => rfl
  | some lease =>
    have hone := a.one_place hb job.id
    have hpos := pendingCount_pos hj
    have hlease := leaseCount_leased hl
    omega

/-- A job that is finished neither waits nor is leased, and is finished once. -/
theorem Accounts.gone_of_finished {l : Ledger} {q : BuildQueue} (a : Accounts l q)
    (hb : l.jobs.length < 2 ^ 64) {j : JobId} (hf : j ∈ l.finished) :
    (∀ job ∈ q.pending, job.id ≠ j) ∧ q.leased.get? j = none ∧ l.finished.count j = 1 := by
  have hone := a.one_place hb j
  have hpos := List.count_pos_iff.mpr hf
  refine ⟨?_, ?_, by omega⟩
  · intro job hj hid
    have := pendingCount_pos hj
    rw [hid] at this
    omega
  · cases hl : q.leased.get? j with
    | none => rfl
    | some lease =>
      have := leaseCount_leased hl
      omega

theorem Accounts.push {l : Ledger} {q : BuildQueue} (a : Accounts l q) (hashers : Hashers)
    (drvPath : String) (systemFeatures outputs : List String) (inputPaths : List InputPath)
    (timestamp : UInt64) :
    Accounts (l.submit (q.newJob hashers drvPath systemFeatures outputs inputPaths timestamp))
      (q.push hashers drvPath systemFeatures outputs inputPaths timestamp).1 where
  next := by
    simp only [BuildQueue.push, Ledger.submit, a.next, List.length_append, List.length_singleton]
    apply UInt64.toNat_inj.mp
    simp only [UInt64.toNat_add, UInt64.toNat_ofNat', UInt64.toNat_one]
    omega
  ids := by
    simp [Ledger.submit, List.range_succ, a.ids, BuildQueue.newJob, a.next]
  pending := by
    intro job hj
    simp only [BuildQueue.push, List.mem_append] at hj
    rcases hj with hj | hj
    · exact List.mem_append_left _ (a.pending job hj)
    · exact List.mem_append_right _ hj
  leased := by
    intro j lease hl
    obtain ⟨hm, hid⟩ := a.leased j lease hl
    exact ⟨List.mem_append_left _ hm, hid⟩
  balance := by
    intro hb j
    simp only [Ledger.submit, List.length_append, List.length_singleton] at hb
    have := a.balance (by omega) j
    simp only [pendingCount, leaseCount, Ledger.jobCount, Ledger.submit, BuildQueue.push,
      List.countP_append] at this ⊢
    omega
  total := by
    intro hb
    simp only [Ledger.submit, List.length_append, List.length_singleton] at hb
    have := a.total (by omega)
    simp only [Ledger.submit, BuildQueue.push, List.length_append, List.length_singleton]
    omega

/-- A change of the pending queue and the leases that keeps, for every job, the
number of places it is in. -/
theorem Accounts.move {l : Ledger} {q q' : BuildQueue} (a : Accounts l q)
    (hnext : q'.nextJobId = q.nextJobId)
    (hpending : ∀ job ∈ q'.pending, job ∈ l.jobs)
    (hleased : ∀ j lease, q'.leased.get? j = some lease →
      lease.job ∈ l.jobs ∧ lease.job.id = j)
    (hplaces : l.jobs.length < 2 ^ 64 → ∀ j,
      pendingCount q' j + leaseCount q' j = pendingCount q j + leaseCount q j)
    (htotal : l.jobs.length < 2 ^ 64 →
      q'.pending.length + q'.leased.len = q.pending.length + q.leased.len) : Accounts l q' where
  next := hnext.trans a.next
  ids := a.ids
  pending := hpending
  leased := hleased
  balance := fun hb j => by rw [hplaces hb j]; exact a.balance hb j
  total := fun hb => by rw [htotal hb]; exact a.total hb

theorem Accounts.pull {l : Ledger} {q : BuildQueue} (a : Accounts l q) (builder : EndpointId)
    (features : List String) (now : Instant) : Accounts l (q.pull builder features now).1 := by
  rcases q.pull_cases builder features now with ⟨_, hq⟩ | ⟨before, job, after, hp, _, _, hq⟩
  · rw [hq]
    exact a
  · rw [hq]
    have hjob : job ∈ l.jobs := a.pending job (by simp [hp])
    -- a pending job with this identifier leaves no room for a lease under it
    have hfree : l.jobs.length < 2 ^ 64 → q.leased.get? job.id = none :=
      fun hb => a.free_of_pending hb (by simp [hp])
    refine a.move rfl ?_ ?_ ?_ ?_
    · intro k hk
      apply a.pending
      rw [hp]
      rcases List.mem_append.mp hk with hk | hk
      · exact List.mem_append_left _ hk
      · exact List.mem_append_right _ (List.mem_cons_of_mem _ hk)
    · intro j lease hl
      rw [HashMap.get_insert] at hl
      split at hl
      · rename_i he
        cases hl
        exact ⟨hjob, he.symm⟩
      · exact a.leased j lease hl
    · intro hb j
      simp only [pendingCount, leaseCount, hp, List.countP_append, List.countP_cons,
        HashMap.get_insert]
      by_cases he : j = job.id
      · subst he
        simp [hfree hb]
        omega
      · simp [he, Ne.symm he]
    · intro hb
      simp only [HashMap.len_insert_new (hfree hb), hp, List.length_append, List.length_cons]
      omega

theorem Accounts.heartbeat {l : Ledger} {q : BuildQueue} (a : Accounts l q) (jobId : JobId)
    (builder : EndpointId) (status : String) (now : Instant) :
    Accounts l (q.heartbeat jobId builder status now).1 := by
  rcases q.heartbeat_cases jobId builder status now with ⟨hq, _⟩ | ⟨lease, hl, _, hq⟩
  · rw [hq]
    exact a
  · rw [hq]
    refine a.move rfl a.pending ?_ ?_ ?_
    · intro j l' hl'
      rw [HashMap.get_insert] at hl'
      split at hl'
      · rename_i he
        cases hl'
        exact he ▸ a.leased jobId lease hl
      · exact a.leased j l' hl'
    · intro _ j
      simp only [pendingCount, leaseCount, HashMap.get_insert]
      by_cases he : j = jobId
      · simp [he, hl]
      · simp [he]
    · intro _
      simp only [HashMap.len_insert_old hl]

/-- An expired lease returns its job to the queue. -/
theorem Accounts.expire {l : Ledger} {q : BuildQueue} (a : Accounts l q) {jobId : JobId}
    {lease : LeasedJob} (hl : q.leased.get? jobId = some lease) :
    Accounts l (q.expire jobId lease) := by
  obtain ⟨hm, hid⟩ := a.leased jobId lease hl
  refine a.move rfl ?_ ?_ ?_ ?_
  · intro k hk
    rcases List.mem_cons.mp hk with rfl | hk
    · exact hm
    · exact a.pending k hk
  · exact fun j l' hl' => a.leased j l' (HashMap.get_of_erase hl')
  · intro _ j
    simp only [pendingCount, leaseCount, BuildQueue.expire, List.countP_cons,
      HashMap.get_erase]
    by_cases he : j = jobId
    · simp [he, hl, hid]
    · have hne : lease.job.id ≠ j := fun h => he (h.symm.trans hid)
      simp [he, hne]
  · intro _
    have := HashMap.len_erase_some hl
    simp only [BuildQueue.expire, List.length_cons]
    omega

/-- A finished job leaves the leases for the ledger's finished list. -/
theorem Accounts.finish {l : Ledger} {q : BuildQueue} (a : Accounts l q) {jobId : JobId}
    {lease : LeasedJob} (hl : q.leased.get? jobId = some lease)
    (completed : HashMap DrvHash JobOutcome) (pendingFetch : List BuildResult) :
    Accounts (l.finish jobId)
      { q with leased := q.leased.erase jobId, pendingFetch, completed } where
  next := a.next
  ids := a.ids
  pending := a.pending
  leased := fun j l' hl' => a.leased j l' (HashMap.get_of_erase hl')
  balance := by
    intro hb j
    have := a.balance hb j
    simp only [pendingCount, leaseCount, Ledger.finish, Ledger.jobCount, List.count_append,
      HashMap.get_erase] at this ⊢
    by_cases he : j = jobId
    · simp [he, hl] at this ⊢
      omega
    · simpa [he, Ne.symm he] using this
  total := by
    intro hb
    have := a.total hb
    have := HashMap.len_erase_some hl
    simp only [Ledger.finish, List.length_append, List.length_singleton] at *
    omega

theorem Accounts.step {hashers : Hashers} {l : Ledger} {q q' : BuildQueue} {e : QueueEvent}
    (a : Accounts l q) (s : QueueStep hashers q e q') : Accounts (l.record hashers e) q' := by
  unfold Ledger.record
  cases s with
  | push drvPath systemFeatures outputs inputPaths timestamp =>
    simpa [QueueEvent.pushed, QueueEvent.finished, BuildQueue.push, BuildQueue.newJob,
      Ledger.submit] using a.push hashers drvPath systemFeatures outputs inputPaths timestamp
  | pull builder features now =>
    simpa [QueueEvent.pushed, QueueEvent.finished] using a.pull builder features now
  | heartbeat jobId builder status now =>
    simpa [QueueEvent.pushed, QueueEvent.finished] using a.heartbeat jobId builder status now
  | complete jobId builder result =>
    rcases q.complete_cases jobId builder result with ⟨hq, _⟩ | ⟨lease, hl, _, hq⟩
    · simpa [QueueEvent.pushed, QueueEvent.finished, hq] using a
    · simpa [QueueEvent.pushed, QueueEvent.finished, hq, Ledger.finish] using a.finish hl _ _
  | fail jobId builder error =>
    rcases q.fail_cases jobId builder error with ⟨hq, _⟩ | ⟨lease, hl, _, hq⟩
    · simpa [QueueEvent.pushed, QueueEvent.finished, hq] using a
    · simpa [QueueEvent.pushed, QueueEvent.finished, hq, Ledger.finish] using a.finish hl _ _
  | checkTimeouts order now =>
    have := BuildQueue.check_timeouts_induct (fun _ _ _ a hl => Accounts.expire a hl) order now a
    simpa [QueueEvent.pushed, QueueEvent.finished] using this
  | takePendingFetches =>
    have : Accounts l q.takePendingFetches.1 :=
      a.move rfl a.pending a.leased (fun _ _ => rfl) (fun _ => rfl)
    simpa [QueueEvent.pushed, QueueEvent.finished] using this
  | broadcastLog jobId data stream =>
    have : Accounts l (q.broadcastLog jobId data stream) :=
      a.move rfl a.pending a.leased (fun _ _ => rfl) (fun _ => rfl)
    simpa [QueueEvent.pushed, QueueEvent.finished] using this

/-- Accounts that balance go on doing so, whatever is called. -/
theorem accounts_from {hashers : Hashers} {l : Ledger} {q₀ q : BuildQueue} {h : List QueueEvent}
    (a : Accounts l q₀) (run : Run (QueueStep hashers) q₀ h q) :
    Accounts ⟨l.jobs ++ h.filterMap (QueueEvent.pushed hashers), l.finished ++ finishedJobs h⟩
      q := by
  induction run with
  | nil => simpa [finishedJobs] using a
  | snoc run last ih =>
    rw [filterMap_snoc, finishedJobs_snoc, ← List.append_assoc, ← List.append_assoc]
    exact ih.step last

/-- The accounts balance after every run. -/
theorem accounts_run {hashers : Hashers} {ourId : EndpointId} {h : List QueueEvent}
    {q : BuildQueue} (run : QueueRun hashers ourId h q) : Accounts (ledger hashers h) q :=
  accounts_from (accounts_new ourId) run

end IrohNix.Build
