import IrohNix.Build.Accounting

namespace IrohNix.Build
open IrohNix.Lib

/-- `usize` subtraction: `none` where it would underflow. -/
def checkedSub (a b : Nat) : Option Nat := if b ≤ a then some (a - b) else none

/-- The number of finished builds `build_push` prints. -/
def buildProgress (totalJobs : Nat) (stats : QueueStats) : Option Nat := do
  let rest ← checkedSub totalJobs stats.pendingCount
  checkedSub rest stats.leasedCount

theorem build_progress_some {totalJobs n : Nat} {stats : QueueStats}
    (h : stats.pendingCount + stats.leasedCount + n = totalJobs) :
    buildProgress totalJobs stats = some n := by
  simp only [buildProgress, checkedSub]
  rw [if_pos (by omega), Option.bind_eq_bind, Option.bind_some, if_pos (by omega)]
  congr 1
  omega

/-- The job waits in the queue, once, and is nowhere else. -/
def WaitsOnce (l : Ledger) (q : BuildQueue) (job : BuildJob) : Prop :=
  job ∈ q.pending ∧ pendingCount q job.id = 1 ∧ q.leased.get? job.id = none ∧
    l.finished.count job.id = 0

/-- The job is leased under its own identifier and is nowhere else. -/
def LeasedOnce (l : Ledger) (q : BuildQueue) (job : BuildJob) : Prop :=
  pendingCount q job.id = 0 ∧
    (∃ lease, q.leased.get? job.id = some lease ∧ lease.job = job) ∧ l.finished.count job.id = 0

/-- The job was reported finished once and is nowhere else. -/
def FinishedOnce (l : Ledger) (q : BuildQueue) (job : BuildJob) : Prop :=
  pendingCount q job.id = 0 ∧ q.leased.get? job.id = none ∧ l.finished.count job.id = 1

/-- No job is lost, duplicated or finished twice. -/
structure JobsConserved (l : Ledger) (q : BuildQueue) : Prop where
  distinct : (l.jobs.map BuildJob.id).Nodup
  placed : ∀ job ∈ l.jobs, WaitsOnce l q job ∨ LeasedOnce l q job ∨ FinishedOnce l q job
  pendingPushed : ∀ job ∈ q.pending, job ∈ l.jobs
  leasedPushed : ∀ j lease, q.leased.get? j = some lease →
    lease.job ∈ l.jobs ∧ lease.job.id = j
  bounded : q.pending.length + q.leased.len ≤ l.jobs.length
  progress : buildProgress l.jobs.length q.stats = some l.finished.length

def IdsBelowNext (l : Ledger) (q : BuildQueue) : Prop :=
  ∀ job ∈ l.jobs, job.id.val < q.nextJobId

/-- Two pushed jobs with one identifier are one job. -/
theorem Accounts.job_unique {l : Ledger} {q : BuildQueue} (a : Accounts l q)
    (hb : l.jobs.length < 2 ^ 64) {job job' : BuildJob} (hj : job ∈ l.jobs) (hj' : job' ∈ l.jobs)
    (h : job.id = job'.id) : job = job' :=
  List.inj_on_of_nodup_map (a.ids_nodup hb) hj hj' h

theorem Accounts.jobCount_eq_one {l : Ledger} {q : BuildQueue} (a : Accounts l q)
    (hb : l.jobs.length < 2 ^ 64) {job : BuildJob} (hj : job ∈ l.jobs) :
    l.jobCount job.id = 1 := by
  have hle := a.jobCount_le hb job.id
  have hpos : 0 < l.jobCount job.id := List.countP_pos_iff.mpr ⟨job, hj, by simp⟩
  omega

theorem Accounts.placed {l : Ledger} {q : BuildQueue} (a : Accounts l q)
    (hb : l.jobs.length < 2 ^ 64) {job : BuildJob} (hj : job ∈ l.jobs) :
    WaitsOnce l q job ∨ LeasedOnce l q job ∨ FinishedOnce l q job := by
  have hone := a.jobCount_eq_one hb hj
  have hbal := a.balance hb job.id
  cases hl : q.leased.get? job.id with
  | some lease =>
    right; left
    obtain ⟨hm, hid⟩ := a.leased job.id lease hl
    simp only [leaseCount, hl, Option.isSome_some, Bool.toNat_true] at hbal
    exact ⟨by omega, ⟨lease, hl, a.job_unique hb hm hj hid⟩, by omega⟩
  | none =>
    simp only [leaseCount, hl, Option.isSome_none, Bool.toNat_false] at hbal
    by_cases hp : pendingCount q job.id = 0
    · right; right
      exact ⟨hp, hl, by omega⟩
    · left
      obtain ⟨k, hk, hid⟩ := List.countP_pos_iff.mp (Nat.pos_of_ne_zero hp)
      have he : k = job := a.job_unique hb (a.pending k hk) hj (by simpa using hid)
      exact ⟨he ▸ hk, by omega, hl, by omega⟩

theorem Accounts.below {l : Ledger} {q : BuildQueue} (a : Accounts l q)
    (hb : l.jobs.length + 1 < 2 ^ 64) : IdsBelowNext l q := by
  intro job hj
  have hm : job.id.val ∈ l.jobs.map (fun job => job.id.val) := List.mem_map.mpr ⟨job, hj, rfl⟩
  rw [a.ids] at hm
  obtain ⟨i, hi, he⟩ := List.mem_map.mp hm
  have hi := List.mem_range.mp hi
  rw [a.next, ← he, UInt64.lt_iff_toNat_lt, UInt64.toNat_ofNat', UInt64.toNat_ofNat']
  omega

/-- Whoever calls it, a queue conserves its jobs, and every identifier is below
the counter until the push that wraps it. -/
theorem jobs_conserved (hashers : Hashers) (ourId : EndpointId) (h : List QueueEvent)
    (q : BuildQueue) (run : QueueRun hashers ourId h q)
    (hb : (ledger hashers h).jobs.length < 2 ^ 64) :
    JobsConserved (ledger hashers h) q ∧
      ((ledger hashers h).jobs.length + 1 < 2 ^ 64 → IdsBelowNext (ledger hashers h) q) := by
  have a := accounts_run run
  have htotal := a.total hb
  refine ⟨⟨a.ids_nodup hb, fun job hj => a.placed hb hj, a.pending, a.leased, ?_, ?_⟩, a.below⟩
  · omega
  · exact build_progress_some htotal

theorem jobs_conserved_life_cycle : ∃ q, JobsConserved (ledger zeroHashers lifeCycle) q := by
  obtain ⟨q, run⟩ := life_cycle_run
  exact ⟨q, (jobs_conserved zeroHashers ⟨zeroBytes32⟩ lifeCycle q run (by decide)).1⟩

section Boundary

/-- A queue can be pushed to any number of times. -/
theorem push_run_exists (hashers : Hashers) (ourId : EndpointId) (n : Nat) :
    ∃ h q, QueueRun hashers ourId h q ∧ (ledger hashers h).jobs.length = n := by
  induction n with
  | zero => exact ⟨[], _, .nil, rfl⟩
  | succ n ih =>
    obtain ⟨h, q, run, hn⟩ := ih
    refine ⟨_, _, run.snoc (.push q "/nix/store/a.drv" [] [] [] 0), ?_⟩
    rw [ledger_snoc]
    simp [Ledger.record, QueueEvent.pushed, hn]

/-- After push number `2^64 - 1` the wrapped counter is 0, below every identifier. -/
theorem counter_wraps_below_ids :
    ¬ ∀ (hashers : Hashers) (ourId : EndpointId) (h : List QueueEvent) (q : BuildQueue),
      QueueRun hashers ourId h q → (ledger hashers h).jobs.length < 2 ^ 64 →
        JobsConserved (ledger hashers h) q ∧ IdsBelowNext (ledger hashers h) q := by
  intro hall
  obtain ⟨h, q, run, hn⟩ := push_run_exists zeroHashers ⟨zeroBytes32⟩ (2 ^ 64 - 1)
  obtain ⟨_, hbelow⟩ := hall _ _ h q run (by omega)
  have hnext := (accounts_run run).next
  rw [hn, show 1 + (2 ^ 64 - 1) = 2 ^ 64 from rfl] at hnext
  obtain ⟨job, hj⟩ := List.exists_mem_of_length_pos
    (by omega : 0 < (ledger zeroHashers h).jobs.length)
  have hlt := UInt64.lt_iff_toNat_lt.mp (hbelow job hj)
  rw [hnext, UInt64.toNat_ofNat', Nat.mod_self] at hlt
  omega

end Boundary

end IrohNix.Build
