import IrohNix.Build.Conservation
import IrohNix.Control.Handler

namespace IrohNix.Control
open IrohNix.Lib IrohNix.Build

/-- A poll's only answers: a leased job is building, anything else is pending.
The outcome lookup is dead, as it starts from a job found in neither list. -/
theorem pollBuild_reply (q : BuildQueue) (first second : q.leased.Iter) (jobId : UInt64) :
    pollBuild q first second jobId = .buildStatus
      (match q.leased.get? ⟨jobId⟩ with
        | some lease => .building (displayEndpoint lease.builder)
        | none => .pending) := by
  simp only [pollBuild, BuildQueue.listLeased, BuildQueue.listPending, HashMap.Iter.find_key]
  cases hl : q.leased.get? (JobId.mk jobId) with
  | some lease => rfl
  | none =>
    simp only [Option.map_none, Option.none_or]
    split
    · rfl
    · rename_i hany
      have hfind : q.pending.find? (fun j => j.id == JobId.mk jobId) = none := by
        simpa using hany
      simp [hfind]

theorem pollBuild_pending {q : BuildQueue} {first second : q.leased.Iter} {j : JobId} :
    pollBuild q first second j.val = .buildStatus .pending ↔ q.leased.get? j = none := by
  rw [pollBuild_reply]
  cases q.leased.get? j <;> simp

theorem pollBuild_building {q : BuildQueue} {first second : q.leased.Iter} {j : JobId}
    {builder : EndpointId} :
    pollBuild q first second j.val = .buildStatus (.building (displayEndpoint builder)) ↔
      ∃ lease, q.leased.get? j = some lease ∧ lease.builder = builder := by
  rw [pollBuild_reply]
  cases q.leased.get? j <;> simp [displayEndpoint_inj]

theorem pollBuild_not_completed {q : BuildQueue} {first second : q.leased.Iter} {j : JobId}
    {outputs : List OutputInfo} :
    pollBuild q first second j.val ≠ .buildStatus (.completed outputs) := by
  rw [pollBuild_reply]
  cases q.leased.get? j <;> simp

theorem pollBuild_not_failed {q : BuildQueue} {first second : q.leased.Iter} {j : JobId}
    {error : String} : pollBuild q first second j.val ≠ .buildStatus (.failed error) := by
  rw [pollBuild_reply]
  cases q.leased.get? j <;> simp

/-- A poll's answer agrees with where the job is and with what was reported of it. -/
structure PollTruth (h : List QueueEvent) (q : BuildQueue) (j : JobId)
    (response : ControlResponse) : Prop where
  pending : response = .buildStatus .pending ↔ ∃ job ∈ q.pending, job.id = j
  building : ∀ builder, response = .buildStatus (.building (displayEndpoint builder)) ↔
    ∃ lease, q.leased.get? j = some lease ∧ lease.builder = builder
  completed : ∀ outputs, response = .buildStatus (.completed outputs) ↔
    ∃ builder result, .complete j builder result true ∈ h ∧
      result.outputs.map outputInfo = outputs
  failed : ∀ error, response = .buildStatus (.failed error) ↔
    ∃ builder, .fail j builder error true ∈ h

/-- The job waits or is being built, and not both. -/
def InOnePlace (q : BuildQueue) (j : JobId) : Prop :=
  q.leased.get? j = none ↔ ∃ job ∈ q.pending, job.id = j

theorem poll_truth_reply {h : List QueueEvent} {q : BuildQueue}
    {first second : q.leased.Iter} {j : JobId} :
    PollTruth h q j (pollBuild q first second j.val) ↔
      InOnePlace q j ∧ j ∉ finishedJobs h := by
  constructor
  · intro h
    obtain ⟨hpending, _, hcompleted, hfailed⟩ := h
    refine ⟨pollBuild_pending.symm.trans hpending, ?_⟩
    rw [mem_finishedJobs]
    intro h
    rcases h with ⟨b, r, hm⟩ | ⟨b, e, hm⟩
    · exact pollBuild_not_completed ((hcompleted _).mpr ⟨b, r, hm, rfl⟩)
    · exact pollBuild_not_failed ((hfailed e).mpr ⟨b, hm⟩)
  · intro h
    obtain ⟨hplace, hfinished⟩ := h
    rw [mem_finishedJobs] at hfinished
    exact {
      pending := pollBuild_pending.trans hplace
      building := fun _ => pollBuild_building
      completed := fun outputs => iff_of_false pollBuild_not_completed
        fun ⟨b, r, hm, _⟩ => hfinished (.inl ⟨b, r, hm⟩)
      failed := fun error => iff_of_false pollBuild_not_failed
        fun ⟨b, hm⟩ => hfinished (.inr ⟨b, error, hm⟩) }

/-- Below the wrap of the counter, a job is in one place until it is finished. -/
theorem in_one_place {hashers : Hashers} {ourId : EndpointId} {h : List QueueEvent}
    {q : BuildQueue} (run : QueueRun hashers ourId h q)
    (hb : (ledger hashers h).jobs.length < 2 ^ 64) {job : BuildJob}
    (hj : job ∈ (ledger hashers h).jobs) (hf : job.id ∉ finishedJobs h) :
    InOnePlace q job.id := by
  rcases (accounts_run run).placed hb hj with
    ⟨hp, _, hl, _⟩ | ⟨hp, ⟨lease, hl, _⟩, _⟩ | ⟨_, _, hc⟩
  · exact iff_of_true hl ⟨job, hp, rfl⟩
  · refine iff_of_false (by simp [hl]) ?_
    intro h
    obtain ⟨k, hk, hid⟩ := h
    exact List.countP_eq_zero.mp hp k hk (by simp [hid])
  · have hpos : 0 < (ledger hashers h).finished.count job.id := by omega
    exact absurd (List.count_pos_iff.mp hpos) hf

/-- A poll is answered truthfully exactly while the job is unfinished. Only once
the counter has wrapped can an unfinished job also be in two places. -/
theorem poll_truthful_iff_unfinished (hashers : Hashers) (ourId : EndpointId)
    (h : List QueueEvent) (q : BuildQueue) (run : QueueRun hashers ourId h q) (job : BuildJob)
    (hj : job ∈ (ledger hashers h).jobs) (first second : q.leased.Iter) (timestamp : UInt64) :
    let handled :=
      handleControlRequest hashers q first second timestamp (.pollBuild job.id.val)
    (PollTruth h q job.id handled.response ↔
        InOnePlace q job.id ∧ job.id ∉ finishedJobs h) ∧
      ((ledger hashers h).jobs.length < 2 ^ 64 →
        (PollTruth h q job.id handled.response ↔ job.id ∉ finishedJobs h)) := by
  refine ⟨poll_truth_reply, fun hb => poll_truth_reply.trans ⟨And.right, ?_⟩⟩
  exact fun hf => ⟨in_one_place run hb hj hf, hf⟩

theorem poll_truthful_waiting : ∃ q, ∀ first second timestamp,
    PollTruth [.push "/nix/store/a.drv" ["kvm"] [] [] 0 ⟨1⟩ true] q ⟨1⟩
      (handleControlRequest zeroHashers q first second timestamp (.pollBuild 1)).response := by
  have start : QueueRun zeroHashers ⟨zeroBytes32⟩ [] _ := .nil
  obtain ⟨q, run⟩ : ∃ q, QueueRun zeroHashers ⟨zeroBytes32⟩
      [.push "/nix/store/a.drv" ["kvm"] [] [] 0 ⟨1⟩ true] q :=
    ⟨_, start.snoc (.push _ "/nix/store/a.drv" ["kvm"] [] [] 0)⟩
  refine ⟨q, fun first second timestamp => ?_⟩
  exact ((poll_truthful_iff_unfinished zeroHashers ⟨zeroBytes32⟩ _ _ run
    ⟨⟨1⟩, ⟨zeroBytes32⟩, "/nix/store/a.drv", ["kvm"], [], [], 0⟩ (by decide) first second
    timestamp).2 (by decide)).mpr (by decide)

/-- The poll of a completed job is answered `Pending`. -/
theorem poll_untruthful_completed : ∃ q, QueueRun zeroHashers ⟨zeroBytes32⟩ lifeCycle q ∧
    sampleJob ∈ (ledger zeroHashers lifeCycle).jobs ∧ ∀ first second timestamp,
      ¬ PollTruth lifeCycle q sampleJob.id
        (handleControlRequest zeroHashers q first second timestamp
          (.pollBuild sampleJob.id.val)).response := by
  obtain ⟨q, run⟩ := life_cycle_run
  refine ⟨q, run, by decide, ?_⟩
  intro first second timestamp htruth
  exact (poll_truth_reply.mp htruth).2 (by decide : sampleJob.id ∈ finishedJobs lifeCycle)

end IrohNix.Control
