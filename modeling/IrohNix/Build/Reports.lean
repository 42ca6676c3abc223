import IrohNix.Build.Accounting
import IrohNix.Build.Leases

namespace IrohNix.Build
open IrohNix.Lib

/-- A report of this outcome was accepted for the job. -/
def Reported (h : List QueueEvent) (j : JobId) (outcome : JobOutcome) : Prop :=
  (∃ builder result, .complete j builder result true ∈ h ∧ outcome = .completed result) ∨
    ∃ builder error, .fail j builder error true ∈ h ∧ outcome = .failed builder error

/-- The outcomes are of jobs that were reported, under their derivations. -/
structure OutcomesReported (hashers : Hashers) (h : List QueueEvent) (q : BuildQueue) : Prop where
  reported : ∀ d outcome, q.getOutcome d = some outcome →
    ∃ job ∈ (ledger hashers h).jobs, job.drvHash = d ∧ Reported h job.id outcome
  kept : (ledger hashers h).jobs.length < 2 ^ 64 → ∀ job ∈ (ledger hashers h).jobs,
    job.id ∈ finishedJobs h → (q.getOutcome job.drvHash).isSome = true

theorem Reported.mono {h h' : List QueueEvent} {j : JobId} {outcome : JobOutcome}
    (reported : Reported h j outcome) (sub : h ⊆ h') : Reported h' j outcome := by
  rcases reported with ⟨builder, result, he, ho⟩ | ⟨builder, error, he, ho⟩
  · exact .inl ⟨builder, result, sub he, ho⟩
  · exact .inr ⟨builder, error, sub he, ho⟩

theorem jobs_append (hashers : Hashers) (h more : List QueueEvent) :
    (ledger hashers (h ++ more)).jobs = (ledger hashers h).jobs ++ (ledger hashers more).jobs :=
  List.filterMap_append

theorem finishedJobs_append (h more : List QueueEvent) :
    finishedJobs (h ++ more) = finishedJobs h ++ finishedJobs more := List.filterMap_append

/-- Below the wrap of the counter an identifier is of one job. -/
theorem Accounts.same_job {l : Ledger} {q : BuildQueue} (a : Accounts l q)
    (few : l.jobs.length < 2 ^ 64) {job job' : BuildJob} (hj : job ∈ l.jobs) (hj' : job' ∈ l.jobs)
    (same : job.id = job'.id) : job = job' :=
  List.inj_on_of_nodup_map (a.ids_nodup few) hj hj' same

/-- Nor is one finished that was not pushed. -/
theorem Accounts.pushed_of_finished {l : Ledger} {q : BuildQueue} (a : Accounts l q)
    (few : l.jobs.length < 2 ^ 64) {j : JobId} (hf : j ∈ l.finished) :
    ∃ job ∈ l.jobs, job.id = j := by
  have balance := a.balance few j
  have pos := List.count_pos_iff.mpr hf
  have counted : 0 < l.jobCount j := by omega
  obtain ⟨job, hj, same⟩ := List.countP_pos_iff.mp counted
  exact ⟨job, hj, by simpa using same⟩

theorem not_pushed_of_finished (hashers : Hashers) {e : QueueEvent} {j : JobId}
    (ends : e.finished = some j) : e.pushed hashers = none := by
  cases e with
  | push => cases ends
  | _ => rfl

/-- What a call does to the outcomes: nothing, or it stores the one that it reports under
the derivation of the lease that it takes. -/
theorem outcome_cases {hashers : Hashers} {q q' : BuildQueue} {e : QueueEvent}
    (step : QueueStep hashers q e q') : (e.finished = none ∧ q'.completed = q.completed) ∨
      ∃ j lease outcome, e.finished = some j ∧ q.leased.get? j = some lease ∧
        Reported [e] j outcome ∧ q'.completed = q.completed.insert lease.job.drvHash outcome := by
  cases step with
  | push | takePendingFetches | broadcastLog => exact .inl ⟨rfl, rfl⟩
  | pull builder features now =>
    rcases q.pull_cases builder features now with ⟨_, hq⟩ | ⟨_, _, _, _, _, _, hq⟩
    · exact .inl ⟨rfl, by rw [hq]⟩
    · exact .inl ⟨rfl, by rw [hq]⟩
  | heartbeat jobId builder status now =>
    rcases q.heartbeat_cases jobId builder status now with ⟨hq, _⟩ | ⟨_, _, _, hq⟩
    · exact .inl ⟨rfl, by rw [hq]⟩
    · exact .inl ⟨rfl, by rw [hq]⟩
  | checkTimeouts order now =>
    rw [BuildQueue.checkTimeouts_eq]
    exact .inl ⟨rfl, rfl⟩
  | complete jobId builder result =>
    rcases q.complete_cases jobId builder result with ⟨hq, _⟩ | ⟨lease, hl, _, hq⟩
    · rw [hq]
      exact .inl ⟨rfl, rfl⟩
    · rw [hq]
      exact .inr ⟨jobId, lease, .completed result, rfl, hl,
        .inl ⟨builder, result, List.mem_singleton_self _, rfl⟩, rfl⟩
  | fail jobId builder error =>
    rcases q.fail_cases jobId builder error with ⟨hq, _⟩ | ⟨lease, hl, _, hq⟩
    · rw [hq]
      exact .inl ⟨rfl, rfl⟩
    · rw [hq]
      exact .inr ⟨jobId, lease, .failed builder error, rfl, hl,
        .inr ⟨builder, error, List.mem_singleton_self _, rfl⟩, rfl⟩

theorem outcomes_new (hashers : Hashers) (ourId : EndpointId) :
    OutcomesReported hashers [] (BuildQueue.new ourId) where
  reported := by simp [BuildQueue.new, BuildQueue.getOutcome]
  kept := by simp [ledger]

theorem OutcomesReported.step {hashers : Hashers} {h : List QueueEvent} {q q' : BuildQueue}
    {e : QueueEvent} (told : OutcomesReported hashers h q) (a : Accounts (ledger hashers h) q)
    (step : QueueStep hashers q e q') : OutcomesReported hashers (h ++ [e]) q' := by
  have jobs := jobs_append hashers h [e]
  have ended : finishedJobs (h ++ [e]) = finishedJobs h ++ e.finished.toList :=
    finishedJobs_snoc h e
  rcases outcome_cases step with ⟨quiet, same⟩ | ⟨j, lease, outcome, ends, hl, reported, stored⟩
  · constructor
    · intro d outcome found
      rw [BuildQueue.getOutcome, same] at found
      obtain ⟨job, hj, hd, reported⟩ := told.reported d outcome found
      exact ⟨job, by simp [jobs, hj], hd, reported.mono (by simp)⟩
    · intro few job hj hf
      rw [ended, quiet, Option.toList_none, List.append_nil] at hf
      have few' : (ledger hashers h).jobs.length < 2 ^ 64 := by
        rw [jobs, List.length_append] at few
        omega
      obtain ⟨old, hold, hid⟩ := a.pushed_of_finished few' hf
      obtain rfl : old = job := (a.step step).same_job (by rwa [← ledger_snoc])
        (by rw [← ledger_snoc, jobs]; exact List.mem_append_left _ hold)
        (by rwa [← ledger_snoc]) hid
      rw [BuildQueue.getOutcome, same]
      exact told.kept few' old hold hf
  · have here : (ledger hashers (h ++ [e])).jobs = (ledger hashers h).jobs := by
      simp [ledger, not_pushed_of_finished hashers ends]
    obtain ⟨hleased, hid⟩ := a.leased j lease hl
    constructor
    · intro d outcome' found
      rw [BuildQueue.getOutcome, stored, HashMap.get_insert] at found
      split at found
      · rename_i hd
        cases found
        exact ⟨lease.job, here ▸ hleased, hd.symm, hid ▸ reported.mono (by simp)⟩
      · obtain ⟨job, hj, hd, reported'⟩ := told.reported d outcome' found
        exact ⟨job, here ▸ hj, hd, reported'.mono (by simp)⟩
    · intro few job hj hf
      rw [here] at few hj
      rw [BuildQueue.getOutcome, stored, HashMap.get_insert]
      split
      · rfl
      · rename_i hd
        rw [ended, ends] at hf
        rcases List.mem_append.mp hf with hf | hf
        · exact told.kept few job hj hf
        · have same : job.id = lease.job.id := (by simpa using hf : job.id = j).trans hid.symm
          exact absurd (congrArg BuildJob.drvHash (a.same_job few hj hleased same)) hd

theorem outcomes_run {hashers : Hashers} {ourId : EndpointId} {h : List QueueEvent}
    {q : BuildQueue} (run : QueueRun hashers ourId h q) : OutcomesReported hashers h q :=
  run.invariant (OutcomesReported hashers) (outcomes_new hashers ourId)
    fun _ _ _ _ run told step => told.step (accounts_run run) step

/-- A job that is leased was leased before or is granted on the way. -/
theorem leased_granted {hashers : Hashers} {q q' : BuildQueue} {c : List QueueEvent}
    (run : Run (QueueStep hashers) q c q') {j : JobId} {lease : LeasedJob}
    (hl : q'.leased.get? j = some lease) :
    (q.leased.get? j).isSome = true ∨ ∃ e ∈ c, (e.grant j).isSome = true := by
  induction run generalizing lease with
  | nil => exact .inl (by simp [hl])
  | @snoc c s t e run last ih =>
    rcases lease_cases last hl with stays | granted | beats
    · rcases ih stays.held with before | ⟨e', he', hg⟩
      · exact .inl before
      · exact .inr ⟨e', List.mem_append_left _ he', hg⟩
    · obtain ⟨features, hgrant, _⟩ := granted.grant
      exact .inr ⟨e, by simp, by simp [hgrant]⟩
    · obtain ⟨old, held, _⟩ := beats.held
      rcases ih held with before | ⟨e', he', hg⟩
      · exact .inl before
      · exact .inr ⟨e', List.mem_append_left _ he', hg⟩

end IrohNix.Build
