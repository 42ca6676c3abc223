import IrohNix.Build.Reports
import IrohNix.Control.Polling

namespace IrohNix.Control
open IrohNix.Lib IrohNix.Build

/-- The first two reads of the `PollBuild` branch, in which it looks for the derivation. -/
def seenHash (q₁ : BuildQueue) (first : q₁.leased.Iter) (q₂ : BuildQueue) (jobId : UInt64) :
    Option DrvHash :=
  (((q₁.listLeased first).find? (fun e => e.1 == ⟨jobId⟩)).map (fun e => e.2.job.drvHash)).or
    ((q₂.listPending.find? (fun j => j.id == ⟨jobId⟩)).map (fun j => j.drvHash))

/-- The branch, with each of its five reads made of the queue as it is then. -/
def pollReads (q₁ : BuildQueue) (first : q₁.leased.Iter) (q₂ q₃ : BuildQueue)
    (second : q₃.leased.Iter) (q₄ q₅ : BuildQueue) (jobId : UInt64) : ControlResponse :=
  match (q₃.listLeased second).find? (fun e => e.1 == ⟨jobId⟩) with
  | some (_, leasedJob) => .buildStatus (.building (displayEndpoint leasedJob.builder))
  | none =>
    if q₄.listPending.any (fun j => j.id == ⟨jobId⟩) then .buildStatus .pending
    else
      match (seenHash q₁ first q₂ jobId).bind q₅.getOutcome with
      | some outcome => .buildStatus (outcomeState outcome)
      | none => .buildStatus .pending

/-- With nothing between its reads, the request is the handler's branch. -/
theorem pollBuild_reads (q : BuildQueue) (first second : q.leased.Iter) (jobId : UInt64) :
    pollReads q first q q second q q jobId = pollBuild q first second jobId := rfl

/-- The job is handed out in one of these calls. -/
def HandedOut (j : JobId) (c : List QueueEvent) : Prop := ∃ e ∈ c, (e.grant j).isSome = true

/-- Five moments of a queue, with the calls made before the first and between them. -/
structure Moments (hashers : Hashers) (ourId : EndpointId) where
  c₁ : List QueueEvent
  c₂ : List QueueEvent
  c₃ : List QueueEvent
  c₄ : List QueueEvent
  c₅ : List QueueEvent
  q₁ : BuildQueue
  q₂ : BuildQueue
  q₃ : BuildQueue
  q₄ : BuildQueue
  q₅ : BuildQueue
  run₁ : QueueRun hashers ourId c₁ q₁
  run₂ : Run (QueueStep hashers) q₁ c₂ q₂
  run₃ : Run (QueueStep hashers) q₂ c₃ q₃
  run₄ : Run (QueueStep hashers) q₃ c₄ q₄
  run₅ : Run (QueueStep hashers) q₄ c₅ q₅

namespace Moments

variable {hashers : Hashers} {ourId : EndpointId} (m : Moments hashers ourId)

def all : List QueueEvent := m.c₁ ++ m.c₂ ++ m.c₃ ++ m.c₄ ++ m.c₅

theorem upTo₂ : QueueRun hashers ourId (m.c₁ ++ m.c₂) m.q₂ := m.run₁.trans m.run₂

theorem upTo₃ : QueueRun hashers ourId (m.c₁ ++ m.c₂ ++ m.c₃) m.q₃ := m.upTo₂.trans m.run₃

theorem upTo₄ : QueueRun hashers ourId (m.c₁ ++ m.c₂ ++ m.c₃ ++ m.c₄) m.q₄ := m.upTo₃.trans m.run₄

theorem upTo₅ : QueueRun hashers ourId m.all m.q₅ := m.upTo₄.trans m.run₅

/-- A poll at these moments, of a job that was pushed before. -/
def poll (first : m.q₁.leased.Iter) (second : m.q₃.leased.Iter) (j : JobId) : ControlResponse :=
  pollReads m.q₁ first m.q₂ m.q₃ second m.q₄ m.q₅ j.val

end Moments

/-- What a poll is answered with. A job that has ended before it starts is pending for ever; an
outcome is told only if the job ends or is handed out meanwhile, and then it is one reported
for a job of the same derivation; and it is told if the job ends between the second read and
the third and was not handed out between the first two. -/
structure PollRaced {hashers : Hashers} {ourId : EndpointId} (m : Moments hashers ourId)
    (job : BuildJob) (response : ControlResponse) : Prop where
  late : job.id ∈ finishedJobs m.c₁ → response = .buildStatus .pending
  building : ∀ builder, response = .buildStatus (.building (displayEndpoint builder)) →
    job.id ∉ finishedJobs (m.c₁ ++ m.c₂ ++ m.c₃) ∧
      ∃ features, latest (QueueEvent.grant job.id) (m.c₁ ++ m.c₂ ++ m.c₃) =
        some (builder, features, job)
  raced : (∃ outcome, response = .buildStatus (outcomeState outcome)) →
    (job.id ∈ finishedJobs (m.c₂ ++ m.c₃ ++ m.c₄) ∨ HandedOut job.id m.c₄) ∧
      ∃ other ∈ (ledger hashers m.all).jobs, other.drvHash = job.drvHash ∧
        ∃ outcome, Reported m.all other.id outcome ∧
          response = .buildStatus (outcomeState outcome)
  told : job.id ∉ finishedJobs (m.c₁ ++ m.c₂) → ¬ HandedOut job.id m.c₂ →
    job.id ∈ finishedJobs m.c₃ → ∃ outcome, response = .buildStatus (outcomeState outcome)

section Reads

variable {q₁ q₂ q₃ q₄ q₅ : BuildQueue} {first : q₁.leased.Iter} {second : q₃.leased.Iter}
  {j : JobId}

theorem seenHash_eq : seenHash q₁ first q₂ j.val =
    ((q₁.leased.get? j).map fun lease => lease.job.drvHash).or
      ((q₂.pending.find? fun job => job.id == j).map fun job => job.drvHash) := by
  simp only [seenHash, BuildQueue.listLeased, BuildQueue.listPending, HashMap.Iter.find_key]
  cases q₁.leased.get? j <;> rfl

theorem seenHash_none (unleased : q₁.leased.get? j = none)
    (absent : ∀ job ∈ q₂.pending, job.id ≠ j) : seenHash q₁ first q₂ j.val = none := by
  rw [seenHash_eq, unleased, List.find?_eq_none.mpr fun job hj => by simpa using absent job hj]
  rfl

theorem pollReads_leased {lease : LeasedJob} (held : q₃.leased.get? j = some lease) :
    pollReads q₁ first q₂ q₃ second q₄ q₅ j.val =
      .buildStatus (.building (displayEndpoint lease.builder)) := by
  simp only [pollReads, BuildQueue.listLeased, HashMap.Iter.find_key, held]
  rfl

theorem pollReads_waits (unleased : q₃.leased.get? j = none)
    (waits : ∃ job ∈ q₄.pending, job.id = j) :
    pollReads q₁ first q₂ q₃ second q₄ q₅ j.val = .buildStatus .pending := by
  obtain ⟨job, hj, hid⟩ := waits
  have listed : q₄.listPending.any (fun job => job.id == j) = true :=
    List.any_eq_true.mpr ⟨job, hj, by simpa using hid⟩
  simp only [pollReads, BuildQueue.listLeased, HashMap.Iter.find_key, unleased]
  exact if_pos listed

theorem pollReads_gone (unleased : q₃.leased.get? j = none)
    (absent : ∀ job ∈ q₄.pending, job.id ≠ j) :
    pollReads q₁ first q₂ q₃ second q₄ q₅ j.val =
      match (seenHash q₁ first q₂ j.val).bind q₅.getOutcome with
      | some outcome => .buildStatus (outcomeState outcome)
      | none => .buildStatus .pending := by
  have listed : ¬ q₄.listPending.any (fun job => job.id == j) = true := by
    rw [List.any_eq_true]
    intro h
    obtain ⟨job, hj, hid⟩ := h
    exact absent job hj (by simpa using hid)
  simp only [pollReads, BuildQueue.listLeased, HashMap.Iter.find_key, unleased]
  exact if_neg listed

end Reads

theorem outcomeState_ne {outcome : JobOutcome} : outcomeState outcome ≠ .pending ∧
    ∀ builder, outcomeState outcome ≠ .building builder := by
  cases outcome <;> simp [outcomeState]

namespace Moments

variable {hashers : Hashers} {ourId : EndpointId} {m : Moments hashers ourId} {job : BuildJob}
  {first : m.q₁.leased.Iter} {second : m.q₃.leased.Iter}

theorem poll_gone (first : m.q₁.leased.Iter) (second : m.q₃.leased.Iter) {j : JobId}
    (unleased : m.q₃.leased.get? j = none) (absent : ∀ job ∈ m.q₄.pending, job.id ≠ j) :
    m.poll first second j =
      match (seenHash m.q₁ first m.q₂ j.val).bind m.q₅.getOutcome with
      | some outcome => .buildStatus (outcomeState outcome)
      | none => .buildStatus .pending :=
  pollReads_gone unleased absent

/-- Fewer jobs are pushed in a part of the calls. -/
theorem few_of_append {c more : List QueueEvent}
    (few : (ledger hashers (c ++ more)).jobs.length < 2 ^ 64) :
    (ledger hashers c).jobs.length < 2 ^ 64 := by
  rw [jobs_append, List.length_append] at few
  omega

/-- Whatever is listed under the identifier of a job is of its derivation. -/
theorem seenHash_job (few : (ledger hashers (m.c₁ ++ m.c₂)).jobs.length < 2 ^ 64)
    (pushed : job ∈ (ledger hashers m.c₁).jobs) {drvHash : DrvHash}
    (seen : seenHash m.q₁ first m.q₂ job.id.val = some drvHash) : drvHash = job.drvHash := by
  have pushed₂ : job ∈ (ledger hashers (m.c₁ ++ m.c₂)).jobs := by
    rw [jobs_append]
    exact List.mem_append_left _ pushed
  rw [seenHash_eq] at seen
  cases hl : m.q₁.leased.get? job.id with
  | some lease =>
    simp only [hl, Option.map_some, Option.some_or, Option.some.injEq] at seen
    obtain ⟨hj, hid⟩ := (accounts_run m.run₁).leased _ lease hl
    rw [← seen, (accounts_run m.run₁).same_job (few_of_append few) hj pushed hid]
  | none =>
    simp only [hl, Option.map_none, Option.none_or, Option.map_eq_some_iff] at seen
    obtain ⟨found, hf, rfl⟩ := seen
    have hj := (accounts_run m.upTo₂).pending found (List.mem_of_find?_eq_some hf)
    have hid : found.id = job.id := by simpa using List.find?_some hf
    rw [(accounts_run m.upTo₂).same_job few hj pushed₂ hid]

end Moments

section Race

variable {hashers : Hashers} {ourId : EndpointId}

/-- An unfinished job that is not leased, and not handed out, waits. -/
theorem waits_until {c c' : List QueueEvent} {q q' : BuildQueue} (run : QueueRun hashers ourId c q)
    (run' : Run (QueueStep hashers) q c' q')
    (few : (ledger hashers (c ++ c')).jobs.length < 2 ^ 64) {job : BuildJob}
    (pushed : job ∈ (ledger hashers c).jobs) (unfinished : job.id ∉ finishedJobs (c ++ c'))
    (unleased : q.leased.get? job.id = none) (kept : ¬ HandedOut job.id c') :
    ∃ k ∈ q'.pending, k.id = job.id := by
  have pushed' : job ∈ (ledger hashers (c ++ c')).jobs := by
    rw [jobs_append]
    exact List.mem_append_left _ pushed
  refine (in_one_place (run.trans run') few pushed' unfinished).mp ?_
  cases hl : q'.leased.get? job.id with
  | none => rfl
  | some lease =>
    rcases leased_granted run' hl with before | granted
    · rw [unleased] at before
      cases before
    · exact absurd granted kept

variable {m : Moments hashers ourId} {job : BuildJob} {first : m.q₁.leased.Iter}
  {second : m.q₃.leased.Iter}

theorem finished_later {c : List QueueEvent} {j : JobId} (ended : j ∈ finishedJobs c)
    (more : List QueueEvent) : j ∈ finishedJobs (c ++ more) := by
  rw [finishedJobs_append]
  exact List.mem_append_left _ ended

/-- A job that has ended is in neither list. -/
theorem gone_since {c : List QueueEvent} {q : BuildQueue} (run : QueueRun hashers ourId c q)
    (few : (ledger hashers c).jobs.length < 2 ^ 64) {j : JobId} (ended : j ∈ finishedJobs c) :
    q.leased.get? j = none ∧ ∀ job ∈ q.pending, job.id ≠ j := by
  obtain ⟨absent, unleased, _⟩ := (accounts_run run).gone_of_finished few ended
  exact ⟨unleased, absent⟩

theorem poll_late (few : (ledger hashers m.all).jobs.length < 2 ^ 64)
    (ended : job.id ∈ finishedJobs m.c₁) :
    m.poll first second job.id = .buildStatus .pending := by
  have few₄ := Moments.few_of_append few
  have few₃ := Moments.few_of_append few₄
  have few₂ := Moments.few_of_append few₃
  have ended₂ := finished_later ended m.c₂
  have ended₃ := finished_later ended₂ m.c₃
  have ended₄ := finished_later ended₃ m.c₄
  have gone₁ := gone_since m.run₁ (Moments.few_of_append few₂) ended
  have gone₂ := gone_since m.upTo₂ few₂ ended₂
  have gone₃ := gone_since m.upTo₃ few₃ ended₃
  have gone₄ := gone_since m.upTo₄ few₄ ended₄
  rw [Moments.poll, pollReads_gone gone₃.1 gone₄.2, seenHash_none gone₁.1 gone₂.2]
  rfl

theorem poll_building (few : (ledger hashers m.all).jobs.length < 2 ^ 64)
    (pushed : job ∈ (ledger hashers m.c₁).jobs) {builder : EndpointId}
    (building : m.poll first second job.id = .buildStatus (.building (displayEndpoint builder))) :
    job.id ∉ finishedJobs (m.c₁ ++ m.c₂ ++ m.c₃) ∧
      ∃ features, latest (QueueEvent.grant job.id) (m.c₁ ++ m.c₂ ++ m.c₃) =
        some (builder, features, job) := by
  have few₃ := Moments.few_of_append (Moments.few_of_append few)
  have pushed₃ : job ∈ (ledger hashers (m.c₁ ++ m.c₂ ++ m.c₃)).jobs := by
    simp [jobs_append, pushed]
  cases hl : m.q₃.leased.get? job.id with
  | some lease =>
    rw [Moments.poll, pollReads_leased hl] at building
    simp only [ControlResponse.buildStatus.injEq, BuildState.building.injEq,
      displayEndpoint_inj] at building
    obtain ⟨hj, hid⟩ := (accounts_run m.upTo₃).leased _ lease hl
    obtain ⟨features, granted, _⟩ := (leasesTold_run m.upTo₃ _ lease hl).granted
    refine ⟨fun ended => ?_, features, ?_⟩
    · have gone := gone_since m.upTo₃ few₃ ended
      rw [gone.1] at hl
      cases hl
    · rw [granted, building, (accounts_run m.upTo₃).same_job few₃ hj pushed₃ hid]
  | none =>
    by_cases waits : ∃ k ∈ m.q₄.pending, k.id = job.id
    · rw [Moments.poll, pollReads_waits hl waits] at building
      cases building
    · rw [Moments.poll, pollReads_gone hl fun k hk hid => waits ⟨k, hk, hid⟩] at building
      split at building
      · exact absurd (ControlResponse.buildStatus.inj building) (outcomeState_ne.2 _)
      · cases building

theorem poll_outcome (few : (ledger hashers m.all).jobs.length < 2 ^ 64)
    (pushed : job ∈ (ledger hashers m.c₁).jobs)
    (answered : ∃ outcome, m.poll first second job.id = .buildStatus (outcomeState outcome)) :
    (job.id ∈ finishedJobs (m.c₂ ++ m.c₃ ++ m.c₄) ∨ HandedOut job.id m.c₄) ∧
      ∃ other ∈ (ledger hashers m.all).jobs, other.drvHash = job.drvHash ∧
        ∃ outcome, Reported m.all other.id outcome ∧
          m.poll first second job.id = .buildStatus (outcomeState outcome) := by
  obtain ⟨outcome, answered⟩ := answered
  have few₄ := Moments.few_of_append few
  have few₃ := Moments.few_of_append few₄
  have pushed₃ : job ∈ (ledger hashers (m.c₁ ++ m.c₂ ++ m.c₃)).jobs := by
    simp [jobs_append, pushed]
  cases hl : m.q₃.leased.get? job.id with
  | some lease =>
    rw [Moments.poll, pollReads_leased hl] at answered
    exact absurd (ControlResponse.buildStatus.inj answered).symm (outcomeState_ne.2 _)
  | none =>
    by_cases waits : ∃ k ∈ m.q₄.pending, k.id = job.id
    · rw [Moments.poll, pollReads_waits hl waits] at answered
      exact absurd (ControlResponse.buildStatus.inj answered).symm outcomeState_ne.1
    · have reply := Moments.poll_gone first second hl fun k hk hid => waits ⟨k, hk, hid⟩
      cases seen : (seenHash m.q₁ first m.q₂ job.id.val).bind m.q₅.getOutcome with
      | none =>
        rw [reply, seen] at answered
        exact absurd (ControlResponse.buildStatus.inj answered).symm outcomeState_ne.1
      | some told =>
        obtain ⟨drvHash, hd, found⟩ := Option.bind_eq_some_iff.mp seen
        have derivation := Moments.seenHash_job (Moments.few_of_append few₃) pushed hd
        constructor
        · by_contra quiet
          simp only [not_or] at quiet
          have unfinished : job.id ∉ finishedJobs (m.c₁ ++ m.c₂ ++ m.c₃ ++ m.c₄) := by
            intro ended
            have before : job.id ∈ finishedJobs m.c₁ := by
              simp only [finishedJobs_append, List.mem_append, not_or] at ended quiet
              tauto
            have late : m.poll first second job.id = .buildStatus .pending := poll_late few before
            rw [reply, seen] at late
            exact outcomeState_ne.1 (ControlResponse.buildStatus.inj late)
          exact waits (waits_until m.upTo₃ m.run₄ few₄ pushed₃ unfinished hl quiet.2)
        · obtain ⟨other, hj, hother, reported⟩ :=
            (outcomes_run m.upTo₅).reported drvHash told found
          refine ⟨other, hj, hother.trans derivation, told, reported, ?_⟩
          rw [reply, seen]

theorem poll_told (few : (ledger hashers m.all).jobs.length < 2 ^ 64)
    (pushed : job ∈ (ledger hashers m.c₁).jobs)
    (unfinished : job.id ∉ finishedJobs (m.c₁ ++ m.c₂)) (kept : ¬ HandedOut job.id m.c₂)
    (ended : job.id ∈ finishedJobs m.c₃) :
    ∃ outcome, m.poll first second job.id = .buildStatus (outcomeState outcome) := by
  have few₄ := Moments.few_of_append few
  have few₃ := Moments.few_of_append few₄
  have few₂ := Moments.few_of_append few₃
  have ended₃ : job.id ∈ finishedJobs (m.c₁ ++ m.c₂ ++ m.c₃) := by
    rw [finishedJobs_append]
    exact List.mem_append_right _ ended
  have gone₃ := gone_since m.upTo₃ few₃ ended₃
  have gone₄ := gone_since m.upTo₄ few₄ (finished_later ended₃ m.c₄)
  obtain ⟨drvHash, seen⟩ : ∃ drvHash, seenHash m.q₁ first m.q₂ job.id.val = some drvHash := by
    rw [seenHash_eq]
    cases hl : m.q₁.leased.get? job.id with
    | some lease => exact ⟨_, rfl⟩
    | none =>
      obtain ⟨k, hk, hid⟩ := waits_until m.run₁ m.run₂ few₂ pushed unfinished hl kept
      have listed : (m.q₂.pending.find? fun k => k.id == job.id).isSome = true :=
        List.find?_isSome.mpr ⟨k, hk, by simpa using hid⟩
      obtain ⟨found, hf⟩ := Option.isSome_iff_exists.mp listed
      exact ⟨found.drvHash, by simp [hf]⟩
  have derivation := Moments.seenHash_job few₂ pushed seen
  have stored := (outcomes_run m.upTo₅).kept few job
    (by simp [Moments.all, jobs_append, pushed])
    (by simp [Moments.all, finishedJobs_append, ended])
  obtain ⟨outcome, found⟩ := Option.isSome_iff_exists.mp stored
  refine ⟨outcome, ?_⟩
  rw [Moments.poll, pollReads_gone gone₃.1 gone₄.2, seen, derivation, Option.bind_some, found]

/-- Every poll of every job, whatever is called between its reads. -/
theorem poll_raced (hashers : Hashers) (ourId : EndpointId) (m : Moments hashers ourId)
    (few : (ledger hashers m.all).jobs.length < 2 ^ 64) (job : BuildJob)
    (pushed : job ∈ (ledger hashers m.c₁).jobs) (first : m.q₁.leased.Iter)
    (second : m.q₃.leased.Iter) : PollRaced m job (m.poll first second job.id) where
  late := poll_late few
  building _ := poll_building few pushed
  raced := poll_outcome few pushed
  told := poll_told few pushed

end Race

section Stale

/-- A derivation that a builder fails, and that is submitted again. -/
def failedOnce : List QueueEvent :=
  [.push "/nix/store/a.drv" ["kvm"] ["/nix/store/a"] [] 0 ⟨1⟩ true,
    .pull ⟨zeroBytes32⟩ ["kvm"] 5 (some sampleJob), .fail ⟨1⟩ ⟨zeroBytes32⟩ "out of memory" true,
    .push "/nix/store/a.drv" ["kvm"] ["/nix/store/a"] [] 6 ⟨2⟩ true]

def secondJob : BuildJob := { sampleJob with id := ⟨2⟩, submittedAt := 6 }

theorem stale_moments : ∃ m : Moments zeroHashers ⟨zeroBytes32⟩, m.all =
      failedOnce ++ [.pull ⟨zeroBytes32⟩ ["kvm"] 7 (some secondJob)] ∧ m.c₁ = failedOnce ∧
    (m.q₅.leased.get? ⟨2⟩).isSome = true ∧ ∀ first second, m.poll first second ⟨2⟩ =
      .buildStatus (.failed "out of memory") := by
  have start : QueueRun zeroHashers ⟨zeroBytes32⟩ [] _ := .nil
  have again := (((start.snoc (.push _ "/nix/store/a.drv" ["kvm"] ["/nix/store/a"] [] 0)).snoc
    (.pull _ ⟨zeroBytes32⟩ ["kvm"] 5)).snoc (.fail _ ⟨1⟩ ⟨zeroBytes32⟩ "out of memory")).snoc
    (.push _ "/nix/store/a.drv" ["kvm"] ["/nix/store/a"] [] 6)
  refine ⟨⟨_, [], [], [_], [], _, _, _, _, _, again, .nil, .nil,
    Run.nil.snoc (.pull _ ⟨zeroBytes32⟩ ["kvm"] 7), .nil⟩, rfl, rfl, rfl, fun first second => ?_⟩
  refine (pollReads_gone rfl (by intro k hk; cases hk)).trans ?_
  rw [seenHash_eq]
  rfl

/-- While it is being built, it is said to have failed. -/
theorem stale_raced : ∃ (m : Moments zeroHashers ⟨zeroBytes32⟩) (first : m.q₁.leased.Iter)
    (second : m.q₃.leased.Iter), PollRaced m secondJob (m.poll first second ⟨2⟩) ∧
      m.poll first second ⟨2⟩ = .buildStatus (.failed "out of memory") ∧
      (m.q₅.leased.get? ⟨2⟩).isSome = true := by
  obtain ⟨m, all, before, leased, answer⟩ := stale_moments
  obtain ⟨first⟩ := HashMap.iter_exists m.q₁.leased
  obtain ⟨second⟩ := HashMap.iter_exists m.q₃.leased
  have raced := poll_raced zeroHashers ⟨zeroBytes32⟩ m (by rw [all]; decide) secondJob
    (by rw [before]; decide) first second
  exact ⟨m, first, second, raced, answer first second, leased⟩

end Stale

end IrohNix.Control
