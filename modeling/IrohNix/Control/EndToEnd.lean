import IrohNix.Control.HookProtocol
import IrohNix.Control.HookSessions
import IrohNix.Control.PollRace

namespace IrohNix.Control
open IrohNix.Lib IrohNix.Build IrohNix.Nix

/-- What has been done by a hook whose questions the daemon answers, with the calls on the
daemon's queue so far. Others may call the queue at any time, also between the reads of a
poll. An answer may be lost, and so may a question. -/
inductive Served (hashers : Hashers) (ourId : EndpointId) :
    List HookEffect → List QueueEvent → BuildQueue → Prop where
  | start : Served hashers ourId [] [] (.new ourId)
  | others {t : List HookEffect} {c c' : List QueueEvent} {q q' : BuildQueue}
      (served : Served hashers ourId t c q) (run : Run (QueueStep hashers) q c' q') :
      Served hashers ourId t (c ++ c') q'
  | decides {t : List HookEffect} {c : List QueueEvent} {q : BuildQueue} (msg : String)
      (served : Served hashers ourId t c q) : Served hashers ourId (t ++ [.decides msg]) c q
  | logs {t : List HookEffect} {c : List QueueEvent} {q : BuildQueue} (line : String)
      (served : Served hashers ourId t c q) : Served hashers ourId (t ++ [.logs line]) c q
  | lost {t : List HookEffect} {c : List QueueEvent} {q : BuildQueue} (request : ControlRequest)
      (e : Error) (socket : NotBuild e) (served : Served hashers ourId t c q) :
      Served hashers ourId (t ++ [.asks request (some (.error e))]) c q
  | waits {t : List HookEffect} {c : List QueueEvent} {q : BuildQueue} (request : ControlRequest)
      (served : Served hashers ourId t c q) : Served hashers ourId (t ++ [.asks request none]) c q
  | hasBuilders {t : List HookEffect} {c : List QueueEvent} {q : BuildQueue}
      (served : Served hashers ourId t c q) (features : List String)
      (first second : q.leased.Iter) (timestamp : UInt64) :
      Served hashers ourId
        (t ++ [.asks (.hasBuilders features) (some (.ok (handleControlRequest hashers q first second
          timestamp (.hasBuilders features)).response))]) c q
  | submitBuild {t : List HookEffect} {c : List QueueEvent} {q : BuildQueue}
      (served : Served hashers ourId t c q) (build : HookBuild) (first second : q.leased.Iter)
      (timestamp : UInt64) :
      Served hashers ourId
        (t ++ [.asks build.submitRequest (some (.ok (handleControlRequest hashers q first second
          timestamp build.submitRequest).response))])
        (c ++ [submitCall hashers q build timestamp])
        (handleControlRequest hashers q first second timestamp build.submitRequest).queue
  | pollBuild {t : List HookEffect} (m : Moments hashers ourId)
      (served : Served hashers ourId t m.c₁ m.q₁) (j : JobId) (first : m.q₁.leased.Iter)
      (second : m.q₃.leased.Iter) :
      Served hashers ourId
        (t ++ [.asks (.pollBuild j.val) (some (.ok (m.poll first second j)))]) m.all m.q₅

/-- A job of the derivation was reported with this outcome. -/
def DerivationReported (hashers : Hashers) (c : List QueueEvent) (drvPath : String)
    (outcome : JobOutcome) : Prop :=
  ∃ job ∈ (ledger hashers c).jobs, job.drvHash = DrvHash.fromDrvPath hashers drvPath ∧
    Reported c job.id outcome

def Built (hashers : Hashers) (c : List QueueEvent) (drvPath : String) : Prop :=
  ∃ result, DerivationReported hashers c drvPath (.completed result)

/-- A build of the derivation was submitted, as this job. -/
def Submitted (t : List HookEffect) (drvPath : String) (jobId : UInt64) : Prop :=
  ∃ build : HookBuild, build.drvPath = drvPath ∧
    HookEffect.asks build.submitRequest (some (.ok (.buildSubmitted jobId))) ∈ t

namespace HookPhase

/-- The hook has not been told that this derivation is built. -/
def Open (drvPath : String) : HookPhase → Prop
  | .polling build .. | .failed build .. => build.drvPath = drvPath
  | .stopped _ => True
  | _ => False

/-- What the hook believes is so. -/
def Holds (hashers : Hashers) (t : List HookEffect) (c : List QueueEvent) : HookPhase → Prop
  | .polling build jobId _ => Submitted t build.drvPath jobId ∧ ∃ job ∈ (ledger hashers c).jobs,
      job.id = ⟨jobId⟩ ∧ job.drvHash = DrvHash.fromDrvPath hashers build.drvPath
  | .completed build _ outputs => ∃ result, result.outputs.map outputInfo = outputs ∧
      DerivationReported hashers c build.drvPath (.completed result)
  | .failed build jobId error => Submitted t build.drvPath jobId ∧ ∃ builder,
      DerivationReported hashers c build.drvPath (.failed builder error)
  | .stopped stop => ∀ msg, stop ≠ .error (.build msg)
  | _ => True

theorem Asking.closed {phase : HookPhase} (asking : phase.Asking) (drvPath : String) :
    ¬ phase.Open drvPath := by
  cases phase <;> first | exact id | exact asking.elim

end HookPhase

/-- What the hook believes is so, and all it has submitted is built, but for what is open. -/
structure Truthful (hashers : Hashers) (t : List HookEffect) (c : List QueueEvent)
    (phase : HookPhase) : Prop where
  holds : phase.Holds hashers t c
  closed : ∀ drvPath jobId, Submitted t drvPath jobId →
    Built hashers c drvPath ∨ phase.Open drvPath

section Growth

variable {hashers : Hashers} {c : List QueueEvent} {t : List HookEffect}

theorem DerivationReported.mono {drvPath : String} {outcome : JobOutcome}
    (reported : DerivationReported hashers c drvPath outcome) (more : List QueueEvent) :
    DerivationReported hashers (c ++ more) drvPath outcome := by
  obtain ⟨job, hj, hd, reported⟩ := reported
  exact ⟨job, by simp [jobs_append, hj], hd, reported.mono (List.subset_append_left _ _)⟩

theorem Built.mono {drvPath : String} (built : Built hashers c drvPath) (more : List QueueEvent) :
    Built hashers (c ++ more) drvPath := by
  obtain ⟨result, reported⟩ := built
  exact ⟨result, reported.mono more⟩

theorem Submitted.mono {drvPath : String} {jobId : UInt64} (submitted : Submitted t drvPath jobId)
    (more : List HookEffect) : Submitted (t ++ more) drvPath jobId := by
  obtain ⟨build, hd, hm⟩ := submitted
  exact ⟨build, hd, List.mem_append_left _ hm⟩

/-- Anything but a submission that is answered submits nothing. -/
theorem submitted_snoc {effect : HookEffect} {drvPath : String} {jobId : UInt64}
    (other : ∀ (build : HookBuild) jobId,
      effect ≠ .asks build.submitRequest (some (.ok (.buildSubmitted jobId))))
    (submitted : Submitted (t ++ [effect]) drvPath jobId) : Submitted t drvPath jobId := by
  obtain ⟨build, hd, hm⟩ := submitted
  rcases List.mem_append.mp hm with hm | hm
  · exact ⟨build, hd, hm⟩
  · exact absurd (List.mem_singleton.mp hm).symm (other build jobId)

theorem HookPhase.Holds.mono {phase : HookPhase} (holds : phase.Holds hashers t c)
    (more : List HookEffect) (calls : List QueueEvent) :
    phase.Holds hashers (t ++ more) (c ++ calls) := by
  cases phase with
  | polling build jobId status =>
    obtain ⟨submitted, job, hj, hid, hd⟩ := holds
    exact ⟨submitted.mono more, job, by simp [jobs_append, hj], hid, hd⟩
  | completed build jobId outputs =>
    obtain ⟨result, ho, reported⟩ := holds
    exact ⟨result, ho, reported.mono calls⟩
  | failed build jobId error =>
    obtain ⟨submitted, builder, reported⟩ := holds
    exact ⟨submitted.mono more, builder, reported.mono calls⟩
  | stopped stop => exact holds
  | ready | willing | unwilling | accepted | offered => trivial

end Growth

section Steps

variable {hashers : Hashers} {ourId : EndpointId} {t : List HookEffect} {c : List QueueEvent}
  {q : BuildQueue} {phase phase' : HookPhase}

/-- While nothing is open, nothing is submitted that is not built. -/
theorem Truthful.quiet (truth : Truthful hashers t c phase) {effect : HookEffect}
    (holds : phase'.Holds hashers (t ++ [effect]) c)
    (other : ∀ (build : HookBuild) jobId,
      effect ≠ .asks build.submitRequest (some (.ok (.buildSubmitted jobId))))
    (stays : ∀ drvPath, phase.Open drvPath → phase'.Open drvPath) :
    Truthful hashers (t ++ [effect]) c phase' := by
  refine ⟨holds, fun drvPath jobId submitted => ?_⟩
  rcases truth.closed drvPath jobId (submitted_snoc other submitted) with built | isOpen
  · exact .inl built
  · exact .inr (stays drvPath isOpen)

theorem truthful_decides (truth : Truthful hashers t c phase) {msg : String}
    (step : HookPhase.Step phase (.decides msg) phase') :
    Truthful hashers (t ++ [.decides msg]) c phase' := by
  cases step with
  | postpones build unable => exact truth.quiet trivial (fun _ _ h => by cases h) fun _ h => h.elim
  | declines build able => exact truth.quiet trivial (fun _ _ h => by cases h) fun _ h => h.elim
  | accepts build => exact truth.quiet trivial (fun _ _ h => by cases h) fun _ h => h.elim
  | offers build => exact truth.quiet trivial (fun _ _ h => by cases h) fun _ h => h.elim

/-- A question that is not answered ends the conversation. -/
theorem stopped_of_unanswered {request : ControlRequest}
    {answer : Option (Except Error ControlResponse)}
    (unanswered : ∀ response, answer ≠ some (.ok response))
    (step : HookPhase.Step phase (.asks request answer) phase') :
    phase' = .stopped .waits ∧ answer = none ∨
      ∃ e, phase' = .stopped (.error e) ∧ answer = some (.error e) := by
  cases answer with
  | none => cases step <;> exact .inl ⟨rfl, rfl⟩
  | some answer =>
    cases answer with
    | error e => cases step <;> exact .inr ⟨e, rfl, rfl⟩
    | ok response => exact absurd rfl (unanswered response)

/-- A submission is answered with the identifier of the job that it pushes. -/
theorem submit_answer (hashers : Hashers) (q : BuildQueue) (build : HookBuild)
    (first second : q.leased.Iter) (timestamp : UInt64) : ∃ job,
      (submitCall hashers q build timestamp).pushed hashers = some job ∧
        job.drvHash = DrvHash.fromDrvPath hashers build.drvPath ∧
        (handleControlRequest hashers q first second timestamp build.submitRequest).response =
          .buildSubmitted job.id.val :=
  ⟨_, rfl, rfl, rfl⟩

theorem truthful_submits (truth : Truthful hashers t c phase) (build : HookBuild)
    (first second : q.leased.Iter) (timestamp : UInt64)
    (step : HookPhase.Step phase (.asks build.submitRequest (some (.ok (handleControlRequest hashers
      q first second timestamp build.submitRequest).response))) phase') :
    Truthful hashers
      (t ++ [.asks build.submitRequest (some (.ok (handleControlRequest hashers q first second
        timestamp build.submitRequest).response))])
      (c ++ [submitCall hashers q build timestamp]) phase' := by
  generalize hr : build.submitRequest = request at step
  cases step with
  | asks => cases hr
  | polls => cases hr
  | submits offered inputStorePaths missingOutputs answer =>
    have drv : build.drvPath = offered.drvPath := (ControlRequest.submitBuild.inj hr).1
    obtain ⟨job, pushed, derivation, answered⟩ := submit_answer hashers q build first second timestamp
    have recorded : job ∈ (ledger hashers (c ++ [submitCall hashers q build timestamp])).jobs := by
      simp [ledger, pushed]
    rw [← hr, answered]
    constructor
    · refine ⟨⟨build, drv, by simp⟩, job, recorded, rfl, drv ▸ derivation⟩
    · intro drvPath jobId submitted
      obtain ⟨build', hd, hm⟩ := submitted
      rcases List.mem_append.mp hm with before | now
      · rcases truth.closed drvPath jobId ⟨build', hd, before⟩ with built | isOpen
        · exact .inl (built.mono _)
        · exact isOpen.elim
      · have same := List.mem_singleton.mp now
        simp only [HookEffect.asks.injEq, HookBuild.submitRequest,
          ControlRequest.submitBuild.injEq] at same
        exact .inr (drv.symm.trans (same.1.1.symm.trans hd))

theorem poll_status (m : Moments hashers ourId) (first : m.q₁.leased.Iter)
    (second : m.q₃.leased.Iter) (j : JobId) :
    (∃ builder, m.poll first second j = .buildStatus (.building builder)) ∨
      m.poll first second j = .buildStatus .pending ∨
      ∃ outcome, m.poll first second j = .buildStatus (outcomeState outcome) := by
  cases hl : m.q₃.leased.get? j with
  | some lease => exact .inl ⟨_, pollReads_leased hl⟩
  | none =>
    by_cases waits : ∃ job ∈ m.q₄.pending, job.id = j
    · exact .inr (.inl (pollReads_waits hl waits))
    · have reply := Moments.poll_gone first second hl fun job hj hid => waits ⟨job, hj, hid⟩
      cases seen : (seenHash m.q₁ first m.q₂ j.val).bind m.q₅.getOutcome with
      | none =>
        rw [seen] at reply
        exact .inr (.inl reply)
      | some outcome =>
        rw [seen] at reply
        exact .inr (.inr ⟨outcome, reply⟩)

theorem truthful_polls (m : Moments hashers ourId) (truth : Truthful hashers t m.c₁ phase)
    (few : (ledger hashers m.all).jobs.length < 2 ^ 64) (j : JobId) (first : m.q₁.leased.Iter)
    (second : m.q₃.leased.Iter)
    (step : HookPhase.Step phase (.asks (.pollBuild j.val) (some (.ok (m.poll first second j))))
      phase') :
    Truthful hashers (t ++ [.asks (.pollBuild j.val) (some (.ok (m.poll first second j)))]) m.all
      phase' := by
  have later : m.all = m.c₁ ++ (m.c₂ ++ m.c₃ ++ m.c₄ ++ m.c₅) := by simp [Moments.all]
  have unsubmitted : ∀ (build : HookBuild) jobId,
      HookEffect.asks (.pollBuild j.val) (some (.ok (m.poll first second j))) ≠
        .asks build.submitRequest (some (.ok (.buildSubmitted jobId))) := by
    intro build jobId h
    cases h
  generalize hr : ControlRequest.pollBuild j.val = request at step
  cases step with
  | asks => cases hr
  | submits => cases hr
  | polls build jobId status answer =>
    cases hr
    have grown := truth.holds.mono [HookEffect.asks (.pollBuild j.val)
      (some (.ok (m.poll first second j)))] (m.c₂ ++ m.c₃ ++ m.c₄ ++ m.c₅)
    rw [← later] at grown
    obtain ⟨submitted, job, pushed, hid, derivation⟩ := truth.holds
    obtain rfl : job.id = j := hid
    have still : ∀ drvPath jobId, Submitted (t ++ [HookEffect.asks (.pollBuild job.id.val)
        (some (.ok (m.poll first second job.id)))]) drvPath jobId →
          Built hashers m.all drvPath ∨ build.drvPath = drvPath := by
      intro drvPath jobId asked
      rcases truth.closed drvPath jobId (submitted_snoc unsubmitted asked) with built | isOpen
      · exact .inl (later ▸ built.mono _)
      · exact .inr isOpen
    rcases poll_status m first second job.id with ⟨builder, h⟩ | h | ⟨outcome, h⟩
    · rw [h] at grown still ⊢
      exact ⟨grown, still⟩
    · rw [h] at grown still ⊢
      exact ⟨grown, still⟩
    · obtain ⟨_, other, hj, hother, outcome, reported, h⟩ := poll_outcome few pushed ⟨outcome, h⟩
      have told : DerivationReported hashers m.all build.drvPath outcome :=
        ⟨other, hj, hother.trans derivation, reported⟩
      rw [h] at still ⊢
      cases outcome with
      | completed result =>
        refine ⟨⟨result, rfl, told⟩, fun drvPath jobId asked => .inl ?_⟩
        rcases still drvPath jobId asked with built | rfl
        · exact built
        · exact ⟨result, told⟩
      | failed builder error => exact ⟨⟨submitted.mono _, builder, told⟩, still⟩

/-- So it is after every run of a hook and a daemon. -/
theorem truthful_run (served : Served hashers ourId t c q)
    (few : (ledger hashers c).jobs.length < 2 ^ 64) (run : Run HookPhase.Step .ready t phase) :
    Truthful hashers t c phase := by
  induction served generalizing phase with
  | start =>
    rw [run.nil_inv]
    refine ⟨trivial, fun drvPath jobId submitted => ?_⟩
    obtain ⟨_, _, hm⟩ := submitted
    cases hm
  | @others t c c' q q' served more ih =>
    have truth := ih (Moments.few_of_append few) run
    refine ⟨by simpa using truth.holds.mono [] c', fun drvPath jobId submitted => ?_⟩
    rcases truth.closed drvPath jobId submitted with built | isOpen
    · exact .inl (built.mono c')
    · exact .inr isOpen
  | decides msg served ih =>
    obtain ⟨before, earlier, step⟩ := run.last_step
    exact truthful_decides (ih few earlier) step
  | logs line served ih =>
    obtain ⟨before, earlier, step⟩ := run.last_step
    cases step with
    | logs _ _ may =>
      have truth := ih few earlier
      exact truth.quiet (by simpa using truth.holds.mono [.logs line] []) (fun _ _ h => by cases h)
        fun _ h => h
  | lost request e socket served ih =>
    obtain ⟨before, earlier, step⟩ := run.last_step
    rcases stopped_of_unanswered (by simp) step with ⟨_, h⟩ | ⟨e', rfl, h⟩
    · cases h
    · cases h
      refine (ih few earlier).quiet ?_ (fun _ _ h => by cases h) fun _ _ => trivial
      intro msg h
      cases h
      exact socket msg rfl
  | waits request served ih =>
    obtain ⟨before, earlier, step⟩ := run.last_step
    rcases stopped_of_unanswered (by simp) step with ⟨rfl, _⟩ | ⟨e', _, h⟩
    · refine (ih few earlier).quiet ?_ (fun _ _ h => by cases h) fun _ _ => trivial
      intro msg h
      cases h
    · cases h
  | hasBuilders served features first second timestamp ih =>
    obtain ⟨before, earlier, step⟩ := run.last_step
    generalize hr : ControlRequest.hasBuilders features = request at step
    cases step with
    | submits => cases hr
    | polls => cases hr
    | asks asking build answer =>
      refine (ih few earlier).quiet trivial (fun _ _ h => by cases h) fun drvPath isOpen => ?_
      exact (asking.closed drvPath isOpen).elim
  | submitBuild served build first second timestamp ih =>
    obtain ⟨before, earlier, step⟩ := run.last_step
    exact truthful_submits (ih (Moments.few_of_append few) earlier) build first second timestamp step
  | pollBuild m served j first second ih =>
    obtain ⟨before, earlier, step⟩ := run.last_step
    have few₁ : (ledger hashers m.c₁).jobs.length < 2 ^ 64 := Moments.few_of_append
      (Moments.few_of_append (Moments.few_of_append (Moments.few_of_append few)))
    exact truthful_polls m (ih few₁ earlier) few j first second step

end Steps

/-- A hook that succeeds has had every build that it submitted reported complete to the
daemon's queue; one that says a build failed repeats the error of a report. -/
theorem hook_truthful (hashers : Hashers) (ourId : EndpointId) (connect : Except String Unit)
    (writeFails : Nat → Option IoError) (s : HookState) (c : List QueueEvent) (q : BuildQueue)
    (served : Served hashers ourId (runBuildHook connect writeFails s).effects c q)
    (few : (ledger hashers c).jobs.length < 2 ^ 64) :
    ((runBuildHook connect writeFails s).result = .ok () → ∀ drvPath jobId,
      Submitted (runBuildHook connect writeFails s).effects drvPath jobId →
        Built hashers c drvPath) ∧
    ∀ error, (runBuildHook connect writeFails s).result =
        .error (.error (.build ("remote build failed: " ++ error))) →
      ∃ drvPath jobId builder, Submitted (runBuildHook connect writeFails s).effects drvPath jobId ∧
        DerivationReported hashers c drvPath (.failed builder error) := by
  obtain ⟨phase, run, ends⟩ := hook_conforms connect writeFails s
  have truth := truthful_run served few run
  constructor
  · intro succeeds drvPath jobId submitted
    rw [succeeds] at ends
    cases ends with
    | returns between =>
      rcases truth.closed drvPath jobId submitted with built | isOpen
      · exact built
      · exact (between.closed drvPath isOpen).elim
  · intro error fails
    rw [fails] at ends
    generalize hs : HookStop.error (.build ("remote build failed: " ++ error)) = stop at ends
    cases ends with
    | fails build jobId error' =>
      simp only [HookStop.error.injEq, Error.build.injEq, String.append_right_inj] at hs
      obtain ⟨submitted, builder, reported⟩ := truth.holds
      exact ⟨build.drvPath, jobId, builder, submitted, hs ▸ reported⟩
    | stops stop => exact absurd hs.symm (truth.holds _)
    | breaks stop unfailed other => exact absurd hs.symm (other _)

section Sample

/-- The job is submitted and leased; it is completed while it is polled. -/
theorem sample_moments : ∃ m : Moments zeroHashers ⟨zeroBytes32⟩,
    Served zeroHashers ⟨zeroBytes32⟩ (startTrace sampleBuild 1 1) m.c₁ m.q₁ ∧
      (ledger zeroHashers m.all).jobs.length = 1 ∧ ∀ first second,
        m.poll first second ⟨1⟩ = .buildStatus (.completed []) := by
  obtain ⟨order⟩ := HashMap.iter_exists (BuildQueue.new ⟨zeroBytes32⟩).leased
  have opened : Served zeroHashers ⟨zeroBytes32⟩ [] [] _ := .start
  have asked := opened.hasBuilders sampleBuild.systemFeatures order order 0
  have submitted := ((asked.decides "# accept\n").decides sampleBuild.machineSpec).submitBuild
    sampleBuild order order 0
  have leased := submitted.others (Run.nil.snoc (.pull _ ⟨zeroBytes32⟩ ["kvm"] 5))
  have calls : QueueRun zeroHashers ⟨zeroBytes32⟩ [] _ := .nil
  have run := (calls.snoc (.push _ "/nix/store/a.drv" ["kvm"] [] [⟨"/nix/store/a-x", zeroBytes32⟩]
    0)).snoc (.pull _ ⟨zeroBytes32⟩ ["kvm"] 5)
  refine ⟨⟨_, [], [_], [], [], _, _, _, _, _, run, .nil,
    Run.nil.snoc (.complete _ ⟨1⟩ ⟨zeroBytes32⟩ sampleResult), .nil, .nil⟩, leased, rfl,
    fun first second => ?_⟩
  refine (pollReads_gone rfl (by intro k hk; cases hk)).trans ?_
  rw [seenHash_eq]
  rfl

/-- The hook that has it built succeeds, and it is built. -/
theorem sample_truthful : ∃ c, Built zeroHashers c "/nix/store/a.drv" := by
  obtain ⟨m, served, one, answered⟩ := sample_moments
  obtain ⟨first⟩ := HashMap.iter_exists m.q₁.leased
  obtain ⟨second⟩ := HashMap.iter_exists m.q₃.leased
  have polled := Served.pollBuild m served ⟨1⟩ first second
  rw [answered] at polled
  have fits : sampleBuild.Fits :=
    ⟨stringFits_of (by decide), stringFits_of (by decide), stringsFit_nil,
      stringsFit_one (stringFits_of (by decide)), stringsFit_nil⟩
  have unset : ∀ e ∈ ([] : List (String × String)), StringFits e.1 ∧ StringFits e.2 := by simp
  obtain ⟨decided, carried⟩ := hookLoop_sessions [.built sampleBuild 1 1 [] []]
    (fun session hs => List.mem_singleton.mp hs ▸ fits) [] none [] 0 false
  have hook := (runBuildHook_run unset _ none (fun _ => none) _ 0 false).trans
    (carried.trans (congrArg _ (funext fun _ => hookLoop_ending .done (by intro b hb; cases hb) none
      decided false)))
  have effects := congrArg Logged.effects hook
  have succeeds := congrArg Logged.result hook
  refine ⟨m.all, (hook_truthful zeroHashers ⟨zeroBytes32⟩ (.ok ()) (fun _ => none) _ m.all m.q₅
    (effects ▸ ?_) (one ▸ by omega)).1 succeeds "/nix/store/a.drv" 1 (effects ▸ ?_)⟩
  · exact polled
  · exact ⟨sampleBuild, rfl, by simp [sessionsTrace, HookSession.trace, startTrace]⟩

end Sample

end IrohNix.Control
