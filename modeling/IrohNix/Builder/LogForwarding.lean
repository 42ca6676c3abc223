import IrohNix.Builder.Execute
import IrohNix.Builder.Worker
import IrohNix.Lib.Collect

namespace IrohNix.Builder
open IrohNix.Lib IrohNix.Build

/-- Where the task that builds is. -/
inductive BuildTask where
  | starting
  | running
  | returned (built : Bool)
  | cancelled (built : Bool)

/-- Where the worker is: at its `select`, reading the answer to what a branch sent, behind the
loop, or done. -/
inductive Stage where
  | selecting
  | awaiting
  | left
  | completed
  | stopped

/-- A build whose log is streamed: the task, the two channels and the worker. -/
structure Forwarding where
  task : BuildTask
  heartbeatRx : List String
  logRx : List BuildLogLine
  currentStatus : String
  stage : Stage

def Forwarding.new : Forwarding := ⟨.starting, [], [], "starting", .selecting⟩

inductive ForwardEvent where
  | starts
  | puts (line : BuildLogLine)
  | returns (built : Bool)
  | cancels
  | sends (request : BuildQueueRequest)
  | notes (status : String)
  | acked
  | leaves
  | stops

/-- The turns of the task and of the worker in `execute_job_with_heartbeat`. Of the branches
that are ready the `select` takes any. The readers of the log have ended when the task
returns. -/
inductive ForwardStep (crypto : Ed25519) (key : crypto.SecretKey) (ctx : JobContext) :
    Forwarding → ForwardEvent → Forwarding → Prop where
  | starts (s : Forwarding) (task : s.task = .starting) :
      ForwardStep crypto key ctx s .starts
        { s with task := .running, heartbeatRx := s.heartbeatRx ++ ["building"] }
  | puts (s : Forwarding) (data : Bytes) (stream : UInt8) (task : s.task = .running)
      (room : s.logRx.length < 256) :
      ForwardStep crypto key ctx s (.puts ⟨ctx.jobId, data, stream⟩)
        { s with logRx := s.logRx ++ [⟨ctx.jobId, data, stream⟩] }
  | returns (s : Forwarding) (built : Bool) (task : s.task = .running) :
      ForwardStep crypto key ctx s (.returns built) { s with task := .returned built }
  | cancels (s : Forwarding) (built : Bool) (task : s.task = .returned built) :
      ForwardStep crypto key ctx s .cancels { s with task := .cancelled built }
  | beats (s : Forwarding) (stage : s.stage = .selecting) :
      ForwardStep crypto key ctx s (.sends (.heartbeat ctx.jobId s.currentStatus))
        { s with stage := .awaiting }
  | notes (s : Forwarding) (status : String) (rest : List String) (stage : s.stage = .selecting)
      (next : s.heartbeatRx = status :: rest) :
      ForwardStep crypto key ctx s (.notes status)
        { s with heartbeatRx := rest, currentStatus := status }
  | forwards (s : Forwarding) (line : BuildLogLine) (rest : List BuildLogLine)
      (stage : s.stage = .selecting) (next : s.logRx = line :: rest) :
      ForwardStep crypto key ctx s (.sends (.buildLog line.jobId line.data line.stream))
        { s with logRx := rest, stage := .awaiting }
  | acked (s : Forwarding) (stage : s.stage = .awaiting) :
      ForwardStep crypto key ctx s .acked { s with stage := .selecting }
  | leaves (s : Forwarding) (built : Bool) (stage : s.stage = .selecting)
      (task : s.task = .cancelled built) :
      ForwardStep crypto key ctx s .leaves { s with stage := .left }
  | completes (s : Forwarding) (outputs : List BuildOutput) (stage : s.stage = .left)
      (task : s.task = .cancelled true) :
      ForwardStep crypto key ctx s
        (.sends (completeRequest (signBuildResult crypto key ⟨ctx.jobId⟩ ctx.drvHash outputs)))
        { s with stage := .completed }
  | stops (s : Forwarding) (unfinished : s.stage ≠ .completed) :
      ForwardStep crypto key ctx s .stops { s with stage := .stopped }

/-- The log lines the build put on the channel. -/
def ForwardEvent.put : ForwardEvent → Option BuildLogLine
  | .puts line => some line
  | _ => none

/-- The log line a request carries on. -/
def ForwardEvent.forwarded : ForwardEvent → Option BuildLogLine
  | .sends (.buildLog jobId data stream) => some ⟨jobId, data, stream⟩
  | _ => none

def linesPut (h : List ForwardEvent) : List BuildLogLine := h.filterMap ForwardEvent.put

def linesForwarded (h : List ForwardEvent) : List BuildLogLine :=
  h.filterMap ForwardEvent.forwarded

/-- Completion was reported. -/
def CompleteSent (h : List ForwardEvent) : Prop :=
  ∃ result, .sends (completeRequest result) ∈ h

/-- The loop is left with nothing more on the log channel. -/
def LeavesDrained (_ : List ForwardEvent) (s : Forwarding) : ForwardEvent → Prop
  | .leaves => s.logRx = []
  | _ => True

variable {crypto : Ed25519} {key : crypto.SecretKey} {ctx : JobContext} {h : List ForwardEvent}
  {s : Forwarding}

/-- Lines leave the channel by being forwarded, in order, and by nothing else; none is put
behind the loop. -/
structure Forwards (ctx : JobContext) (h : List ForwardEvent) (s : Forwarding) : Prop where
  balance : linesPut h = linesForwarded h ++ s.logRx
  named : ∀ line ∈ s.logRx, line.jobId = ctx.jobId
  ended : s.stage = .left ∨ s.stage = .completed → ∃ built, s.task = .cancelled built
  completed : CompleteSent h ↔ s.stage = .completed

theorem linesPut_snoc (h : List ForwardEvent) (e : ForwardEvent) :
    linesPut (h ++ [e]) = linesPut h ++ e.put.toList := filterMap_snoc _ h e

theorem linesForwarded_snoc (h : List ForwardEvent) (e : ForwardEvent) :
    linesForwarded (h ++ [e]) = linesForwarded h ++ e.forwarded.toList := filterMap_snoc _ h e

theorem completeSent_snoc (h : List ForwardEvent) (e : ForwardEvent) :
    CompleteSent (h ++ [e]) ↔ CompleteSent h ∨ ∃ result, .sends (completeRequest result) = e := by
  simp only [CompleteSent, List.mem_append, List.mem_singleton, exists_or]

/-- A turn that neither puts a line nor takes one keeps the account. -/
theorem Forwards.keep {t : Forwarding} {e : ForwardEvent} (f : Forwards ctx h s)
    (quiet : e.put = none ∧ e.forwarded = none) (channel : t.logRx = s.logRx)
    (ended : t.stage = .left ∨ t.stage = .completed → ∃ built, t.task = .cancelled built)
    (completed : CompleteSent (h ++ [e]) ↔ t.stage = .completed) : Forwards ctx (h ++ [e]) t where
  balance := by
    rw [linesPut_snoc, linesForwarded_snoc, quiet.1, quiet.2, channel]
    simpa using f.balance
  named := channel ▸ f.named
  ended := ended
  completed := completed

theorem Forwards.step {t : Forwarding} {e : ForwardEvent} (f : Forwards ctx h s)
    (step : ForwardStep crypto key ctx s e t) : Forwards ctx (h ++ [e]) t := by
  have sent := completeSent_snoc h e
  rw [f.completed] at sent
  cases step with
  | starts task =>
    refine f.keep ⟨rfl, rfl⟩ rfl (fun behind => ?_) (by simpa using sent)
    obtain ⟨built, ended⟩ := f.ended behind
    cases task.symm.trans ended
  | puts data stream task room =>
    refine ⟨?_, ?_, fun behind => ?_, by simpa using sent⟩
    · rw [linesPut_snoc, linesForwarded_snoc, f.balance]
      simp [ForwardEvent.put, ForwardEvent.forwarded]
    · intro line hline
      rcases List.mem_append.mp hline with hline | hline
      · exact f.named line hline
      · rw [List.mem_singleton.mp hline]
    · exact f.ended behind
  | returns built task =>
    refine f.keep ⟨rfl, rfl⟩ rfl (fun behind => ?_) (by simpa using sent)
    obtain ⟨built, ended⟩ := f.ended behind
    cases task.symm.trans ended
  | cancels built task => exact f.keep ⟨rfl, rfl⟩ rfl (fun _ => ⟨built, rfl⟩) (by simpa using sent)
  | beats stage =>
    refine f.keep ⟨rfl, rfl⟩ rfl (by simp) ?_
    rw [sent, stage]
    simp [completeRequest]
  | notes status rest stage next =>
    refine f.keep ⟨rfl, rfl⟩ rfl f.ended (by simpa using sent)
  | forwards line rest stage next =>
    refine ⟨?_, ?_, by simp, ?_⟩
    · rw [linesPut_snoc, linesForwarded_snoc, f.balance, next]
      simp [ForwardEvent.put, ForwardEvent.forwarded]
    · exact fun l hl => f.named l (next ▸ List.mem_cons_of_mem _ hl)
    · rw [sent, stage]
      simp [completeRequest]
  | acked stage =>
    refine f.keep ⟨rfl, rfl⟩ rfl (by simp) ?_
    rw [sent, stage]
    simp
  | leaves built stage task =>
    refine f.keep ⟨rfl, rfl⟩ rfl (fun _ => ⟨built, task⟩) ?_
    rw [sent, stage]
    simp
  | completes outputs stage task =>
    refine f.keep ⟨rfl, rfl⟩ rfl (fun _ => ⟨true, task⟩) ?_
    rw [sent]
    simp
  | stops unfinished =>
    refine f.keep ⟨rfl, rfl⟩ rfl (by simp) ?_
    rw [sent]
    simpa using unfinished

theorem forwards_run (run : Run (ForwardStep crypto key ctx) .new h s) : Forwards ctx h s := by
  refine run.invariant (Forwards ctx) ?_ fun _ _ _ _ _ f step => f.step step
  exact ⟨rfl, by simp [Forwarding.new], by simp [Forwarding.new],
    by simp [CompleteSent, Forwarding.new]⟩

/-- The stage as a phase of the worker. -/
def Stage.phase (ctx : JobContext) : Stage → Phase
  | .selecting | .left => .working ctx
  | .awaiting => .awaitAck ctx
  | .completed | .stopped => .idle

/-- What is sent is what a worker that works on the job may send. -/
theorem forwarding_sends {t : Forwarding} {request : BuildQueueRequest}
    (run : Run (ForwardStep crypto key ctx) .new h s)
    (step : ForwardStep crypto key ctx s (.sends request) t) :
    ∃ phase, Phase.Sends crypto key (s.stage.phase ctx) request phase := by
  cases step with
  | beats stage =>
    rw [stage]
    exact ⟨_, .heartbeat ctx s.currentStatus⟩
  | forwards line rest stage next =>
    have named := (forwards_run run).named line (next ▸ List.mem_cons_self)
    rw [named, stage]
    exact ⟨_, .buildLog ctx line.data line.stream⟩
  | completes outputs stage task =>
    rw [stage]
    exact ⟨_, .complete ctx outputs _ rfl⟩

theorem drained_behind_loop (run : RunWhile LeavesDrained (ForwardStep crypto key ctx) .new h s) :
    s.stage = .left ∨ s.stage = .completed → s.logRx = [] := by
  refine run.invariant (fun _ s => s.stage = .left ∨ s.stage = .completed → s.logRx = []) ?_ ?_
  · simp [Forwarding.new]
  · intro h s e t run drained leaves step behind
    cases step with
    | puts data stream task room =>
      obtain ⟨built, ended⟩ := (forwards_run run).ended behind
      cases task.symm.trans ended
    | leaves => exact leaves
    | completes outputs stage => exact drained (.inl stage)
    | starts | returns | cancels | notes => exact drained behind
    | beats | forwards | acked | stops => simp at behind

/-- If the loop is only ever left with the log channel empty, then once completion is reported
every line of the build has been forwarded, in order; and at the moment it is left, that is so
exactly if the channel is empty. -/
theorem forwarded_while_drained (crypto : Ed25519) (key : crypto.SecretKey) (ctx : JobContext)
    (h : List ForwardEvent) (s : Forwarding)
    (run : RunWhile LeavesDrained (ForwardStep crypto key ctx) .new h s) :
    (CompleteSent h → linesForwarded h = linesPut h) ∧
      ∀ t, ForwardStep crypto key ctx s .leaves t →
        (linesForwarded (h ++ [.leaves]) = linesPut (h ++ [.leaves]) ↔
          LeavesDrained h s .leaves) := by
  have f := forwards_run run.run
  constructor
  · intro sent
    have drained := drained_behind_loop run (.inr (f.completed.mp sent))
    rw [f.balance, drained, List.append_nil]
  · intro t step
    have left := (f.step step).balance
    cases step
    rw [left, LeavesDrained]
    simp

section OneLine

theorem forwarded_one_line : ∃ h, CompleteSent h ∧ linesPut h = [⟨1, [104, 105], 1⟩] ∧
    linesForwarded h = linesPut h := by
  let ctx : JobContext := ⟨1, ⟨zeroBytes32⟩⟩
  have start : RunWhile LeavesDrained (ForwardStep plainCrypto ⟨zeroBytes32⟩ ctx) .new [] _ := .nil
  have built := ((start.snoc (.starts _ rfl) trivial).snoc
    (.puts _ [104, 105] 1 rfl (by decide)) trivial).snoc (.forwards _ _ _ rfl rfl) trivial
  have ended := ((built.snoc (.acked _ rfl) trivial).snoc (.returns _ true rfl) trivial).snoc
    (.cancels _ _ rfl) trivial
  have done := (ended.snoc (.leaves _ _ rfl rfl) rfl).snoc (.completes _ [] rfl rfl) trivial
  have sent := (forwards_run done.run).completed.mpr rfl
  exact ⟨_, sent, rfl, (forwarded_while_drained _ _ _ _ _ done).1 sent⟩

/-- The build's one line is still in the channel when the loop is left. -/
theorem last_line_dropped : ∃ h s,
    Run (ForwardStep plainCrypto ⟨zeroBytes32⟩ ⟨1, ⟨zeroBytes32⟩⟩) .new h s ∧ CompleteSent h ∧
      linesPut h = [⟨1, [104, 105], 1⟩] ∧ linesForwarded h = [] := by
  let ctx : JobContext := ⟨1, ⟨zeroBytes32⟩⟩
  have start : Run (ForwardStep plainCrypto ⟨zeroBytes32⟩ ctx) .new [] _ := .nil
  have built := (start.snoc (.starts _ rfl)).snoc (.puts _ [104, 105] 1 rfl (by decide))
  have ended := (built.snoc (.returns _ true rfl)).snoc (.cancels _ _ rfl)
  have done := (ended.snoc (.leaves _ _ rfl rfl)).snoc (.completes _ [] rfl rfl)
  exact ⟨_, _, done, (forwards_run done).completed.mpr rfl, rfl, rfl⟩

end OneLine

end IrohNix.Builder
