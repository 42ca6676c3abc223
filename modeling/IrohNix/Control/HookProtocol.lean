import IrohNix.Control.Hook
import IrohNix.Lib.Protocol

namespace IrohNix.Control
open IrohNix.Lib IrohNix.Build IrohNix.Nix

/-- Where the hook's conversation with the daemon and nix-daemon stands. -/
inductive HookPhase where
  | ready
  | willing (build : HookBuild)
  | unwilling (build : HookBuild)
  | accepted (build : HookBuild)
  | offered (build : HookBuild)
  | polling (build : HookBuild) (jobId : UInt64) (status : BuildState)
  | completed (build : HookBuild) (jobId : UInt64) (outputs : List OutputInfo)
  | failed (build : HookBuild) (jobId : UInt64) (error : String)
  | stopped (stop : HookStop)

namespace HookPhase

/-- An answer that does not answer the question, or none, ends the conversation. -/
def refused (unexpected : String) : Option (Except Error ControlResponse) → HookPhase
  | none => .stopped .waits
  | some (.error e) => .stopped (.error e)
  | some (.ok (.error message)) => .stopped (.error (.build message))
  | some (.ok _) => .stopped (.error (.protocol unexpected))

def afterHasBuilders (build : HookBuild) :
    Option (Except Error ControlResponse) → HookPhase
  | some (.ok (.hasBuilders true _)) => .willing build
  | some (.ok (.hasBuilders false _)) => .unwilling build
  | answer => refused "unexpected response to HasBuilders" answer

def afterSubmit (build : HookBuild) : Option (Except Error ControlResponse) → HookPhase
  | some (.ok (.buildSubmitted jobId)) => .polling build jobId .pending
  | answer => refused "unexpected response to SubmitBuild" answer

def afterStatus (build : HookBuild) (jobId : UInt64) : BuildState → HookPhase
  | .completed outputs => .completed build jobId outputs
  | .failed error => .failed build jobId error
  | status => .polling build jobId status

def afterPoll (build : HookBuild) (jobId : UInt64) :
    Option (Except Error ControlResponse) → HookPhase
  | some (.ok (.buildStatus status)) => afterStatus build jobId status
  | answer => refused "unexpected response to PollBuild" answer

/-- The lines of the log that a phase may write. -/
def logLines : HookPhase → List String
  | .polling _ _ (.building builderId) => ["iroh-nix: building on remote builder " ++ builderId]
  | .completed _ _ outputs => outputs.map outputLine
  | .failed _ _ error => ["iroh-nix: build failed: " ++ error]
  | _ => []

/-- A build may be asked about once the one before it is turned down or completed. -/
def Asking : HookPhase → Prop
  | .ready | .completed .. => True
  | _ => False

/-- The hook's protocol. -/
inductive Step : HookPhase → HookEffect → HookPhase → Prop where
  | asks {phase : HookPhase} (asking : phase.Asking) (build : HookBuild)
      (answer : Option (Except Error ControlResponse)) :
      Step phase (.asks (.hasBuilders build.systemFeatures) answer) (afterHasBuilders build answer)
  | postpones (build : HookBuild) (unable : build.amWilling = 0) :
      Step (.unwilling build) (.decides "# postpone\n") .ready
  | declines (build : HookBuild) (able : build.amWilling ≠ 0) :
      Step (.unwilling build) (.decides "# decline\n") .ready
  | accepts (build : HookBuild) : Step (.willing build) (.decides "# accept\n") (.accepted build)
  | offers (build : HookBuild) : Step (.accepted build) (.decides build.machineSpec) (.offered build)
  | submits (build : HookBuild) (inputStorePaths missingOutputs : List String)
      (answer : Option (Except Error ControlResponse)) :
      Step (.offered build)
        (.asks { build with inputStorePaths, missingOutputs }.submitRequest answer)
        (afterSubmit build answer)
  | polls (build : HookBuild) (jobId : UInt64) (status : BuildState)
      (answer : Option (Except Error ControlResponse)) :
      Step (.polling build jobId status) (.asks (.pollBuild jobId) answer)
        (afterPoll build jobId answer)
  | logs (phase : HookPhase) (line : String) (may : line ∈ phase.logLines) :
      Step phase (.logs line) phase

/-- How the hook returns where its conversation stands. It succeeds only between builds, and
tells of a failed build. -/
inductive Ends : Except HookStop Unit → HookPhase → Prop where
  | returns {phase : HookPhase} (between : phase.Asking) : Ends (.ok ()) phase
  | fails (build : HookBuild) (jobId : UInt64) (error : String) :
      Ends (.error (.error (.build ("remote build failed: " ++ error)))) (.failed build jobId error)
  | stops (stop : HookStop) : Ends (.error stop) (.stopped stop)
  | breaks {phase : HookPhase} (stop : HookStop) (unfinished : ∀ build jobId error,
      phase ≠ .failed build jobId error) (other : ∀ msg, stop ≠ .error (.build msg)) :
      Ends (.error stop) phase

/-- A part of the hook goes on like this if it succeeds; if not, the hook returns. -/
def Leaves {α : Type} (ok : α → HookPhase → Prop) : Except HookStop α → HookPhase → Prop
  | .ok a, phase => ok a phase
  | .error stop, phase => Ends (.error stop) phase

/-- Not a phase in which the hook has learnt that the build failed. -/
def Unfailed (phase : HookPhase) : Prop := ∀ build jobId error, phase ≠ .failed build jobId error

theorem Asking.unfailed {phase : HookPhase} (asking : phase.Asking) : phase.Unfailed := by
  intro build jobId error h
  subst h
  exact asking

end HookPhase

/-- An error that tells nothing of a build. -/
def NotBuild (e : Error) : Prop := ∀ msg, e ≠ .build msg

section Readers

theorem ioError_notBuild (e : IoError) : NotBuild (ioError e) := by
  intro msg h
  cases h

theorem protocol_notBuild (text : String) : NotBuild (.protocol text) := by
  intro msg h
  cases h

theorem readU32_fails : readU32.FailsOnly NotBuild :=
  (Reading.FailsOnly.exactly (protocol_notBuild _) ioError_notBuild).bind fun _ => .pure _

theorem readU64_fails : readU64.FailsOnly NotBuild :=
  (Reading.FailsOnly.exactly (protocol_notBuild _) ioError_notBuild).bind fun _ => .pure _

theorem allocate_fails (size count : Nat) : (allocate size count).FailsOnly NotBuild := by
  unfold allocate
  split
  · exact .panic _
  · exact .pure _

theorem readVec_fails (len : Nat) : (readVec len).FailsOnly NotBuild :=
  (allocate_fails 1 len).bind fun _ =>
    .exactly (by intro msg h; cases h) ioError_notBuild

theorem skipPadding_fails (len : Nat) : (skipPadding len).FailsOnly NotBuild := by
  unfold skipPadding
  split
  · exact (readVec_fails _).bind fun _ => .pure _
  · exact .pure _

theorem fromUtf8_fails (buf : Bytes) : (fromUtf8 buf).FailsOnly NotBuild := by
  unfold fromUtf8
  split
  · exact .pure _
  · exact .fail (protocol_notBuild _)

theorem readString_fails : readString.FailsOnly NotBuild :=
  readU64_fails.bind fun _ => (readVec_fails _).bind fun buf =>
    (skipPadding_fails _).bind fun _ => fromUtf8_fails buf

theorem readStringSet_fails : readStringSet.FailsOnly NotBuild :=
  readU64_fails.bind fun _ => (allocate_fails _ _).bind fun _ => readString_fails.times _

theorem readSetting_fails : readSetting.FailsOnly NotBuild := by
  refine readU32_fails.bind fun flag => ?_
  unfold readFlagged
  split
  · exact .pure _
  · split
    · exact .fail (protocol_notBuild _)
    · exact readString_fails.bind fun key => readString_fails.bind fun value => .pure _

theorem readSettings_fails : readSettings.FailsOnly NotBuild := by
  intro r e h
  rw [readSettings] at h
  generalize (∅ : HashMap String String) = settings at h
  induction hn : r.rest.length using Nat.strong_induction_on generalizing r settings with
  | _ n ih =>
    subst hn
    unfold readSettingsFrom at h
    split at h
    · rename_i hr
      cases h
      exact readSetting_fails _ _ hr
    · cases h
    · rename_i hr
      exact ih _ (readSetting_shorter hr) _ _ h rfl

end Readers

namespace HookPhase

section Parts

variable {start next : HookPhase} {answers : List (Except Error ControlResponse)}
  {writeFails : Nat → Option IoError} {s : HookState} {build : HookBuild}

theorem read_conforms {α : Type} {m : NixRead α} (fails : m.FailsOnly NotBuild)
    (unfailed : start.Unfailed) : Conforms Step start (read m s)
      (Leaves fun _ phase => phase = start) := by
  rw [read]
  split
  · exact .pure rfl
  · rename_i stop hr
    refine .fail (.breaks _ unfailed ?_)
    intro msg h
    cases stop with
    | error e =>
      cases h
      exact fails _ _ hr _ rfl
    | panic text => cases h

theorem writeDecision_conforms {msg : String} (unfailed : start.Unfailed)
    (may : Step start (.decides msg) next) :
    Conforms Step start (writeDecision writeFails msg s) (Leaves fun _ phase => phase = next) := by
  rw [writeDecision]
  split
  · rename_i e _
    exact .fail (.breaks _ unfailed fun msg h => by cases h)
  · exact .performs may (.pure rfl)

/-- A question and what becomes of its answer. -/
theorem ask_conforms {request : ControlRequest}
    {after : Option (Except Error ControlResponse) → HookPhase}
    (may : ∀ answer, Step start (.asks request answer) (after answer))
    (unanswered : after none = .stopped .waits)
    (lost : ∀ e, after (some (.error e)) = .stopped (.error e)) :
    Conforms Step start (ask request answers)
      (Leaves fun a phase => phase = after (some (.ok a.1))) := by
  cases answers with
  | nil =>
    refine .performs (may none) ?_
    rw [unanswered]
    exact .fail (.stops _)
  | cons answer answers =>
    refine .performs (may (some answer)) ?_
    cases answer with
    | ok response => exact .pure rfl
    | error e =>
      rw [lost e]
      exact .fail (.stops _)

theorem hasBuilders_conforms (asking : start.Asking) :
    Conforms Step start (ControlClient.hasBuilders build.systemFeatures answers)
      (Leaves fun a phase => phase = if a.1.1 then .willing build else .unwilling build) := by
  refine (ask_conforms (fun answer => .asks asking build answer) rfl fun _ => rfl).bind ?_
    fun _ _ h => h
  intro a phase h
  obtain ⟨resp, rest⟩ := a
  cases h
  cases resp with
  | hasBuilders available count => cases available <;> exact .pure rfl
  | buildSubmitted | buildStatus | error => exact .fail (.stops _)

theorem submitBuild_conforms (build : HookBuild) {inputStorePaths missingOutputs : List String} :
    Conforms Step (.offered build) (ControlClient.submitBuild build.drvPath build.neededSystem
      build.requiredFeatures { build with inputStorePaths }.inputPaths missingOutputs answers)
      (Leaves fun a phase => phase = .polling build a.1 .pending) := by
  refine (ask_conforms (fun answer => .submits build inputStorePaths missingOutputs answer) rfl
    fun _ => rfl).bind ?_ fun _ _ h => h
  intro a phase h
  obtain ⟨resp, rest⟩ := a
  cases h
  cases resp with
  | buildSubmitted jobId => exact .pure rfl
  | hasBuilders | buildStatus | error => exact .fail (.stops _)

theorem pollBuild_conforms {jobId : UInt64} {status : BuildState} :
    Conforms Step (.polling build jobId status) (ControlClient.pollBuild jobId answers)
      (Leaves fun a phase => phase = afterStatus build jobId a.1) := by
  refine (ask_conforms (fun answer => .polls build jobId status answer) rfl fun _ => rfl).bind ?_
    fun _ _ h => h
  intro a phase h
  obtain ⟨resp, rest⟩ := a
  cases h
  cases resp with
  | buildStatus status => exact .pure rfl
  | hasBuilders | buildSubmitted | error => exact .fail (.stops _)

theorem logEach_conforms {logFd : Bool} {lines : List String}
    (may : ∀ line ∈ lines, line ∈ start.logLines) :
    Conforms Step start (logEach logFd lines) (Leaves fun _ phase => phase = start) := by
  unfold logEach
  split
  · exact .forEach (fun line hl => .perform (.logs start line (may line hl)) ⟨rfl, rfl⟩) rfl
  · exact .pure rfl

/-- The loop ends in one of the two outcomes of the build. -/
theorem pollLoop_conforms {jobId : UInt64} {status : BuildState} {logFd : Bool} :
    Conforms Step (.polling build jobId status) (pollLoop jobId logFd answers)
      (Leaves fun _ phase => ∃ outputs, phase = .completed build jobId outputs) := by
  induction answers generalizing status with
  | nil =>
    exact ⟨.stopped .waits, Run.nil.snoc (.polls build jobId status none), .stops _⟩
  | cons answer answers ih =>
    refine pollBuild_conforms.bind ?_ fun _ _ h => h
    intro a phase h
    obtain ⟨status', rest⟩ := a
    cases h
    cases status' with
    | pending => exact ih
    | building builderId =>
      refine (logEach_conforms fun line hl => hl).bind ?_ fun _ _ h => h
      intro _ phase h
      cases h
      exact ih
    | completed outputs =>
      refine (logEach_conforms fun line hl => hl).bind ?_ fun _ _ h => h
      intro _ phase h
      cases h
      exact .pure ⟨outputs, rfl⟩
    | failed error =>
      refine (logEach_conforms fun line hl => hl).bind ?_ fun _ _ h => h
      intro _ phase h
      cases h
      exact .fail (.fails build jobId error)

theorem readTry_conforms (unfailed : start.Unfailed) :
    Conforms Step start (readTry s) (Leaves fun _ phase => phase = start) := by
  refine (read_conforms readU32_fails unfailed).bind ?_ fun _ _ h => h
  intro _ phase h
  cases h
  refine (read_conforms readString_fails unfailed).bind ?_ fun _ _ h => h
  intro _ phase h
  cases h
  refine (read_conforms readString_fails unfailed).bind ?_ fun _ _ h => h
  intro _ phase h
  cases h
  refine (read_conforms readStringSet_fails unfailed).bind ?_ fun _ _ h => h
  intro _ phase h
  exact .pure h

theorem turnDown_conforms : Conforms Step (.unwilling build) (turnDown writeFails build s)
    (Leaves fun _ phase => phase.Asking) := by
  have unfailed : (unwilling build).Unfailed := fun _ _ _ h => by cases h
  unfold turnDown
  split
  · rename_i unable
    refine (writeDecision_conforms unfailed (.postpones build unable)).mono ?_
    intro result phase h
    cases result with
    | ok => exact h ▸ trivial
    | error => exact h
  · rename_i able
    refine (writeDecision_conforms unfailed (.declines build able)).mono ?_
    intro result phase h
    cases result with
    | ok => exact h ▸ trivial
    | error => exact h

theorem acceptBuild_conforms : Conforms Step (.willing build) (acceptBuild writeFails build s)
    (Leaves fun _ phase => phase.Asking) := by
  refine (writeDecision_conforms (fun _ _ _ h => by cases h) (.accepts build)).bind ?_
    fun _ _ h => h
  intro _ phase h
  cases h
  refine (writeDecision_conforms (fun _ _ _ h => by cases h) (.offers build)).bind ?_
    fun _ _ h => h
  intro _ phase h
  cases h
  refine (read_conforms readStringSet_fails (fun _ _ _ h => by cases h)).bind ?_ fun _ _ h => h
  intro _ phase h
  cases h
  refine (read_conforms readStringSet_fails (fun _ _ _ h => by cases h)).bind ?_ fun _ _ h => h
  intro _ phase h
  cases h
  refine (submitBuild_conforms build).bind ?_ fun _ _ h => h
  intro _ phase h
  cases h
  refine pollLoop_conforms.bind ?_ fun _ _ h => h
  intro _ phase h
  obtain ⟨outputs, rfl⟩ := h
  exact .pure trivial

theorem handleTry_conforms (asking : start.Asking) :
    Conforms Step start (handleTry writeFails s) (Leaves fun _ phase => phase.Asking) := by
  refine (readTry_conforms asking.unfailed).bind ?_ fun _ _ h => h
  intro a phase h
  cases h
  refine (hasBuilders_conforms asking).bind ?_ fun _ _ h => h
  intro a phase h
  obtain ⟨⟨available, count⟩, answers⟩ := a
  cases available with
  | true =>
    cases h
    exact acceptBuild_conforms
  | false =>
    cases h
    exact turnDown_conforms

theorem hookLoop_conforms (asking : start.Asking) :
    Conforms Step start (hookLoop writeFails s) Ends := by
  induction hn : s.stdin.rest.length using Nat.strong_induction_on generalizing s start with
  | _ n ih =>
    subst hn
    rw [hookLoop_eq]
    split
    · exact .fail (.breaks _ asking.unfailed fun msg h => by cases h)
    · exact .pure (.returns asking)
    · rename_i tryStr stdin hr
      split
      · exact .pure (.returns asking)
      · refine (handleTry_conforms asking).bind_result ?_ fun _ _ h => h
        intro s' phase ht asking'
        have shorter := readString_shorter hr
        have short := handleTry_shortens ht
        exact ih _ (Nat.lt_of_le_of_lt short shorter) asking' rfl

end Parts

end HookPhase

theorem hook_conforms (connect : Except String Unit) (writeFails : Nat → Option IoError)
    (s : HookState) : Conforms HookPhase.Step .ready (runBuildHook connect writeFails s)
      HookPhase.Ends := by
  have unfailed : HookPhase.ready.Unfailed := fun _ _ _ h => by cases h
  refine (HookPhase.read_conforms readSettings_fails unfailed).bind ?_ fun _ _ h => h
  intro _ phase h
  cases h
  have connects : Conforms HookPhase.Step .ready
      (Logged.lift (connect.mapError fun e => HookStop.error
        (.connection ("failed to connect to control socket: " ++ e))))
      (HookPhase.Leaves fun _ phase => phase = .ready) := by
    refine .lift ?_
    cases connect with
    | ok => exact rfl
    | error e => exact .breaks _ unfailed fun msg h => by cases h
  refine connects.bind ?_ fun _ _ h => h
  intro _ phase h
  cases h
  exact HookPhase.hookLoop_conforms trivial

namespace HookPhase

/-- The question whether to offer a build, and its answer. -/
def offer (build : HookBuild) (available : Bool) (count : Nat) : HookEffect :=
  .asks (.hasBuilders build.systemFeatures) (some (.ok (.hasBuilders available count)))

/-- What is done while a job is not known to be done: it is polled, and its builder logged. -/
inductive Waiting (jobId : UInt64) : HookEffect → Prop where
  | pending : Waiting jobId (.asks (.pollBuild jobId) (some (.ok (.buildStatus .pending))))
  | building (builderId : String) :
      Waiting jobId (.asks (.pollBuild jobId) (some (.ok (.buildStatus (.building builderId)))))
  | logs (line : String) : Waiting jobId (.logs line)

/-- What the hook has done last, by where it stands. -/
def Since (t : List HookEffect) : HookPhase → Prop
  | .willing build => ∃ earlier count, t = earlier ++ [offer build true count]
  | .unwilling build => ∃ earlier count, t = earlier ++ [offer build false count]
  | .accepted build => ∃ earlier count,
      t = earlier ++ [offer build true count, .decides "# accept\n"]
  | .offered build => ∃ earlier count,
      t = earlier ++ [offer build true count, .decides "# accept\n", .decides build.machineSpec]
  | .polling build jobId _ => ∃ earlier inputStorePaths missingOutputs waited,
      t = earlier ++ .asks { build with inputStorePaths, missingOutputs }.submitRequest
        (some (.ok (.buildSubmitted jobId))) :: waited ∧ ∀ effect ∈ waited, Waiting jobId effect
  | _ => True

theorem since_polling {t : List HookEffect} {build : HookBuild} {jobId : UInt64}
    {status status' : BuildState} {effect : HookEffect}
    (since : (polling build jobId status).Since t) (waits : Waiting jobId effect) :
    (polling build jobId status').Since (t ++ [effect]) := by
  obtain ⟨earlier, inputs, outputs, waited, rfl, all⟩ := since
  refine ⟨earlier, inputs, outputs, waited ++ [effect], by simp, fun e he => ?_⟩
  rcases List.mem_append.mp he with he | he
  · exact all e he
  · exact List.mem_singleton.mp he ▸ waits

theorem since_step {t : List HookEffect} {phase phase' : HookPhase} {effect : HookEffect}
    (since : phase.Since t) (step : Step phase effect phase') : phase'.Since (t ++ [effect]) := by
  cases step with
  | asks asking build answer =>
    rcases answer with _ | e | response
    · trivial
    · trivial
    · cases response with
      | hasBuilders available count => cases available <;> exact ⟨t, count, rfl⟩
      | buildSubmitted | buildStatus | error => trivial
  | postpones | declines => trivial
  | accepts build =>
    obtain ⟨earlier, count, rfl⟩ := since
    exact ⟨earlier, count, by simp⟩
  | offers build =>
    obtain ⟨earlier, count, rfl⟩ := since
    exact ⟨earlier, count, by simp⟩
  | submits build inputs outputs answer =>
    rcases answer with _ | e | response
    · trivial
    · trivial
    · cases response with
      | buildSubmitted jobId => exact ⟨t, inputs, outputs, [], rfl, by simp⟩
      | hasBuilders | buildStatus | error => trivial
  | polls build jobId status answer =>
    rcases answer with _ | e | response
    · trivial
    · trivial
    · cases response with
      | buildStatus status =>
        cases status with
        | pending => exact since_polling since .pending
        | building builderId => exact since_polling since (.building builderId)
        | completed | failed => trivial
      | hasBuilders | buildSubmitted | error => trivial
  | logs _ line may =>
    cases phase with
    | polling build jobId status => exact since_polling since (.logs line)
    | ready | completed | failed | stopped => trivial
    | willing | unwilling | accepted | offered => exact absurd may (by simp [logLines])

theorem since_run {t : List HookEffect} {phase : HookPhase} (run : Run Step .ready t phase) :
    phase.Since t :=
  run.invariant (fun t phase => phase.Since t) trivial fun _ _ _ _ _ since step =>
    since_step since step

end HookPhase

open HookPhase in
/-- What comes before each thing that the hook says. -/
structure HookOrder (t : List HookEffect) : Prop where
  decided : ∀ before msg after, t = before ++ .decides msg :: after →
    ∃ earlier build count,
      (before = earlier ++ [offer build false count] ∧
        msg = if build.amWilling = 0 then "# postpone\n" else "# decline\n") ∨
      (before = earlier ++ [offer build true count] ∧ msg = "# accept\n") ∨
      before = earlier ++ [offer build true count, .decides "# accept\n"] ∧ msg = build.machineSpec
  submitted : ∀ before (build : HookBuild) answer after,
    t = before ++ .asks build.submitRequest answer :: after → ∃ earlier offered count,
      before = earlier ++ [offer offered true count, .decides "# accept\n",
          .decides offered.machineSpec] ∧
        build.drvPath = offered.drvPath ∧ build.systemFeatures = offered.systemFeatures
  polled : ∀ before jobId answer after, t = before ++ .asks (.pollBuild jobId) answer :: after →
    ∃ earlier build waited,
      before = earlier ++ .asks (HookBuild.submitRequest build)
        (some (.ok (.buildSubmitted jobId))) :: waited ∧ ∀ effect ∈ waited, Waiting jobId effect

/-- Whatever nix-daemon sends, whatever the daemon answers and wherever the hook is cut off. -/
theorem hook_protocol (connect : Except String Unit) (writeFails : Nat → Option IoError)
    (s : HookState) :
    Conforms HookPhase.Step .ready (runBuildHook connect writeFails s) HookPhase.Ends ∧
      HookOrder (runBuildHook connect writeFails s).effects := by
  have conforms := hook_conforms connect writeFails s
  refine ⟨conforms, ?_⟩
  obtain ⟨last, run, _⟩ := conforms
  constructor
  · intro before msg after parts
    obtain ⟨phase, phase', run', step⟩ := run.split parts
    have since := HookPhase.since_run run'
    cases step with
    | postpones build unable =>
      obtain ⟨earlier, count, rfl⟩ := since
      exact ⟨earlier, build, count, .inl ⟨rfl, (if_pos unable).symm⟩⟩
    | declines build able =>
      obtain ⟨earlier, count, rfl⟩ := since
      exact ⟨earlier, build, count, .inl ⟨rfl, (if_neg able).symm⟩⟩
    | accepts build =>
      obtain ⟨earlier, count, rfl⟩ := since
      exact ⟨earlier, build, count, .inr (.inl ⟨rfl, rfl⟩)⟩
    | offers build =>
      obtain ⟨earlier, count, rfl⟩ := since
      exact ⟨earlier, build, count, .inr (.inr ⟨rfl, rfl⟩)⟩
  · intro before build answer after parts
    obtain ⟨phase, phase', run', step⟩ := run.split parts
    have since := HookPhase.since_run run'
    generalize hr : build.submitRequest = request at step
    cases step with
    | asks => cases hr
    | polls => cases hr
    | submits offered inputs outputs answer =>
      obtain ⟨earlier, count, rfl⟩ := since
      have same := ControlRequest.submitBuild.inj hr
      refine ⟨earlier, offered, count, rfl, same.1, ?_⟩
      rw [HookBuild.systemFeatures, HookBuild.systemFeatures, same.2.1, same.2.2.1]
  · intro before jobId answer after parts
    obtain ⟨phase, phase', run', step⟩ := run.split parts
    have since := HookPhase.since_run run'
    generalize hr : ControlRequest.pollBuild jobId = request at step
    cases step with
    | asks => cases hr
    | submits => cases hr
    | polls build jobId' status answer =>
      cases hr
      obtain ⟨earlier, inputs, outputs, waited, rfl, all⟩ := since
      exact ⟨earlier, _, waited, rfl, all⟩

end IrohNix.Control
