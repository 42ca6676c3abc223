import IrohNix.Control.Hook
import IrohNix.Nix.RoundTrip

namespace IrohNix.Control
open IrohNix.Lib IrohNix.Build IrohNix.Nix Logged

/-- What `write_string_set` writes. -/
def stringSetBytes (strings : List String) : Bytes :=
  leBytes 8 strings.length ++ strings.flatMap stringBytes

namespace HookBuild

structure Fits (build : HookBuild) : Prop where
  system : StringFits build.neededSystem
  drvPath : StringFits build.drvPath
  features : StringsFit build.requiredFeatures
  inputs : StringsFit build.inputStorePaths
  outputs : StringsFit build.missingOutputs

/-- What nix-daemon writes to ask for a build, and behind an accept. -/
def tryBytes (build : HookBuild) : Bytes :=
  leBytes 4 build.amWilling.toNat ++ (stringBytes build.neededSystem ++
    (stringBytes build.drvPath ++ stringSetBytes build.requiredFeatures))

def acceptedBytes (build : HookBuild) : Bytes :=
  stringSetBytes build.inputStorePaths ++ stringSetBytes build.missingOutputs

end HookBuild

/-- A poll of a build that is not done: no builder has it, or this one. -/
abbrev Poll := Option String

def Poll.status : Poll → BuildState
  | none => .pending
  | some builderId => .building builderId

def Poll.line : Poll → List String
  | none => []
  | some builderId => ["iroh-nix: building on remote builder " ++ builderId]

/-- How the daemon answers for one build. -/
inductive HookSession where
  | turnedDown (build : HookBuild) (count : Nat)
  | built (build : HookBuild) (count : Nat) (jobId : UInt64) (polls : List Poll)
      (outputs : List OutputInfo)

/-- How the conversation ends: nix-daemon is done, a build fails, or is not done. -/
inductive HookEnding where
  | done
  | failed (build : HookBuild) (count : Nat) (jobId : UInt64) (polls : List Poll) (error : String)
  | unfinished (build : HookBuild) (count : Nat) (jobId : UInt64) (polls : List Poll)

/-- What the hook writes to the log, if it is open. -/
def logTrace (logFd : Bool) (lines : List String) : List HookEffect :=
  if logFd then lines.map .logs else []

/-- What the hook does to have a build accepted and submitted. -/
def startTrace (build : HookBuild) (count : Nat) (jobId : UInt64) : List HookEffect :=
  [.asks (.hasBuilders build.systemFeatures) (some (.ok (.hasBuilders true count))),
    .decides "# accept\n", .decides build.machineSpec,
    .asks build.submitRequest (some (.ok (.buildSubmitted jobId)))]

def pollTrace (logFd : Bool) (jobId : UInt64) (poll : Poll) : List HookEffect :=
  .asks (.pollBuild jobId) (some (.ok (.buildStatus poll.status))) :: logTrace logFd poll.line

def pollAnswer (poll : Poll) : Except Error ControlResponse := .ok (.buildStatus poll.status)

def startAnswers (count : Nat) (jobId : UInt64) (polls : List Poll) :
    List (Except Error ControlResponse) :=
  [.ok (.hasBuilders true count), .ok (.buildSubmitted jobId)] ++ polls.map pollAnswer

/-- What nix-daemon writes for a build that is accepted. -/
def HookBuild.bytes (build : HookBuild) : Bytes :=
  stringBytes "try" ++ (build.tryBytes ++ build.acceptedBytes)

namespace HookSession

def build : HookSession → HookBuild
  | .turnedDown build _ | .built build .. => build

def bytes : HookSession → Bytes
  | .turnedDown build _ => stringBytes "try" ++ build.tryBytes
  | .built build .. => build.bytes

def answers : HookSession → List (Except Error ControlResponse)
  | .turnedDown _ count => [.ok (.hasBuilders false count)]
  | .built _ count jobId polls outputs =>
    startAnswers count jobId polls ++ [.ok (.buildStatus (.completed outputs))]

def trace (logFd : Bool) : HookSession → List HookEffect
  | .turnedDown build count =>
    [.asks (.hasBuilders build.systemFeatures) (some (.ok (.hasBuilders false count))),
      .decides (if build.amWilling = 0 then "# postpone\n" else "# decline\n")]
  | .built build count jobId polls outputs =>
    startTrace build count jobId ++ (polls.flatMap (pollTrace logFd jobId) ++
      (.asks (.pollBuild jobId) (some (.ok (.buildStatus (.completed outputs)))) ::
        logTrace logFd (outputs.map outputLine)))

/-- The first build that is accepted takes the log with it. -/
def keepsLog (logFd : Bool) : HookSession → Bool
  | .turnedDown .. => logFd
  | .built .. => false

end HookSession

/-- What is done in all sessions, one after the other. -/
def sessionsTrace : Bool → List HookSession → List HookEffect
  | _, [] => []
  | logFd, session :: sessions =>
    session.trace logFd ++ sessionsTrace (session.keepsLog logFd) sessions

def logAfter (logFd : Bool) (sessions : List HookSession) : Bool :=
  sessions.foldl HookSession.keepsLog logFd

namespace HookEnding

def build : HookEnding → Option HookBuild
  | .done => none
  | .failed build .. | .unfinished build .. => some build

def bytes (ending : HookEnding) : Bytes := (ending.build.map HookBuild.bytes).getD []

def answers : HookEnding → List (Except Error ControlResponse)
  | .done => []
  | .failed _ count jobId polls error =>
    startAnswers count jobId polls ++ [.ok (.buildStatus (.failed error))]
  | .unfinished _ count jobId polls => startAnswers count jobId polls

def trace (logFd : Bool) : HookEnding → List HookEffect
  | .done => []
  | .failed build count jobId polls error =>
    startTrace build count jobId ++ (polls.flatMap (pollTrace logFd jobId) ++
      (.asks (.pollBuild jobId) (some (.ok (.buildStatus (.failed error)))) ::
        logTrace logFd ["iroh-nix: build failed: " ++ error]))
  | .unfinished build count jobId polls =>
    startTrace build count jobId ++ (polls.flatMap (pollTrace logFd jobId) ++
      [.asks (.pollBuild jobId) none])

def result : HookEnding → Except HookStop Unit
  | .done => .ok ()
  | .failed _ _ _ _ error => .error (.error (.build ("remote build failed: " ++ error)))
  | .unfinished .. => .error .waits

end HookEnding

section Reading

variable {s : HookState} {writeFails : Nat → Option IoError}

theorem read_bind {α β : Type} {m : NixRead α} {a : α} {stdin stdin' : Reader IoError}
    (h : m stdin = .ok (a, stdin')) (answers : List (Except Error ControlResponse)) (decided : Nat)
    (logFd : Bool) (f : α × HookState → Hook β) :
    (read m ⟨stdin, answers, decided, logFd⟩ >>= f) = f (a, ⟨stdin', answers, decided, logFd⟩) := by
  simp only [read, h]
  rfl

theorem readU32_run (n : UInt32) (rest : Bytes) (failure : Option IoError) :
    readU32 ⟨leBytes 4 n.toNat ++ rest, failure⟩ = .ok (n, ⟨rest, failure⟩) :=
  readU32_accepts.run rfl rest failure

theorem readString_run {str : String} (fits : StringFits str) (rest : Bytes)
    (failure : Option IoError) :
    readString ⟨stringBytes str ++ rest, failure⟩ = .ok (str, ⟨rest, failure⟩) :=
  readString_accepts.run (stringBytes_enc fits) rest failure

theorem readStringSet_run {strings : List String} (fit : StringsFit strings) (rest : Bytes)
    (failure : Option IoError) :
    readStringSet ⟨stringSetBytes strings ++ rest, failure⟩ = .ok (strings, ⟨rest, failure⟩) :=
  readStringSet_accepts.run
    ⟨_, rfl, sequence_flatMap fun str hs => stringBytes_enc (fit.2 str hs), fit.1⟩ rest failure

theorem readTry_run {build : HookBuild} (fits : build.Fits) (rest : Bytes)
    (failure : Option IoError) (answers : List (Except Error ControlResponse)) (decided : Nat)
    (logFd : Bool) : readTry ⟨⟨build.tryBytes ++ rest, failure⟩, answers, decided, logFd⟩ =
      pure ({ build with inputStorePaths := [], missingOutputs := [] },
        ⟨⟨rest, failure⟩, answers, decided, logFd⟩) := by
  have whole : build.tryBytes ++ rest = leBytes 4 build.amWilling.toNat ++
      (stringBytes build.neededSystem ++ (stringBytes build.drvPath ++
        (stringSetBytes build.requiredFeatures ++ rest))) := by simp [HookBuild.tryBytes]
  rw [whole, readTry, read_bind (readU32_run _ _ failure)]
  simp only
  rw [read_bind (readString_run fits.system _ failure)]
  simp only
  rw [read_bind (readString_run fits.drvPath _ failure)]
  simp only
  rw [read_bind (readStringSet_run fits.features _ failure)]

end Reading

section Sessions

theorem hasBuilders_run (features : List String) (available : Bool) (count : Nat)
    (answers : List (Except Error ControlResponse)) :
    ControlClient.hasBuilders features (.ok (.hasBuilders available count) :: answers) =
      ⟨[.asks (.hasBuilders features) (some (.ok (.hasBuilders available count)))],
        .ok ((available, count), answers)⟩ := rfl

theorem submitBuild_run (build : HookBuild) (jobId : UInt64)
    (answers : List (Except Error ControlResponse)) :
    ControlClient.submitBuild build.drvPath build.neededSystem build.requiredFeatures
      build.inputPaths build.missingOutputs (.ok (.buildSubmitted jobId) :: answers) =
        ⟨[.asks build.submitRequest (some (.ok (.buildSubmitted jobId)))],
          .ok (jobId, answers)⟩ := rfl

theorem pollBuild_run (jobId : UInt64) (status : BuildState) :
    ControlClient.pollBuild jobId [.ok (.buildStatus status)] =
      ⟨[.asks (.pollBuild jobId) (some (.ok (.buildStatus status)))], .ok (status, [])⟩ := rfl

theorem writeDecision_run (msg : String) (s : HookState) :
    writeDecision (fun _ => none) msg s =
      ⟨[.decides msg], .ok { s with decided := s.decided + 1 }⟩ := rfl

theorem logEach_run (logFd : Bool) (lines : List String) :
    logEach logFd lines = ⟨logTrace logFd lines, .ok ()⟩ := by
  cases logFd with
  | false => rfl
  | true =>
    have effects := effects_forEach_perform (E := HookStop) HookEffect.logs lines
    have result : (forEach (fun line => perform (.logs line)) lines : Hook Unit).result = .ok () :=
      forEach_ok fun _ _ => rfl
    simp only [logEach, logTrace, if_true]
    generalize (forEach (fun line => perform (.logs line)) lines : Hook Unit) = written at *
    obtain ⟨_, _⟩ := written
    cases effects
    cases result
    rfl

/-- Polls of a build that is not done are gone through. -/
theorem pollLoop_waits (jobId : UInt64) (logFd : Bool) (polls : List Poll)
    (answers : List (Except Error ControlResponse)) :
    pollLoop jobId logFd (polls.map pollAnswer ++ answers) =
      ⟨polls.flatMap (pollTrace logFd jobId) ++ (pollLoop jobId logFd answers).effects,
        (pollLoop jobId logFd answers).result⟩ := by
  induction polls with
  | nil => rfl
  | cons poll polls ih =>
    rw [List.map_cons, List.cons_append, List.flatMap_cons, pollAnswer, pollLoop, pollBuild_run,
      did_bind]
    cases poll with
    | none =>
      simp only [Poll.status, ih, pollTrace, Poll.line]
      cases logFd <;> rfl
    | some builderId =>
      simp only [Poll.status, logEach_run, did_bind, ih, pollTrace, Poll.line,
        List.append_assoc, List.cons_append, List.nil_append]

theorem pollLoop_completed (jobId : UInt64) (logFd : Bool) (outputs : List OutputInfo)
    (answers : List (Except Error ControlResponse)) :
    pollLoop jobId logFd (.ok (.buildStatus (.completed outputs)) :: answers) =
      ⟨.asks (.pollBuild jobId) (some (.ok (.buildStatus (.completed outputs)))) ::
        logTrace logFd (outputs.map outputLine), .ok answers⟩ := by
  rw [pollLoop, pollBuild_run, did_bind]
  simp only [logEach_run, did_bind]
  simp

theorem pollLoop_failed (jobId : UInt64) (logFd : Bool) (error : String)
    (answers : List (Except Error ControlResponse)) :
    pollLoop jobId logFd (.ok (.buildStatus (.failed error)) :: answers) =
      ⟨.asks (.pollBuild jobId) (some (.ok (.buildStatus (.failed error)))) ::
        logTrace logFd ["iroh-nix: build failed: " ++ error],
        .error (.error (.build ("remote build failed: " ++ error)))⟩ := by
  rw [pollLoop, pollBuild_run, did_bind]
  simp only [logEach_run, did_bind]
  simp

theorem pollLoop_unanswered (jobId : UInt64) (logFd : Bool) :
    pollLoop jobId logFd [] = ⟨[.asks (.pollBuild jobId) none], .error .waits⟩ := rfl

/-- A build that is accepted is submitted and polled, whatever the polls come to. -/
theorem acceptBuild_run {build : HookBuild} (fits : build.Fits) (rest : Bytes)
    (failure : Option IoError) (jobId : UInt64)
    (answers : List (Except Error ControlResponse)) (decided : Nat) (logFd : Bool) :
    acceptBuild (fun _ => none) { build with inputStorePaths := [], missingOutputs := [] }
      ⟨⟨build.acceptedBytes ++ rest, failure⟩, .ok (.buildSubmitted jobId) :: answers, decided,
        logFd⟩ =
      ⟨[.decides "# accept\n", .decides build.machineSpec,
          .asks build.submitRequest (some (.ok (.buildSubmitted jobId)))] ++
          (pollLoop jobId logFd answers).effects,
        (pollLoop jobId logFd answers).result.map fun answers =>
          ⟨⟨rest, failure⟩, answers, decided + 1 + 1, false⟩⟩ := by
  have whole : build.acceptedBytes ++ rest = stringSetBytes build.inputStorePaths ++
      (stringSetBytes build.missingOutputs ++ rest) := by simp [HookBuild.acceptedBytes]
  have spec : HookBuild.machineSpec
      { build with inputStorePaths := [], missingOutputs := [] } = build.machineSpec := rfl
  rw [whole, acceptBuild, spec, writeDecision_run, did_bind, writeDecision_run, did_bind]
  simp only [read_bind (readStringSet_run fits.inputs _ failure),
    read_bind (readStringSet_run fits.outputs _ failure)]
  have submitted := submitBuild_run { build with
    inputStorePaths := build.inputStorePaths
    missingOutputs := build.missingOutputs } jobId answers
  simp only [submitted, did_bind, bind_pure_map]
  rfl

theorem handleTry_run {build : HookBuild} (fits : build.Fits) (rest : Bytes)
    (failure : Option IoError) (available : Bool) (count : Nat)
    (answers : List (Except Error ControlResponse)) (decided : Nat) (logFd : Bool) :
    handleTry (fun _ => none) ⟨⟨build.tryBytes ++ rest, failure⟩,
        .ok (.hasBuilders available count) :: answers, decided, logFd⟩ =
      (⟨[.asks (.hasBuilders build.systemFeatures) (some (.ok (.hasBuilders available count)))],
        .ok ()⟩ : Hook Unit) >>= fun _ =>
          if available then acceptBuild (fun _ => none)
            { build with inputStorePaths := [], missingOutputs := [] }
            ⟨⟨rest, failure⟩, answers, decided, logFd⟩
          else turnDown (fun _ => none) { build with inputStorePaths := [], missingOutputs := [] }
            ⟨⟨rest, failure⟩, answers, decided, logFd⟩ := by
  rw [handleTry, readTry_run fits, pure_bind]
  simp only [hasBuilders_run, did_bind]
  rfl

theorem handleTry_accepts {build : HookBuild} (fits : build.Fits) (rest : Bytes)
    (failure : Option IoError) (count : Nat) (jobId : UInt64) (polls : List Poll)
    (answers : List (Except Error ControlResponse)) (decided : Nat) (logFd : Bool) :
    handleTry (fun _ => none) ⟨⟨build.tryBytes ++ (build.acceptedBytes ++ rest), failure⟩,
        startAnswers count jobId polls ++ answers, decided, logFd⟩ =
      ⟨startTrace build count jobId ++ (polls.flatMap (pollTrace logFd jobId) ++
          (pollLoop jobId logFd answers).effects),
        (pollLoop jobId logFd answers).result.map fun answers =>
          ⟨⟨rest, failure⟩, answers, decided + 1 + 1, false⟩⟩ := by
  have order : startAnswers count jobId polls ++ answers = .ok (.hasBuilders true count) ::
      .ok (.buildSubmitted jobId) :: (polls.map pollAnswer ++ answers) := by
    simp [startAnswers]
  rw [order, handleTry_run fits, did_bind]
  simp only [if_true, acceptBuild_run fits, pollLoop_waits]
  rfl

theorem handleTry_turnsDown {build : HookBuild} (fits : build.Fits) (rest : Bytes)
    (failure : Option IoError) (count : Nat) (answers : List (Except Error ControlResponse))
    (decided : Nat) (logFd : Bool) :
    handleTry (fun _ => none) ⟨⟨build.tryBytes ++ rest, failure⟩,
        .ok (.hasBuilders false count) :: answers, decided, logFd⟩ =
      ⟨(HookSession.turnedDown build count).trace logFd,
        .ok ⟨⟨rest, failure⟩, answers, decided + 1, logFd⟩⟩ := by
  rw [handleTry_run fits, did_bind]
  simp only [turnDown, Bool.false_eq_true, if_false, HookSession.trace]
  split <;> rfl

theorem try_fits : StringFits "try" := by
  unfold StringFits isizeMax
  decide

theorem hookLoop_accepts {build : HookBuild} (fits : build.Fits) (rest : Bytes)
    (failure : Option IoError) (count : Nat) (jobId : UInt64) (polls : List Poll)
    (answers : List (Except Error ControlResponse)) (decided : Nat) (logFd : Bool) :
    hookLoop (fun _ => none) ⟨⟨build.bytes ++ rest, failure⟩,
        startAnswers count jobId polls ++ answers, decided, logFd⟩ =
      (⟨startTrace build count jobId ++ (polls.flatMap (pollTrace logFd jobId) ++
          (pollLoop jobId logFd answers).effects),
        (pollLoop jobId logFd answers).result.map fun answers =>
          ⟨⟨rest, failure⟩, answers, decided + 1 + 1, false⟩⟩ : Hook HookState) >>=
        hookLoop fun _ => none := by
  rw [hookLoop_eq]
  simp only [HookBuild.bytes, List.append_assoc, readString_run try_fits]
  rw [if_neg (by simp), handleTry_accepts fits]

/-- One session, if nix-daemon writes it and the daemon answers it. -/
theorem hookLoop_session (session : HookSession) (fits : session.build.Fits) (rest : Bytes)
    (failure : Option IoError) (answers : List (Except Error ControlResponse)) (decided : Nat)
    (logFd : Bool) : ∃ decided',
      hookLoop (fun _ => none) ⟨⟨session.bytes ++ rest, failure⟩, session.answers ++ answers, decided,
        logFd⟩ =
      (⟨session.trace logFd, .ok ()⟩ : Hook Unit) >>= fun _ =>
        hookLoop (fun _ => none) ⟨⟨rest, failure⟩, answers, decided', session.keepsLog logFd⟩ := by
  cases session with
  | turnedDown build count =>
    have fits : build.Fits := fits
    refine ⟨decided + 1, ?_⟩
    rw [hookLoop_eq]
    simp only [HookSession.bytes, List.append_assoc, readString_run try_fits]
    rw [if_neg (by simp)]
    simp only [HookSession.answers, List.cons_append, List.nil_append]
    rw [handleTry_turnsDown fits, did_bind, did_bind]
    rfl
  | built build count jobId polls outputs =>
    have fits : build.Fits := fits
    refine ⟨decided + 1 + 1, ?_⟩
    rw [HookSession.bytes, HookSession.answers, List.append_assoc, hookLoop_accepts fits]
    simp only [List.cons_append, List.nil_append, pollLoop_completed, Except.map, did_bind]
    rfl

/-- All sessions of a conversation, and then how it ends. -/
theorem hookLoop_sessions (sessions : List HookSession)
    (fit : ∀ session ∈ sessions, session.build.Fits) (rest : Bytes) (failure : Option IoError)
    (answers : List (Except Error ControlResponse)) (decided : Nat) (logFd : Bool) :
    ∃ decided', hookLoop (fun _ => none)
        ⟨⟨sessions.flatMap HookSession.bytes ++ rest, failure⟩,
          sessions.flatMap HookSession.answers ++ answers, decided, logFd⟩ =
      (⟨sessionsTrace logFd sessions, .ok ()⟩ : Hook Unit) >>= fun _ =>
        hookLoop (fun _ => none) ⟨⟨rest, failure⟩, answers, decided', logAfter logFd sessions⟩ := by
  induction sessions generalizing decided logFd with
  | nil => exact ⟨decided, rfl⟩
  | cons session sessions ih =>
    obtain ⟨decided₁, first⟩ := hookLoop_session session (fit session (by simp))
      (sessions.flatMap HookSession.bytes ++ rest) failure
      (sessions.flatMap HookSession.answers ++ answers) decided logFd
    obtain ⟨decided₂, further⟩ := ih (fun other ho => fit other (by simp [ho])) decided₁
      (session.keepsLog logFd)
    refine ⟨decided₂, ?_⟩
    rw [List.flatMap_cons, List.flatMap_cons, List.append_assoc, List.append_assoc, first, did_bind,
      further, did_bind, did_bind]
    simp [sessionsTrace, logAfter]

theorem hookLoop_ending (ending : HookEnding) (fits : ∀ build ∈ ending.build, build.Fits)
    (failure : Option IoError) (decided : Nat) (logFd : Bool) :
    hookLoop (fun _ => none) ⟨⟨ending.bytes, failure⟩, ending.answers, decided, logFd⟩ =
      ⟨ending.trace logFd, ending.result⟩ := by
  cases ending with
  | done =>
    rw [hookLoop_eq]
    cases failure <;> rfl
  | failed build count jobId polls error =>
    have accepts := hookLoop_accepts (fits build rfl) [] failure count jobId polls
      [.ok (.buildStatus (.failed error))] decided logFd
    rw [pollLoop_failed, List.append_nil] at accepts
    exact accepts
  | unfinished build count jobId polls =>
    have accepts := hookLoop_accepts (fits build rfl) [] failure count jobId polls [] decided logFd
    rw [pollLoop_unanswered, List.append_nil, List.append_nil] at accepts
    exact accepts

/-- The hook's run, once it has read the settings. -/
theorem runBuildHook_run {settings : List (String × String)}
    (fitting : ∀ e ∈ settings, StringFits e.1 ∧ StringFits e.2) (rest : Bytes)
    (failure : Option IoError) (writeFails : Nat → Option IoError)
    (answers : List (Except Error ControlResponse)) (decided : Nat) (logFd : Bool) :
    runBuildHook (.ok ()) writeFails
        ⟨⟨settings.flatMap settingBytes ++ (leBytes 4 0 ++ rest), failure⟩, answers, decided, logFd⟩ =
      hookLoop writeFails ⟨⟨rest, failure⟩, answers, decided, logFd⟩ := by
  have each : ∀ e ∈ settings, SettingEnc e (settingBytes e) := by
    intro e he
    obtain ⟨hkey, hvalue⟩ := fitting e he
    exact ⟨_, _, rfl, stringBytes_enc hkey, stringBytes_enc hvalue⟩
  have read : readSettings ⟨settings.flatMap settingBytes ++ (leBytes 4 0 ++ rest), failure⟩ =
      .ok (insertAll ∅ settings, ⟨rest, failure⟩) :=
    readSettingsFrom_reads (sequence_flatMap each) ∅ _ failure
  rw [runBuildHook, read_bind read]
  rfl

end Sessions

/-- A conversation as nix-daemon writes it and the daemon answers it is carried out to the
letter: what the hook asks, decides and logs is what its builds and their answers make it. -/
theorem hook_sessions (settings : List (String × String))
    (fitting : ∀ e ∈ settings, StringFits e.1 ∧ StringFits e.2) (sessions : List HookSession)
    (fit : ∀ session ∈ sessions, session.build.Fits) (ending : HookEnding)
    (fits : ∀ build ∈ ending.build, build.Fits) (failure : Option IoError) (logFd : Bool) :
    runBuildHook (.ok ()) (fun _ => none)
        ⟨⟨settings.flatMap settingBytes ++ (leBytes 4 0 ++
            (sessions.flatMap HookSession.bytes ++ ending.bytes)), failure⟩,
          sessions.flatMap HookSession.answers ++ ending.answers, 0, logFd⟩ =
      ⟨sessionsTrace logFd sessions ++ ending.trace (logAfter logFd sessions), ending.result⟩ := by
  obtain ⟨decided, all⟩ := hookLoop_sessions sessions fit ending.bytes failure ending.answers 0 logFd
  rw [runBuildHook_run fitting, all, hookLoop_ending ending fits, did_bind]

section Sample

theorem stringFits_of {str : String} (short : (utf8 str).length ≤ 64) : StringFits str := by
  unfold StringFits isizeMax
  omega

theorem stringsFit_nil : StringsFit [] := by
  unfold StringsFit isizeMax
  simp

theorem stringsFit_one {str : String} (fits : StringFits str) : StringsFit [str] := by
  unfold StringsFit isizeMax stringSize
  simp [fits]

/-- A build that no builder is known for, and one that is polled twice before it is done. -/
def sampleSessions : List HookSession :=
  [.turnedDown ⟨0, "riscv", "/nix/store/b.drv", [], [], []⟩ 0,
    .built sampleBuild 1 7 [none, some "00"] [⟨"/nix/store/a", zeroBytes32, 96⟩]]

theorem sample_carried : ∃ stdin, runBuildHook (.ok ()) (fun _ => none)
      ⟨stdin, sampleSessions.flatMap HookSession.answers ++ [], 0, true⟩ =
    ⟨sessionsTrace true sampleSessions ++ [], .ok ()⟩ := by
  refine ⟨_, hook_sessions [("cores", "8")] ?_ sampleSessions ?_ .done ?_ none true⟩
  · intro e he
    cases List.mem_singleton.mp he
    exact ⟨stringFits_of (by decide), stringFits_of (by decide)⟩
  · intro session hs
    simp only [sampleSessions, List.mem_cons, List.not_mem_nil, or_false] at hs
    rcases hs with rfl | rfl
    · exact ⟨stringFits_of (by decide), stringFits_of (by decide), stringsFit_nil, stringsFit_nil,
        stringsFit_nil⟩
    · exact ⟨stringFits_of (by decide), stringFits_of (by decide), stringsFit_nil,
        stringsFit_one (stringFits_of (by decide)), stringsFit_nil⟩
  · intro build hb
    cases hb

end Sample

end IrohNix.Control
