import IrohNix.Control.BuildHook
import IrohNix.Lib.Effects
import IrohNix.Nix.Settings

namespace IrohNix.Control
open IrohNix.Lib IrohNix.Build IrohNix.Nix Logged

/-- What the hook submits of a build. -/
def HookBuild.submitRequest (build : HookBuild) : ControlRequest :=
  .submitBuild build.drvPath build.neededSystem build.requiredFeatures build.inputPaths
    build.missingOutputs

/-- What the hook does: it asks the daemon, which may not have answered yet, it tells
nix-daemon a decision, and it writes a line of the build's log. -/
inductive HookEffect where
  | asks (request : ControlRequest) (answer : Option (Except Error ControlResponse))
  | decides (msg : String)
  | logs (line : String)

/-- How the hook stops short: with an error, by a panic, or still waiting for an answer. -/
inductive HookStop where
  | error (e : Error)
  | panic (msg : String)
  | waits

/-- The hook's surroundings: standard input, the answers it will get, how many decisions
are out, and whether there is a file descriptor for the log. -/
structure HookState where
  stdin : Reader IoError
  answers : List (Except Error ControlResponse)
  decided : Nat
  logFd : Bool

abbrev Hook (α : Type) := Logged HookEffect HookStop α

def ofStop : Stop Error → HookStop
  | .error e => .error e
  | .panic msg => .panic msg

/-- `ControlClient::request`, as the hook sees it. -/
def ask (request : ControlRequest) : List (Except Error ControlResponse) →
    Hook (ControlResponse × List (Except Error ControlResponse))
  | [] => do
    perform (.asks request none)
    .fail .waits
  | answer :: answers => do
    perform (.asks request (some answer))
    match answer with
    | .ok response => pure (response, answers)
    | .error e => .fail (.error e)

namespace ControlClient

def submitBuild (drvPath system : String) (requiredFeatures : List String)
    (inputPaths : List InputPathInfo) (expectedOutputs : List String)
    (answers : List (Except Error ControlResponse)) :
    Hook (UInt64 × List (Except Error ControlResponse)) := do
  let (resp, answers) ←
    ask (.submitBuild drvPath system requiredFeatures inputPaths expectedOutputs) answers
  match resp with
  | .buildSubmitted jobId => pure (jobId, answers)
  | .error message => .fail (.error (.build message))
  | _ => .fail (.error (.protocol "unexpected response to SubmitBuild"))

def pollBuild (jobId : UInt64) (answers : List (Except Error ControlResponse)) :
    Hook (BuildState × List (Except Error ControlResponse)) := do
  let (resp, answers) ← ask (.pollBuild jobId) answers
  match resp with
  | .buildStatus status => pure (status, answers)
  | .error message => .fail (.error (.build message))
  | _ => .fail (.error (.protocol "unexpected response to PollBuild"))

def hasBuilders (systemFeatures : List String) (answers : List (Except Error ControlResponse)) :
    Hook ((Bool × Nat) × List (Except Error ControlResponse)) := do
  let (resp, answers) ← ask (.hasBuilders systemFeatures) answers
  match resp with
  | .hasBuilders available count => pure ((available, count), answers)
  | .error message => .fail (.error (.build message))
  | _ => .fail (.error (.protocol "unexpected response to HasBuilders"))

end ControlClient

def logEach (logFd : Bool) (lines : List String) : Hook Unit :=
  if logFd then forEach (fun line => perform (.logs line)) lines else pure ()

/-- The line of the log for an output. -/
def outputLine (output : OutputInfo) : String :=
  "iroh-nix: output " ++ output.storePath ++ " (" ++ toString output.narSize ++ " bytes)"

/-- Poll until completion. -/
def pollLoop (jobId : UInt64) (logFd : Bool) : List (Except Error ControlResponse) →
    Hook (List (Except Error ControlResponse))
  | [] => do
    let (_, answers) ← ControlClient.pollBuild jobId []
    pure answers
  | answer :: answers => do
    let (status, _) ← ControlClient.pollBuild jobId [answer]
    match status with
    | .pending => pollLoop jobId logFd answers
    | .building builderId => do
      logEach logFd ["iroh-nix: building on remote builder " ++ builderId]
      pollLoop jobId logFd answers
    | .completed outputs => do
      logEach logFd (outputs.map outputLine)
      pure answers
    | .failed error => do
      logEach logFd ["iroh-nix: build failed: " ++ error]
      .fail (.error (.build ("remote build failed: " ++ error)))

def read {α : Type} (m : NixRead α) (s : HookState) : Hook (α × HookState) :=
  match m s.stdin with
  | .ok (a, stdin) => pure (a, { s with stdin })
  | .error stop => .fail (ofStop stop)

/-- Write a decision string to stderr. Some of these writes fail. -/
def writeDecision (writeFails : Nat → Option IoError) (msg : String) (s : HookState) :
    Hook HookState :=
  match writeFails s.decided with
  | some e => .fail (.error (ioError e))
  | none => do
    perform (.decides msg)
    pure { s with decided := s.decided + 1 }

/-- What nix-daemon sends behind `try`. -/
def readTry (s : HookState) : Hook (HookBuild × HookState) := do
  let (amWilling, s) ← read readU32 s
  let (neededSystem, s) ← read readString s
  let (drvPath, s) ← read readString s
  let (requiredFeatures, s) ← read readStringSet s
  pure (⟨amWilling, neededSystem, drvPath, requiredFeatures, [], []⟩, s)

/-- No builders are known: nix builds locally, if it can. -/
def turnDown (writeFails : Nat → Option IoError) (build : HookBuild) (s : HookState) :
    Hook HookState :=
  if build.amWilling = 0 then writeDecision writeFails "# postpone\n" s
  else writeDecision writeFails "# decline\n" s

/-- The build is accepted, submitted and polled. The log is closed with it. -/
def acceptBuild (writeFails : Nat → Option IoError) (build : HookBuild) (s : HookState) :
    Hook HookState := do
  let s ← writeDecision writeFails "# accept\n" s
  let s ← writeDecision writeFails build.machineSpec s
  let (inputStorePaths, s) ← read readStringSet s
  let (missingOutputs, s) ← read readStringSet s
  let build := { build with inputStorePaths, missingOutputs }
  let (jobId, answers) ← ControlClient.submitBuild build.drvPath build.neededSystem
    build.requiredFeatures build.inputPaths build.missingOutputs s.answers
  let answers ← pollLoop jobId s.logFd answers
  pure { s with answers, logFd := false }

/-- One turn of the per-build loop, behind `try`. -/
def handleTry (writeFails : Nat → Option IoError) (s : HookState) : Hook HookState := do
  let (build, s) ← readTry s
  let ((available, _), answers) ← ControlClient.hasBuilders build.systemFeatures s.answers
  if available then acceptBuild writeFails build { s with answers }
  else turnDown writeFails build { s with answers }

/-- A reader takes bytes off the front. -/
def Shortens {α : Type} (m : NixRead α) : Prop :=
  ∀ r a r', m r = .ok (a, r') → r'.rest.length ≤ r.rest.length

theorem shortens_of_accepts {α : Type} {m : NixRead α} {Enc : α → Bytes → Prop}
    (h : m.Accepts Enc) : Shortens m := by
  intro r a r' hr
  obtain ⟨enc, _, rfl⟩ := (h _ _ _).mp hr
  simp

theorem read_shortens {α : Type} {m : NixRead α} (h : Shortens m) {s s' : HookState} {a : α}
    (hr : (read m s).result = .ok (a, s')) :
    s'.stdin.rest.length ≤ s.stdin.rest.length := by
  rw [read] at hr
  split at hr
  · rename_i stdin hm
    cases hr
    exact h _ _ _ hm
  · cases hr

theorem writeDecision_stdin {writeFails : Nat → Option IoError} {msg : String} {s s' : HookState}
    (h : (writeDecision writeFails msg s).result = .ok s') : s'.stdin = s.stdin := by
  rw [writeDecision] at h
  split at h
  · cases h
  · cases h
    rfl

theorem readTry_shortens {s s' : HookState} {build : HookBuild}
    (h : (readTry s).result = .ok (build, s')) :
    s'.stdin.rest.length ≤ s.stdin.rest.length := by
  simp only [readTry, bind_ok, result_pure, Except.ok.injEq, Prod.mk.injEq] at h
  obtain ⟨⟨_, s₁⟩, h₁, ⟨_, s₂⟩, h₂, ⟨_, s₃⟩, h₃, ⟨_, s₄⟩, h₄, _, rfl⟩ := h
  have short₁ := read_shortens (shortens_of_accepts readU32_accepts) h₁
  have short₂ := read_shortens (shortens_of_accepts readString_accepts) h₂
  have short₃ := read_shortens (shortens_of_accepts readString_accepts) h₃
  have short₄ := read_shortens (shortens_of_accepts readStringSet_accepts) h₄
  exact short₄.trans (short₃.trans (short₂.trans short₁))

theorem acceptBuild_shortens {writeFails : Nat → Option IoError} {build : HookBuild}
    {s s' : HookState} (h : (acceptBuild writeFails build s).result = .ok s') :
    s'.stdin.rest.length ≤ s.stdin.rest.length := by
  simp only [acceptBuild, bind_ok, result_pure, Except.ok.injEq] at h
  obtain ⟨s₁, h₁, s₂, h₂, ⟨_, s₃⟩, h₃, ⟨_, s₄⟩, h₄, _, _, _, _, rfl⟩ := h
  have short₃ := read_shortens (shortens_of_accepts readStringSet_accepts) h₃
  have short₄ := read_shortens (shortens_of_accepts readStringSet_accepts) h₄
  rw [writeDecision_stdin h₂, writeDecision_stdin h₁] at short₃
  exact short₄.trans short₃

theorem handleTry_shortens {writeFails : Nat → Option IoError} {s s' : HookState}
    (h : (handleTry writeFails s).result = .ok s') :
    s'.stdin.rest.length ≤ s.stdin.rest.length := by
  simp only [handleTry, bind_ok] at h
  obtain ⟨⟨build, s₁⟩, h₁, ⟨⟨available, _⟩, answers⟩, _, h₂⟩ := h
  refine Nat.le_trans ?_ (readTry_shortens h₁)
  cases available with
  | true =>
    simp only [if_true] at h₂
    have short := acceptBuild_shortens h₂
    exact short
  | false =>
    simp only [turnDown, Bool.false_eq_true, if_false] at h₂
    split at h₂ <;> rw [writeDecision_stdin h₂]

theorem readString_shorter {r r' : Reader IoError} {str : String}
    (h : readString r = .ok (str, r')) : r'.rest.length < r.rest.length := by
  obtain ⟨enc, ⟨pad, rfl, _⟩, rfl⟩ := (readString_accepts _ _ _).mp h
  simp only [List.length_append, leBytes_length]
  omega

/-- The per-build loop. Without another `try`, nix-daemon is done. -/
def hookLoop (writeFails : Nat → Option IoError) (s : HookState) : Hook Unit :=
  match hr : readString s.stdin with
  | .error (.panic msg) => .fail (.panic msg)
  | .error (.error _) => pure ()
  | .ok (tryStr, stdin) =>
    if tryStr ≠ "try" then pure ()
    else
      match ht : (handleTry writeFails { s with stdin }).result with
      | .error stop => ⟨(handleTry writeFails { s with stdin }).effects, .error stop⟩
      | .ok s' =>
        have := readString_shorter hr
        have := handleTry_shortens ht
        let further := hookLoop writeFails s'
        ⟨(handleTry writeFails { s with stdin }).effects ++ further.effects, further.result⟩
termination_by s.stdin.rest.length
decreasing_by
  simp only at *
  omega

/-- The loop, as the source has it. -/
theorem hookLoop_eq (writeFails : Nat → Option IoError) (s : HookState) :
    hookLoop writeFails s =
      match readString s.stdin with
      | .error (.panic msg) => .fail (.panic msg)
      | .error (.error _) => pure ()
      | .ok (tryStr, stdin) =>
        if tryStr ≠ "try" then pure ()
        else handleTry writeFails { s with stdin } >>= hookLoop writeFails := by
  rw [hookLoop]
  split <;> rename_i hr <;> simp only [hr]
  split
  · rfl
  · split <;> rename_i ht <;> simp only [Bind.bind, ht]

/-- Run the build-hook protocol. -/
def runBuildHook (connect : Except String Unit) (writeFails : Nat → Option IoError)
    (s : HookState) : Hook Unit := do
  let (_, s) ← read readSettings s
  .lift (connect.mapError fun e =>
    .error (.connection ("failed to connect to control socket: " ++ e)))
  hookLoop writeFails s

end IrohNix.Control
