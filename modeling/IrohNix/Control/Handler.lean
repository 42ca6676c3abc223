import IrohNix.Build.QueueSpec
import IrohNix.Gossip.Caches

namespace IrohNix.Control
open IrohNix.Lib IrohNix.Build IrohNix.Gossip

structure InputPathInfo where
  storePath : String
  blake3 : Bytes32

structure OutputInfo where
  storePath : String
  blake3 : Bytes32
  narSize : UInt64
deriving DecidableEq

/-- Build state reported via poll. -/
inductive BuildState where
  | pending
  | building (builderId : String)
  | completed (outputs : List OutputInfo)
  | failed (error : String)
deriving DecidableEq

inductive ControlRequest where
  | submitBuild (drvPath system : String) (requiredFeatures : List String)
      (inputPaths : List InputPathInfo) (expectedOutputs : List String)
  | pollBuild (jobId : UInt64)
  | hasBuilders (systemFeatures : List String)
  | cancelBuild (jobId : UInt64)

inductive ControlResponse where
  | buildSubmitted (jobId : UInt64)
  | buildStatus (status : BuildState)
  | hasBuilders (available : Bool) (count : Nat)
  | error (message : String)
deriving DecidableEq

/-- `to_string` of an endpoint: its bytes in hexadecimal. -/
def displayEndpoint (id : EndpointId) : String := hexLower id.asBytes.toList

theorem displayEndpoint_inj {a b : EndpointId} : displayEndpoint a = displayEndpoint b ↔ a = b := by
  constructor
  · intro h
    have := Vector.toList_inj.mp (hexLower_inj.mp h)
    cases a
    cases b
    exact congrArg EndpointId.mk this
  · intro h
    rw [h]

def outputInfo (o : BuildOutput) : OutputInfo := ⟨o.storePath, o.blake3, o.narSize⟩

def outcomeState : JobOutcome → BuildState
  | .completed result => .completed (result.outputs.map outputInfo)
  | .failed _ error => .failed error

/-- The `PollBuild` branch. It lists the leases twice and the pending jobs twice. -/
def pollBuild (q : BuildQueue) (first second : q.leased.Iter) (jobId : UInt64) : ControlResponse :=
  let drvHash : Option DrvHash :=
    (((q.listLeased first).find? (fun e => e.1 == ⟨jobId⟩)).map (fun e => e.2.job.drvHash)).or
      ((q.listPending.find? (fun j => j.id == ⟨jobId⟩)).map (fun j => j.drvHash))
  match (q.listLeased second).find? (fun e => e.1 == ⟨jobId⟩) with
  | some (_, leasedJob) => .buildStatus (.building (displayEndpoint leasedJob.builder))
  | none =>
    if q.listPending.any (fun j => j.id == ⟨jobId⟩) then .buildStatus .pending
    else
      match drvHash.bind q.getOutcome with
      | some outcome => .buildStatus (outcomeState outcome)
      | none => .buildStatus .pending

def cancelBuild (q : BuildQueue) (order : q.leased.Iter) (jobId : UInt64) :
    BuildQueue × ControlResponse :=
  match (q.listLeased order).find? (fun e => e.1 == ⟨jobId⟩) with
  | some (_, leasedJob) =>
    ((q.fail ⟨jobId⟩ leasedJob.builder "cancelled by build-hook").1,
      .buildStatus (.failed "cancelled"))
  | none =>
    (q, .error ("job " ++ toString jobId ++ " not found or not in progress"))

/-- What a control request leaves behind: the queue, the answer, and the message
given to the gossip service. -/
structure Handled where
  queue : BuildQueue
  response : ControlResponse
  announced : Option GossipMessage

def handleControlRequest (hashers : Hashers) (q : BuildQueue) (first second : q.leased.Iter)
    (timestamp : UInt64) : ControlRequest → Handled
  | .submitBuild drvPath system requiredFeatures inputPaths expectedOutputs =>
    let systemFeatures := system :: requiredFeatures
    let buildInputPaths := inputPaths.map (fun ip => InputPath.mk ip.storePath ip.blake3)
    let (queue, jobId, shouldAnnounce) :=
      q.push hashers drvPath systemFeatures expectedOutputs buildInputPaths timestamp
    { queue
      response := .buildSubmitted jobId.val
      announced :=
        if shouldAnnounce then some (announceNeedBuilder q.ourId systemFeatures) else none }
  | .pollBuild jobId => ⟨q, pollBuild q first second jobId, none⟩
  | .hasBuilders _ => ⟨q, .hasBuilders true 1, none⟩
  | .cancelBuild jobId =>
    let (queue, response) := cancelBuild q first jobId
    ⟨queue, response, none⟩

end IrohNix.Control
