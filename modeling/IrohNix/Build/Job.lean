import IrohNix.Basic

namespace IrohNix.Build

/-- How long before a job lease expires without heartbeat: 60 s. -/
def jobLeaseTimeout : Nat := 60 * 10 ^ 9

structure DrvHash where
  bytes : Bytes32
deriving DecidableEq

structure JobId where
  val : UInt64
deriving DecidableEq

structure InputPath where
  storePath : String
  blake3 : Bytes32
deriving DecidableEq

structure BuildJob where
  id : JobId
  drvHash : DrvHash
  drvPath : String
  systemFeatures : List String
  outputs : List String
  inputPaths : List InputPath
  submittedAt : UInt64
deriving DecidableEq

structure LeasedJob where
  job : BuildJob
  builder : EndpointId
  leasedAt : Instant
  lastHeartbeat : Instant
  status : String
deriving DecidableEq

structure BuildOutput where
  storePath : String
  blake3 : Bytes32
  sha256 : Bytes32
  narSize : UInt64
deriving DecidableEq

structure BuildResult where
  jobId : JobId
  drvHash : DrvHash
  builder : Bytes32
  outputs : List BuildOutput
  signatureR : Bytes32
  signatureS : Bytes32
deriving DecidableEq

inductive JobOutcome where
  | completed (result : BuildResult)
  | failed (builder : EndpointId) (error : String)
deriving DecidableEq

structure LogEntry where
  jobId : UInt64
  data : Bytes
  stream : UInt8
deriving DecidableEq

/-- A `Sender<LogEntry>` and the channel of capacity 256 behind it: the entries
not yet received, and whether the receiver still exists. -/
structure LogSender where
  buffered : List LogEntry
  receiving : Bool
deriving DecidableEq

/-- `DrvHash::from_drv_path`: the BLAKE3 hash of the path's UTF-8 bytes. -/
def DrvHash.fromDrvPath (hashers : Hashers) (path : String) : DrvHash :=
  ⟨hashers.blake3 path.toByteArray.data.toList⟩

end IrohNix.Build
