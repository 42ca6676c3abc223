import IrohNix.Builder.Dependencies
import IrohNix.Lib.LineReader

namespace IrohNix.Builder
open IrohNix.Lib

/-- What a run of `nix-store --realise` leaves: its exit code and what it wrote. -/
structure ProcessOutput where
  code : Option Int
  stdout : Bytes
  stderr : Bytes

def ProcessOutput.success (output : ProcessOutput) : Bool := output.code == some 0

/-- Log line from a build. -/
structure BuildLogLine where
  jobId : UInt64
  data : Bytes
  stream : UInt8
deriving DecidableEq

section InvalidLine

end InvalidLine

end IrohNix.Builder
