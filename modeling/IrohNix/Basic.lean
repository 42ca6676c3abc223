import Mathlib.Algebra.GroupWithZero.Nat
import Mathlib.Data.List.Basic

namespace IrohNix

abbrev Bytes := List UInt8

/-- `[u8; 32]` -/
abbrev Bytes32 := Vector UInt8 32

@[ext] structure Blake3Hash where
  bytes : Bytes32
deriving DecidableEq

@[ext] structure Sha256Hash where
  bytes : Bytes32
deriving DecidableEq

def zeroBytes32 : Bytes32 := Vector.replicate 32 0

/-- An iroh public key, as the 32 bytes `as_bytes` returns. -/
structure EndpointId where
  asBytes : Bytes32
deriving DecidableEq

/-- A reading of the monotone clock, in nanoseconds. -/
abbrev Instant := Nat

/-- The `blake3` and `sha2` crates. -/
structure Hashers where
  blake3 : Bytes → Bytes32
  sha256 : Bytes → Bytes32

/-- Digests that tell nothing apart, to run the model on small inputs. -/
def zeroHashers : Hashers := ⟨fun _ => zeroBytes32, fun _ => zeroBytes32⟩

/-- The Ed25519 keys of `iroh_base`. Not every 32 bytes decode to a key. -/
structure Ed25519 where
  SecretKey : Type
  publicKey : SecretKey → EndpointId
  endpointIdFromBytes : Bytes32 → Option EndpointId
  sign : SecretKey → Bytes → Vector UInt8 64
  verify : EndpointId → Bytes → Vector UInt8 64 → Bool

/-- What `iroh_base` documents about genuine keys and signatures. -/
structure Ed25519.Genuine (crypto : Ed25519) : Prop where
  decodes : ∀ key, crypto.endpointIdFromBytes (crypto.publicKey key).asBytes =
    some (crypto.publicKey key)
  verifies : ∀ key data, crypto.verify (crypto.publicKey key) data (crypto.sign key data) = true

/-- Keys that are their own bytes, to run the model on small inputs. -/
def plainCrypto : Ed25519 where
  SecretKey := EndpointId
  publicKey := id
  endpointIdFromBytes := fun bytes => some ⟨bytes⟩
  sign := fun _ _ => Vector.replicate 64 0
  verify := fun _ _ _ => true

/-- The `postcard` encoding of one message type, with the texts of its errors. -/
structure Postcard (α : Type) where
  toAllocvec : α → Except String Bytes
  fromBytes : Bytes → Except String α

inductive ErrorKind where
  | connectionReset
  | connectionAborted
  | timedOut
  | interrupted
  | wouldBlock
  | other
deriving DecidableEq

/-- The errors of `error.rs`, each with its text. -/
inductive Error where
  | database (msg : String)
  | io (kind : ErrorKind) (msg : String)
  | iroh (msg : String)
  | hashNotFound (msg : String)
  | storePathNotFound (msg : String)
  | invalidStorePath (msg : String)
  | nar (msg : String)
  | protocol (msg : String)
  | signing (msg : String)
  | gossip (msg : String)
  | connection (msg : String)
  | build (msg : String)
  | timeout (msg : String)
  | remote (msg : String)
  | jobNotFound (job : UInt64)
  | invalidBuilder (job : UInt64)
  | internal (msg : String)
  | httpCache (msg : String)
deriving DecidableEq

end IrohNix
