import IrohNix.Basic
import IrohNix.Lib.LexicalPath
import IrohNix.Lib.Bytes

namespace IrohNix.Nix
open IrohNix.Lib

/-- Information about a store path from Nix. -/
structure NixPathInfo where
  path : String
  narHash : String
  narSize : UInt64
  references : List String
  deriver : Option String
  signatures : List String
deriving DecidableEq

/-- `nix path-info --json` of a store path, and the `base64` crate. -/
structure NixDatabase where
  query : String → Except Error NixPathInfo
  decodeBase64 : String → Except String Bytes

/-- A database that knows no path. -/
def emptyDatabase : NixDatabase := ⟨fun path => .error (.storePathNotFound path), fun _ => .ok []⟩

def nix32Alphabet : List UInt8 := utf8 "0123456789abcdfghijklmnpqrsvwxyz"

def nix32Digit (c : Char) : Except Error Nat :=
  match nix32Alphabet.findIdx? (· == UInt8.ofNat c.toNat) with
  | some digit => .ok digit
  | none => .error (.protocol ("invalid nix32 character: " ++ String.ofList [c]))

/-- The bits of the i-th digit from the right: five, on one or two bytes. -/
def placeDigit (result : Bytes32) (i digit : Nat) : Bytes32 :=
  let byteIdx := i * 5 / 8
  let bitIdx := i * 5 % 8
  let low := result.setIfInBounds byteIdx
    (result.getD byteIdx 0 ||| UInt8.ofNat (digit <<< bitIdx))
  if bitIdx > 3 then
    low.setIfInBounds (byteIdx + 1)
      (low.getD (byteIdx + 1) 0 ||| UInt8.ofNat (digit >>> (8 - bitIdx)))
  else low

/-- Decode a Nix base32 string to bytes. A character counts by its low eight bits. -/
def decodeNix32 (s : String) : Except Error Bytes32 := do
  if s.utf8ByteSize ≠ 52 then
    .error (.protocol ("nix32 hash should be 52 chars, got " ++ toString s.utf8ByteSize))
  let digits ← s.toList.reverse.mapM nix32Digit
  pure (digits.zipIdx.foldl (fun result d => placeDigit result d.2 d.1) zeroBytes32)

def toBytes32 (bytes : Bytes) : Option Bytes32 :=
  if h : bytes.length = 32 then some ⟨bytes.toArray, by simpa using h⟩ else none

@[simp] theorem toBytes32_toList (bytes : Bytes32) : toBytes32 bytes.toList = some bytes := by
  simp [toBytes32, ← Vector.toList_inj]

/-- Parse the SHA256 hash from Nix's format to raw bytes. -/
def NixPathInfo.sha256Bytes (nix : NixDatabase) (info : NixPathInfo) : Except Error Bytes32 :=
  match stripPrefix "sha256-" info.narHash with
  | some b64 => do
    let bytes ← (nix.decodeBase64 b64).mapError fun e =>
      .protocol ("invalid base64 in narHash: " ++ e)
    match toBytes32 bytes with
    | some hash => .ok hash
    | none => .error (.protocol "narHash base64 is not 32 bytes")
  | none =>
    match stripPrefix "sha256:" info.narHash with
    | some nix32 => decodeNix32 nix32
    | none => .error (.protocol ("unsupported narHash format: " ++ info.narHash))

/-- Validate that a path looks like a valid Nix store path. -/
def isValidStorePath (path : String) : Bool :=
  "/nix/store/".toList.isPrefixOf path.toList && path.utf8ByteSize > "/nix/store/".utf8ByteSize

/-- Lexically inside /nix/store. -/
abbrev InsideStore (path : String) : Prop := Inside "/nix/store/" path

theorem InsideStore.valid {path : String} (h : InsideStore path) : isValidStorePath path = true := by
  obtain ⟨rest, rfl, hne⟩ := h.rest_ne_empty
  have hsize : 0 < rest.utf8ByteSize := by
    rw [Nat.pos_iff_ne_zero, ne_eq, String.utf8ByteSize_eq_zero_iff]
    exact hne
  simp [isValidStorePath, String.utf8ByteSize_append, hsize]

end IrohNix.Nix
