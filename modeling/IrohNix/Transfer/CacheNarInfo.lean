import IrohNix.Lib.Lines
import IrohNix.Nix.Base32
import IrohNix.Transfer.HttpCache

namespace IrohNix
open IrohNix.Lib IrohNix.Nix

namespace Sha256Hash

def fromSlice (slice : Bytes) : Except Error Sha256Hash :=
  match toBytes32 slice with
  | some bytes => .ok ⟨bytes⟩
  | none => .error (.protocol "invalid sha256 hash length")

def fromHex (s : String) : Except Error Sha256Hash := do
  let bytes ← (hexDecode s).mapError fun e => .protocol ("invalid hex: " ++ e)
  fromSlice bytes

@[simp] theorem fromSlice_toList (bytes : Bytes32) : fromSlice bytes.toList = .ok ⟨bytes⟩ := by
  simp [fromSlice]

end Sha256Hash

namespace Transfer

/-- Parse SHA256 hash from Nix base32 or hex format. -/
def parseSha256Hash (s : String) : Except Error Sha256Hash :=
  if s.utf8ByteSize = 64 ∧ s.toList.all (fun c => (hexValue c).isSome) then Sha256Hash.fromHex s
  else if s.utf8ByteSize = 52 then do
    let bytes ← decodeNixBase32 s
    Sha256Hash.fromSlice bytes
  else .error (.httpCache ("invalid SHA256 hash format: " ++ s ++ " (len=" ++
    toString s.utf8ByteSize ++ ")"))

/-- Parse SHA256 hash from base64 (SRI format). -/
def parseSha256Base64 (decodeBase64 : String → Except String Bytes) (s : String) :
    Except Error Sha256Hash := do
  let bytes ← httpError "invalid base64 in SRI hash: " (decodeBase64 s)
  Sha256Hash.fromSlice bytes

def parsePrefixedSha256 (decodeBase64 : String → Except String Bytes) (s : String) :
    Except Error Sha256Hash :=
  match stripPrefix "sha256:" s with
  | some hashStr => parseSha256Hash hashStr
  | none =>
    match stripPrefix "sha256-" s with
    | some b64Str => parseSha256Base64 decodeBase64 b64Str
    | none => .error (.httpCache
      ("unsupported hash format (expected sha256:... or sha256-...): " ++ s))

/-- Nix defaults to bzip2 when the field is empty or absent. -/
def Compression.fromNarinfo (value : String) : Compression :=
  match value.toLower with
  | "xz" => .xz
  | "zstd" => .zstd
  | "bzip2" => .bzip2
  | "none" => .none
  | _ => .bzip2

theorem Compression.fromNarinfo_none : fromNarinfo "none" = .none := by decide +kernel

/-- What the lines of a narinfo read so far have set. -/
structure NarInfoFields where
  storePath : Option String := none
  url : Option String := none
  compression : Compression := .bzip2
  narHash : Option Sha256Hash := none
  narSize : Option UInt64 := none
  fileSize : Option UInt64 := none
  references : List String := []
  deriver : Option String := none

/-- The latest line of a key counts, also one whose number cannot be read. -/
def NarInfoFields.set (decodeBase64 : String → Except String Bytes) (info : NarInfoFields)
    (field : String × String) : Except Error NarInfoFields :=
  let value := field.2
  match field.1 with
  | "StorePath" => .ok { info with storePath := some value }
  | "URL" => .ok { info with url := some value }
  | "Compression" => .ok { info with compression := .fromNarinfo value }
  | "NarHash" => do
    let narHash ← parsePrefixedSha256 decodeBase64 value
    .ok { info with narHash := some narHash }
  | "NarSize" => .ok { info with narSize := parseU64 value }
  | "FileSize" => .ok { info with fileSize := parseU64 value }
  | "References" =>
    .ok { info with
      references :=
        ((splitWhitespace value).filter (fun s => !s.isEmpty)).map ("/nix/store/" ++ ·) }
  | "Deriver" =>
    let v := trim value
    if !v.isEmpty && v != "unknown-deriver" then
      .ok { info with deriver := some ("/nix/store/" ++ v) }
    else .ok info
  | _ => .ok info

def required {α : Type} (missing : String) : Option α → Except Error α
  | some a => .ok a
  | none => .error (.httpCache missing)

/-- Parse narinfo text format. -/
def CacheNarInfo.parse (decodeBase64 : String → Except String Bytes) (text : String) :
    Except Error CacheNarInfo := do
  let info ← (fields text).foldlM (NarInfoFields.set decodeBase64) {}
  let storePath ← required "missing StorePath" info.storePath
  let url ← required "missing URL" info.url
  let narHash ← required "missing or invalid NarHash" info.narHash
  let narSize ← required "missing NarSize" info.narSize
  pure {
    storePath, url, narHash, narSize
    compression := info.compression
    fileSize := info.fileSize
    references := info.references
    deriver := info.deriver }

/-- A hash that is written in base32 is read back. -/
theorem parsePrefixedSha256_base32 (decodeBase64 : String → Except String Bytes)
    (hash : Sha256Hash) :
    parsePrefixedSha256 decodeBase64 ("sha256:" ++ hash.toNixBase32) = .ok hash := by
  have hsize : hash.toNixBase32.utf8ByteSize = 52 := toNixBase32_size hash
  have hhex : ¬ (hash.toNixBase32.utf8ByteSize = 64 ∧
      hash.toNixBase32.toList.all (fun c => (hexValue c).isSome) = true) := by
    rw [hsize]
    omega
  simp only [parsePrefixedSha256, stripPrefix_append, parseSha256Hash, if_neg hhex, if_pos hsize,
    decode_toNixBase32]
  exact Sha256Hash.fromSlice_toList hash.bytes

end Transfer

end IrohNix
