import IrohNix.Basic
import IrohNix.Lib.Bytes
import IrohNix.Lib.Effects
import Mathlib.Data.List.Sort

namespace IrohNix.Nar
open IrohNix.Lib

/-- An `OsString`: text, or bytes that are not UTF-8. -/
inductive OsString where
  | utf8 (text : String)
  | other (bytes : Bytes)
deriving DecidableEq

def OsString.asBytes : OsString → Bytes
  | .utf8 text => Lib.utf8 text
  | .other bytes => bytes

/-- What is found at a path. A directory's entries stand in the order `read_dir`
lists them. -/
inductive FileTree where
  | regular (executable : Bool) (contents : Bytes)
  | symlink (target : OsString)
  | directory (entries : List (OsString × FileTree))
  | unsupported

/-- Writing to a `NarWriter`: the buffers handed to the underlying writer. -/
abbrev NarWrite := Logged Bytes Error

def writeU64 (n : UInt64) : NarWrite Unit := .perform (leBytes 8 n.toNat)

/-- Zero bytes up to a multiple of 8. -/
def writePadding (size : Nat) : NarWrite Unit :=
  let padding := (8 - size % 8) % 8
  if padding > 0 then .perform (List.replicate padding 0) else pure ()

def writeString (s : Bytes) : NarWrite Unit := do
  writeU64 (.ofNat s.length)
  .perform s
  writePadding s.length

def writeText (s : String) : NarWrite Unit := writeString (utf8 s)

/-- The buffer a file is read through holds 64 KiB. -/
def writeFile (executable : Bool) (contents : Bytes) : NarWrite Unit := do
  writeText "type"
  writeText "regular"
  if executable then
    writeText "executable"
    writeText ""
  writeText "contents"
  writeU64 (.ofNat contents.length)
  .forEach .perform (contents.toChunks 65536)
  writePadding contents.length

def writeSymlink : OsString → NarWrite Unit
  | .utf8 target => do
    writeText "type"
    writeText "symlink"
    writeText "target"
    writeText target
  | .other _ => .fail (.nar "symlink target is not valid UTF-8")

/-- One entry of a directory, around the encoding of what it names. -/
def writeDirEntry (name : OsString) (node : NarWrite Unit) : NarWrite Unit :=
  match name with
  | .utf8 text => do
    writeText "entry"
    writeText "("
    writeText "name"
    writeText text
    writeText "node"
    node
    writeText ")"
  | .other _ => .fail (.nar "filename is not valid UTF-8")

/-- `Path::join` -/
def joinPath (path name : String) : String :=
  if path.toList.getLast? = some '/' then path ++ name else path ++ "/" ++ name

mutual
def writeEntry (path : String) : FileTree → NarWrite Unit
  | .regular executable contents => do
    writeText "("
    writeFile executable contents
    writeText ")"
  | .symlink target => do
    writeText "("
    writeSymlink target
    writeText ")"
  | .directory entries => do
    writeText "("
    writeText "type"
    writeText "directory"
    -- Nix requires sorted order
    .forEach (fun child => writeDirEntry child.1 child.2)
      ((writeChildren path entries).insertionSort fun a b => a.1.asBytes ≤ b.1.asBytes)
    writeText ")"
  | .unsupported => do
    writeText "("
    .fail (.nar ("unsupported file type: " ++ path))

/-- Each name in a directory, with the writing of what it names. -/
def writeChildren (path : String) : List (OsString × FileTree) → List (OsString × NarWrite Unit)
  | [] => []
  | (name, node) :: rest =>
    (name, writeEntry (match name with
      | .utf8 text => joinPath path text
      | .other _ => path) node) :: writeChildren path rest
end

/-- The node is what the filesystem has at the path, or its error. -/
def writePath (path : String) (node : Except String FileTree) : NarWrite Unit := do
  writeText "nix-archive-1"
  match node with
  | .error e => .fail (.nar ("failed to read metadata for " ++ path ++ ": " ++ e))
  | .ok tree => writeEntry path tree

structure NarInfo where
  blake3 : Blake3Hash
  sha256 : Sha256Hash
  narSize : UInt64
deriving DecidableEq

/-- A `HashingWriter`, with what its two hashers were fed. The writers it is put
around, a vector and a sink, take each buffer whole. -/
structure HashingWriter where
  hashed : Bytes
  bytesWritten : UInt64

def HashingWriter.new : HashingWriter := ⟨[], 0⟩

def HashingWriter.write (w : HashingWriter) (buf : Bytes) : HashingWriter :=
  ⟨w.hashed ++ buf, w.bytesWritten + .ofNat buf.length⟩

def HashingWriter.finish (hashers : Hashers) (w : HashingWriter) : NarInfo :=
  ⟨⟨hashers.blake3 w.hashed⟩, ⟨hashers.sha256 w.hashed⟩, w.bytesWritten⟩

/-- Serialize a path to NAR format and compute hashes. -/
def serializePath (hashers : Hashers) (path : String) (node : Except String FileTree) :
    Except Error (Bytes × NarInfo) := do
  let written := writePath path node
  written.result
  let hashing := written.effects.foldl HashingWriter.write .new
  pure (hashing.hashed, hashing.finish hashers)

theorem written_count (bufs : List Bytes) (w : HashingWriter)
    (hw : w.bytesWritten = .ofNat w.hashed.length) :
    (bufs.foldl HashingWriter.write w).bytesWritten =
      .ofNat (bufs.foldl HashingWriter.write w).hashed.length := by
  induction bufs generalizing w with
  | nil => exact hw
  | cons buf bufs ih =>
    refine ih (w.write buf) ?_
    simp [HashingWriter.write, hw]

/-- The hashes and the size are those of the bytes written, the size as a u64. -/
theorem serializePath_info {hashers : Hashers} {path : String} {node : Except String FileTree}
    {nar : Bytes} {info : NarInfo} (h : serializePath hashers path node = .ok (nar, info)) :
    info = ⟨⟨hashers.blake3 nar⟩, ⟨hashers.sha256 nar⟩, .ofNat nar.length⟩ := by
  unfold serializePath at h
  cases hr : (writePath path node).result with
  | error e => simp [hr, Bind.bind, Except.bind] at h
  | ok _ =>
    simp only [hr, Bind.bind, Except.bind, pure, Except.pure, Except.ok.injEq, Prod.mk.injEq] at h
    obtain ⟨rfl, rfl⟩ := h
    simp [HashingWriter.finish, written_count (writePath path node).effects .new rfl]

example : ∃ nar info, serializePath zeroHashers "/nix/store/a" (.ok (.regular false [7])) =
    .ok (nar, info) ∧ nar.length = 120 := ⟨_, _, rfl, rfl⟩

end IrohNix.Nar
