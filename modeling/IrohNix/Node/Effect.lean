import IrohNix.Index.HashIndex
import IrohNix.Lib.Effects
import IrohNix.Nar.Writer

namespace IrohNix.Node
open IrohNix.Lib IrohNix.Index IrohNix.Nar

/-- What a node does beyond its own memory: bytes it sends, paths it hands to the
NAR serializer, rows it writes to the index, NARs it announces on gossip, and NARs
it gives to `nix-store --restore` with the path to unpack them at. -/
inductive Effect where
  | send (data : Bytes)
  | serialize (path : String)
  | insert (entry : HashEntry)
  | announceHave (blake3 : Blake3Hash) (storePath : String) (narSize : UInt64)
  | restore (path : String) (nar : Bytes)
deriving DecidableEq

abbrev Action := Logged Effect Error

/-- The files a node can read. `pathExists` follows symbolic links, as `Path::exists`
does; the node at a path is what `symlink_metadata` finds there. -/
structure FileSystem where
  pathExists : String → Bool
  node : String → Except String FileTree

/-- A path goes to the NAR serializer. -/
def serialize (hashers : Hashers) (files : FileSystem) (path : String) :
    Action (Bytes × NarInfo) := do
  .perform (.serialize path)
  .lift (serializePath hashers path (files.node path))

/-- What a path serializes to; nothing if it does not. -/
def servedNar (hashers : Hashers) (files : FileSystem) (path : String) : Bytes :=
  match serializePath hashers path (files.node path) with
  | .ok (nar, _) => nar
  | .error _ => []

/-- A recorded size is that of the NAR the path has now, or zero if it has none. -/
def SizeCurrent (hashers : Hashers) (files : FileSystem) (path : String) (narSize : UInt64) :
    Prop :=
  narSize.toNat = (servedNar hashers files path).length

def serializeToSink (hashers : Hashers) (files : FileSystem) (path : String) : Action NarInfo := do
  let (_, info) ← serialize hashers files path
  pure info

def insertEntry (entry : HashEntry) : Action Unit := .perform (.insert entry)

@[simp] theorem serialize_effects {hashers : Hashers} {files : FileSystem} {path : String}
    {e : Effect} : e ∈ (serialize hashers files path).effects ↔ e = .serialize path := by
  simp [serialize]

@[simp] theorem serialize_result {hashers : Hashers} {files : FileSystem} {path : String} :
    (serialize hashers files path).result = serializePath hashers path (files.node path) := rfl

@[simp] theorem serializeToSink_effects {hashers : Hashers} {files : FileSystem} {path : String}
    {e : Effect} : e ∈ (serializeToSink hashers files path).effects ↔ e = .serialize path := by
  simp [serializeToSink]

/-- Serializing into a sink gives the hashes and the size of some bytes. -/
theorem serializeToSink_ok {hashers : Hashers} {files : FileSystem} {path : String}
    {info : NarInfo} (h : (serializeToSink hashers files path).result = .ok info) :
    ∃ nar, serializePath hashers path (files.node path) = .ok (nar, info) := by
  simp only [serializeToSink, Logged.bind_ok, Logged.result_pure, serialize_result,
    Except.ok.injEq] at h
  obtain ⟨⟨nar, _⟩, hs, rfl⟩ := h
  exact ⟨nar, hs⟩

def Effect.onIndex (index : HashIndex) : Effect → HashIndex
  | .insert entry => index.insert entry
  | _ => index

/-- The index after some effects, in order. -/
def indexAfter (index : HashIndex) (effects : List Effect) : HashIndex :=
  effects.foldl Effect.onIndex index

theorem indexAfter_rows {effects : List Effect} {index : HashIndex} {row : Row}
    (h : row ∈ (indexAfter index effects).rows) :
    row ∈ index.rows ∨ ∃ entry, .insert entry ∈ effects ∧ row = entry.toRow := by
  induction effects generalizing index with
  | nil => exact .inl h
  | cons e effects ih =>
    have hrest : row ∈ (indexAfter (e.onIndex index) effects).rows := h
    rcases ih hrest with hr | ⟨entry, he, rfl⟩
    · cases e with
      | insert entry =>
        rcases (index.mem_insert entry row).mp hr with ⟨hmem, _⟩ | rfl
        · exact .inl hmem
        · exact .inr ⟨entry, by simp, rfl⟩
      | send | serialize | announceHave | restore => exact .inl hr
    · exact .inr ⟨entry, by simp [he], rfl⟩

/-- How one run of `nix-store --restore` goes: whether it starts, takes the NAR,
and is waited for; whether it succeeds; and what it says. -/
structure RestoreProcess where
  spawn : Except String Unit
  writeStdin : Except (ErrorKind × String) Unit
  wait : Except (ErrorKind × String) Unit
  success : Bool
  stderr : Bytes

def hasNul (s : String) : Bool := s.toList.contains '\x00'

/-- `import_nar_to_nix_store`, and the same steps in `fetch_dependencies`. No process
is started with a zero byte in an argument. -/
def importNarToNixStore (process : RestoreProcess) (narData : Bytes) (storePath : String) :
    Action Unit := do
  if hasNul storePath then
    .fail (.build "failed to spawn nix-store: nul byte found in provided data")
  .lift (process.spawn.mapError fun e => .build ("failed to spawn nix-store: " ++ e))
  .perform (.restore storePath narData)
  .lift (process.writeStdin.mapError fun e => .io e.1 e.2)
  .lift (process.wait.mapError fun e => .io e.1 e.2)
  if !process.success then
    .fail (.build ("failed to import " ++ storePath ++ ": " ++ utf8Lossy process.stderr))

/-- The only effect is to restore the NAR at the path, and no zero byte is in that. -/
theorem import_effects {process : RestoreProcess} {narData : Bytes} {storePath : String}
    {e : Effect} (he : e ∈ (importNarToNixStore process narData storePath).effects) :
    e = .restore storePath narData ∧ hasNul storePath = false := by
  unfold importNarToNixStore at he
  cases hz : hasNul storePath with
  | true => simp [hz] at he
  | false =>
    refine ⟨?_, rfl⟩
    rw [hz] at he
    cases hs : process.success <;> simp [hs] at he <;> exact he.2

theorem import_ok {process : RestoreProcess} {narData : Bytes} {storePath : String}
    (h : (importNarToNixStore process narData storePath).result = .ok ()) :
    hasNul storePath = false := by
  cases hz : hasNul storePath with
  | true => simp [importNarToNixStore, hz] at h
  | false => rfl

/-- A process that does its work. -/
def RestoreProcess.willing : RestoreProcess := ⟨.ok (), .ok (), .ok (), true, []⟩

theorem import_willing {storePath : String} (hz : hasNul storePath = false) (narData : Bytes) :
    importNarToNixStore .willing narData storePath = ⟨[.restore storePath narData], .ok ()⟩ := by
  unfold importNarToNixStore
  rw [hz]
  rfl

end IrohNix.Node
