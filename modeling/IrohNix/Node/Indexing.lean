import IrohNix.Node.Effect
import IrohNix.Nix.PathInfo
import IrohNix.Transfer.Fetch

namespace IrohNix.Node
open IrohNix.Lib IrohNix.Index IrohNix.Nar IrohNix.Nix IrohNix.Transfer

/-- References and deriver as Nix knows them, if it knows the path. -/
def pathMetadata (nix : NixDatabase) (storePath : String) : List String × Option String :=
  match nix.query storePath with
  | .ok nixInfo => (nixInfo.references, nixInfo.deriver)
  | .error _ => ([], none)

/-- Hashes, size and metadata of a store path whose contents are at `fsPath`: what
Nix knows of the store path, or else all computed. -/
def narMetadata (hashers : Hashers) (files : FileSystem) (nix : NixDatabase)
    (storePath fsPath : String) :
    Action (Sha256Hash × UInt64 × Blake3Hash × List String × Option String) :=
  match nix.query storePath with
  | .ok nixInfo => do
    let sha256 ← .lift (nixInfo.sha256Bytes nix)
    let info ← serializeToSink hashers files fsPath
    pure (⟨sha256⟩, nixInfo.narSize, info.blake3, nixInfo.references, nixInfo.deriver)
  | .error _ => do
    let info ← serializeToSink hashers files fsPath
    pure (info.sha256, info.narSize, info.blake3, [], none)

/-- `Node::index_store_path`, with or without gossip to announce to. -/
def indexStorePath (hashers : Hashers) (files : FileSystem) (nix : NixDatabase) (gossip : Bool)
    (storePath fsPath : String) : Action HashEntry := do
  let (sha256, narSize, blake3, references, deriver) ←
    narMetadata hashers files nix storePath fsPath
  let entry : HashEntry := { blake3, sha256, storePath, narSize, references, deriver }
  insertEntry entry
  if gossip then .perform (.announceHave entry.blake3 storePath entry.narSize)
  pure entry

structure ImportResult where
  storePath : String
  blake3 : Blake3Hash
  sha256 : Sha256Hash
  narSize : UInt64
deriving DecidableEq

/-- Fetch a NAR from a remote node: it is indexed as what the header says it is. -/
def fetchFromWithConfig (hashers : Hashers) (codec : NarCodec) (nix : NixDatabase)
    (config : RetryConfig) (peer : Nat → NarExchange) (blake3 : Blake3Hash) :
    Action (ImportResult × Bytes) := do
  let (header, narData) ← .lift (fetchNarWithConfig hashers codec config peer blake3)
  let (references, deriver) := pathMetadata nix header.storePath
  let entry : HashEntry := {
    blake3, sha256 := ⟨header.sha256⟩, storePath := header.storePath, narSize := header.size
    references, deriver }
  insertEntry entry
  pure (⟨entry.storePath, blake3, entry.sha256, entry.narSize⟩, narData)

theorem narMetadata_effects {hashers : Hashers} {files : FileSystem} {nix : NixDatabase}
    {storePath fsPath : String} {e : Effect}
    (he : e ∈ (narMetadata hashers files nix storePath fsPath).effects) :
    e = .serialize fsPath := by
  unfold narMetadata at he
  cases hq : nix.query storePath with
  | ok nixInfo =>
    simp only [hq, Logged.mem_bind, Logged.effects_lift, List.not_mem_nil, false_or,
      serializeToSink_effects, Logged.effects_pure, and_false, exists_false, or_false] at he
    obtain ⟨_, _, he⟩ := he
    exact he
  | error _ => simpa [hq] using he

/-- The contents serialize, and if Nix knows the store path, the hash it has of it can be
read. -/
def Indexable (hashers : Hashers) (files : FileSystem) (nix : NixDatabase)
    (storePath fsPath : String) : Prop :=
  (∃ info, (serializeToSink hashers files fsPath).result = .ok info) ∧
    ∀ nixInfo, nix.query storePath = .ok nixInfo → ∃ sha256, nixInfo.sha256Bytes nix = .ok sha256

theorem indexable_iff {hashers : Hashers} {files : FileSystem} {nix : NixDatabase}
    {storePath fsPath : String} : Indexable hashers files nix storePath fsPath ↔
      ∃ metadata, (narMetadata hashers files nix storePath fsPath).result = .ok metadata := by
  unfold narMetadata Indexable
  cases hq : nix.query storePath with
  | error e => cases hs : (serializeToSink hashers files fsPath).result <;> simp [hs]
  | ok nixInfo => cases hs : (serializeToSink hashers files fsPath).result <;> simp [hs]

/-- The row written is of the path asked for. -/
theorem indexStorePath_inserts {hashers : Hashers} {files : FileSystem} {nix : NixDatabase}
    {gossip : Bool} {storePath fsPath : String} {entry : HashEntry} :
    .insert entry ∈ (indexStorePath hashers files nix gossip storePath fsPath).effects ↔
      ∃ sha256 narSize blake3 references deriver,
        (narMetadata hashers files nix storePath fsPath).result =
          .ok (sha256, narSize, blake3, references, deriver) ∧
        entry = ⟨blake3, sha256, storePath, narSize, references, deriver⟩ := by
  have hno : .insert entry ∉ (narMetadata hashers files nix storePath fsPath).effects := by
    intro he
    have := narMetadata_effects he
    contradiction
  cases gossip <;> simp [indexStorePath, insertEntry, hno]

/-- The row written is of the path the header names. -/
theorem fetchFrom_inserts {hashers : Hashers} {codec : NarCodec} {nix : NixDatabase}
    {config : RetryConfig} {peer : Nat → NarExchange} {blake3 : Blake3Hash} {entry : HashEntry} :
    .insert entry ∈ (fetchFromWithConfig hashers codec nix config peer blake3).effects ↔
      ∃ header narData,
        fetchNarWithConfig hashers codec config peer blake3 = .ok (header, narData) ∧
        entry = ⟨blake3, ⟨header.sha256⟩, header.storePath, header.size,
          (pathMetadata nix header.storePath).1, (pathMetadata nix header.storePath).2⟩ := by
  simp [fetchFromWithConfig, insertEntry]

theorem fetchFrom_ok {hashers : Hashers} {codec : NarCodec} {config : RetryConfig}
    {peer : Nat → NarExchange} {blake3 : Blake3Hash} {header : NarResponseHeader} {narData : Bytes}
    (h : fetchNarWithConfig hashers codec config peer blake3 = .ok (header, narData))
    (nix : NixDatabase) :
    (fetchFromWithConfig hashers codec nix config peer blake3).result =
      .ok (⟨header.storePath, blake3, ⟨header.sha256⟩, header.size⟩, narData) := by
  rw [fetchFromWithConfig, h]
  rfl

end IrohNix.Node
