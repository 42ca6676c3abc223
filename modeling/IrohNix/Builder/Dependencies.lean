import IrohNix.Builder.Handler
import IrohNix.Node.Indexing

namespace IrohNix.Builder
open IrohNix.Lib IrohNix.Build IrohNix.Index IrohNix.Nar IrohNix.Nix IrohNix.Node IrohNix.Transfer

/-- What fetching one dependency meets: the requester's answers, attempt by
attempt, the import, and Nix's database behind it. -/
structure DependencyEnv where
  peer : Nat → NarExchange
  process : RestoreProcess
  nix : NixDatabase

def fetchDependency (hashers : Hashers) (codec : NarCodec) (env : DependencyEnv)
    (input : InputPathProto) : Action Unit := do
  let blake3 : Blake3Hash := ⟨input.blake3⟩
  let (header, narData) ← .lift (fetchNarWithConfig hashers codec .aggressive env.peer blake3)
  importNarToNixStore env.process narData input.storePath
  let (references, deriver) := pathMetadata env.nix input.storePath
  insertEntry {
    blake3, sha256 := ⟨header.sha256⟩, storePath := input.storePath, narSize := header.size
    references, deriver }

/-- The input paths that do not exist when a job is taken up. -/
def missingPaths (pathExists : String → Bool) (inputPaths : List InputPathProto) :
    List InputPathProto :=
  inputPaths.filter fun ip => !pathExists ip.storePath

def fetchMissing (hashers : Hashers) (codec : NarCodec) (env : Nat → DependencyEnv)
    (missing : List InputPathProto) : Action Unit :=
  .forEach (fun input => fetchDependency hashers codec (env input.2) input.1) missing.zipIdx

/-- Fetch missing dependencies from the requester. -/
def fetchDependencies (hashers : Hashers) (codec : NarCodec) (pathExists : String → Bool)
    (env : Nat → DependencyEnv) (inputPaths : List InputPathProto) : Action Unit :=
  fetchMissing hashers codec env (missingPaths pathExists inputPaths)

/-- `execute_build`: of the lines a build prints, those that are output paths. -/
def outputPaths (lines : List String) : List String :=
  lines.filter fun line => "/nix/store/".toList.isPrefixOf line.toList

/-- What indexing one output meets. -/
structure OutputEnv where
  files : FileSystem
  nix : NixDatabase

/-- Index an output and describe it to the requester. -/
def indexOutput (hashers : Hashers) (env : OutputEnv) (outputPath : String) :
    Action BuildOutput := do
  let info ← serializeToSink hashers env.files outputPath
  let (references, deriver) := pathMetadata env.nix outputPath
  insertEntry {
    blake3 := info.blake3, sha256 := info.sha256, storePath := outputPath
    narSize := info.narSize, references, deriver }
  pure ⟨outputPath, info.blake3.bytes, info.sha256.bytes, info.narSize⟩

/-- Index the outputs of a build. -/
def indexOutputs (hashers : Hashers) (env : Nat → OutputEnv) (outputPaths : List String) :
    Action (List BuildOutput) :=
  .mapEach (fun path => indexOutput hashers (env path.2) path.1) outputPaths.zipIdx

theorem fetchDependency_restores {hashers : Hashers} {codec : NarCodec} {env : DependencyEnv}
    {input : InputPathProto} {path : String} {nar : Bytes}
    (h : .restore path nar ∈ (fetchDependency hashers codec env input).effects) :
    path = input.storePath ∧ hasNul path = false ∧
      ∃ header, fetchNarWithConfig hashers codec .aggressive env.peer ⟨input.blake3⟩ =
        .ok (header, nar) := by
  simp only [fetchDependency, Logged.mem_bind, Logged.effects_lift, List.not_mem_nil, false_or,
    Logged.result_lift] at h
  obtain ⟨⟨header, narData⟩, hf, h | ⟨_, _, h⟩⟩ := h
  · obtain ⟨he, hz⟩ := import_effects h
    obtain ⟨rfl, rfl⟩ := Effect.restore.inj he
    exact ⟨rfl, hz, header, hf⟩
  · simp [insertEntry] at h

/-- The row written is of the input path, with the hash and size the header names. -/
theorem fetchDependency_inserts {hashers : Hashers} {codec : NarCodec} {env : DependencyEnv}
    {input : InputPathProto} {entry : HashEntry} :
    .insert entry ∈ (fetchDependency hashers codec env input).effects ↔
      ∃ header nar, fetchNarWithConfig hashers codec .aggressive env.peer ⟨input.blake3⟩ =
          .ok (header, nar) ∧
        (importNarToNixStore env.process nar input.storePath).result = .ok () ∧
        entry = ⟨⟨input.blake3⟩, ⟨header.sha256⟩, input.storePath, header.size,
          (pathMetadata env.nix input.storePath).1, (pathMetadata env.nix input.storePath).2⟩ := by
  have hno : ∀ nar, .insert entry ∉
      (importNarToNixStore env.process nar input.storePath).effects := by
    intro nar he
    have := (import_effects he).1
    contradiction
  simp [fetchDependency, insertEntry, hno, Unique.exists_iff]

/-- A dependency that was fetched and imported, with its header and NAR. -/
def Imported (hashers : Hashers) (codec : NarCodec) (env : DependencyEnv) (input : InputPathProto)
    (header : NarResponseHeader) (nar : Bytes) : Prop :=
  fetchNarWithConfig hashers codec .aggressive env.peer ⟨input.blake3⟩ = .ok (header, nar) ∧
    (importNarToNixStore env.process nar input.storePath).result = .ok ()

theorem fetchDependency_ok {hashers : Hashers} {codec : NarCodec} {env : DependencyEnv}
    {input : InputPathProto} :
    (fetchDependency hashers codec env input).result = .ok () ↔
      ∃ header nar, Imported hashers codec env input header nar := by
  simp [fetchDependency, Imported, insertEntry, Unique.exists_iff]

theorem fetchMissing_inserts {hashers : Hashers} {codec : NarCodec} {env : Nat → DependencyEnv}
    {missing : List InputPathProto} {entry : HashEntry} :
    .insert entry ∈ (fetchMissing hashers codec env missing).effects ↔
      ∃ (i : Nat) (hi : i < missing.length),
        (∀ (j : Nat) (hj : j < i), ∃ header nar,
          Imported hashers codec (env j) missing[j] header nar) ∧
        ∃ header nar, Imported hashers codec (env i) missing[i] header nar ∧
          entry = ⟨⟨missing[i].blake3⟩, ⟨header.sha256⟩, missing[i].storePath, header.size,
            (pathMetadata (env i).nix missing[i].storePath).1,
            (pathMetadata (env i).nix missing[i].storePath).2⟩ := by
  simp only [fetchMissing, Logged.mem_forEach_zipIdx, fetchDependency_ok, fetchDependency_inserts,
    Imported, and_assoc]

theorem indexOutput_inserts {hashers : Hashers} {env : OutputEnv} {outputPath : String}
    {entry : HashEntry} :
    .insert entry ∈ (indexOutput hashers env outputPath).effects ↔
      ∃ info, (serializeToSink hashers env.files outputPath).result = .ok info ∧
        entry = ⟨info.blake3, info.sha256, outputPath, info.narSize,
          (pathMetadata env.nix outputPath).1, (pathMetadata env.nix outputPath).2⟩ := by
  simp [indexOutput, insertEntry]

theorem output_indexed_iff {hashers : Hashers} {env : OutputEnv} {outputPath : String} :
    (∃ output, (indexOutput hashers env outputPath).result = .ok output) ↔
      ∃ info, (serializeToSink hashers env.files outputPath).result = .ok info := by
  cases hs : (serializeToSink hashers env.files outputPath).result <;>
    simp [indexOutput, insertEntry, hs]

end IrohNix.Builder
