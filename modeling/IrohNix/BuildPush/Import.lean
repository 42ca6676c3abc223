import IrohNix.Builder.Dependencies

namespace IrohNix.BuildPush
open IrohNix.Lib IrohNix.Build IrohNix.Builder IrohNix.Nix IrohNix.Node IrohNix.Transfer

/-- What fetching one output meets: the builder's answers, the import, and Nix's
database behind the fetch. -/
structure OutputFetchEnv where
  peer : Nat → NarExchange
  process : RestoreProcess
  nix : NixDatabase

/-- Fetch one output and import it into the Nix store. A failure is reported, and
the next output is turned to. -/
def importOutput (hashers : Hashers) (codec : NarCodec) (env : OutputFetchEnv)
    (output : BuildOutput) : Logged Effect String Unit := do
  match ← (fetchFromWithConfig hashers codec env.nix .default env.peer ⟨output.blake3⟩).attempt with
  | .ok (_, narData) =>
    let _ ← (importNarToNixStore env.process narData output.storePath).attempt
  | .error _ => pure ()

/-- Fetch the outputs of a completed build. The task panics on a builder that is no key. -/
def importResult (crypto : Ed25519) (hashers : Hashers) (codec : NarCodec)
    (env : Nat → OutputFetchEnv) (result : BuildResult) : Logged Effect String Unit :=
  match crypto.endpointIdFromBytes result.builder with
  | none => .fail "invalid builder ID"
  | some _ =>
    .forEach (fun output => importOutput hashers codec (env output.2) output.1)
      result.outputs.zipIdx

/-- One iteration of `build_push`'s monitor: the queue after it, and what was done for
the results it took. -/
def fetchOutputs (crypto : Ed25519) (hashers : Hashers) (codec : NarCodec)
    (env : Nat → Nat → OutputFetchEnv) (q : BuildQueue) : BuildQueue × Logged Effect String Unit :=
  let (queue, pendingFetches) := q.takePendingFetches
  (queue, .forEach (fun result => importResult crypto hashers codec (env result.2) result.1)
    pendingFetches.zipIdx)

theorem importOutput_continues (hashers : Hashers) (codec : NarCodec) (env : OutputFetchEnv)
    (output : BuildOutput) : (importOutput hashers codec env output).result = .ok () := by
  unfold importOutput
  rw [Logged.bind_ok]
  refine ⟨_, Logged.result_attempt _, ?_⟩
  split <;> simp

theorem importOutput_restores {hashers : Hashers} {codec : NarCodec} {env : OutputFetchEnv}
    {output : BuildOutput} {path : String} {nar : Bytes}
    (h : .restore path nar ∈ (importOutput hashers codec env output).effects) :
    path = output.storePath ∧ hasNul path = false ∧
      ∃ header, fetchNarWithConfig hashers codec .default env.peer ⟨output.blake3⟩ =
        .ok (header, nar) := by
  unfold importOutput at h
  simp only [Logged.mem_bind, Logged.effects_attempt, Logged.result_attempt, Except.ok.injEq] at h
  rcases h with h | ⟨outcome, ho, h⟩
  · simp [fetchFromWithConfig, insertEntry] at h
  · cases outcome with
    | error e => simp at h
    | ok fetched =>
      obtain ⟨imported, narData⟩ := fetched
      simp at h
      obtain ⟨he, hz⟩ := import_effects h
      obtain ⟨rfl, rfl⟩ := Effect.restore.inj he
      refine ⟨rfl, hz, ?_⟩
      simp only [fetchFromWithConfig, Logged.bind_ok, Logged.result_lift, Logged.result_pure] at ho
      obtain ⟨⟨header, data⟩, hf, _, _, hp⟩ := ho
      simp only [Except.ok.injEq, Prod.mk.injEq] at hp
      obtain ⟨_, rfl⟩ := hp
      exact ⟨header, hf⟩

/-- A result whose builder is a key is gone through to its last output. -/
theorem importResult_continues (crypto : Ed25519) (hashers : Hashers) (codec : NarCodec)
    (env : Nat → OutputFetchEnv) (result : BuildResult) :
    (importResult crypto hashers codec env result).result = .ok () ↔
      (crypto.endpointIdFromBytes result.builder).isSome := by
  unfold importResult
  cases crypto.endpointIdFromBytes result.builder with
  | none => simp
  | some builderId =>
    simp only [Option.isSome_some, iff_true]
    exact Logged.forEach_ok fun output _ => importOutput_continues hashers codec _ output.1

/-- Only outputs of the result are restored, and only if its builder is a key. -/
theorem importResult_restores {crypto : Ed25519} {hashers : Hashers} {codec : NarCodec}
    {env : Nat → OutputFetchEnv} {result : BuildResult} {e : Effect} :
    e ∈ (importResult crypto hashers codec env result).effects ↔
      (crypto.endpointIdFromBytes result.builder).isSome ∧
        ∃ (o : Nat) (ho : o < result.outputs.length),
          e ∈ (importOutput hashers codec (env o) result.outputs[o]).effects := by
  unfold importResult
  cases crypto.endpointIdFromBytes result.builder with
  | none => simp
  | some builderId =>
    simp only [Option.isSome_some, true_and, Logged.mem_forEach_zipIdx]
    constructor
    · intro h
      obtain ⟨o, ho, _, he⟩ := h
      exact ⟨o, ho, he⟩
    · intro h
      obtain ⟨o, ho, he⟩ := h
      exact ⟨o, ho, fun _ _ => importOutput_continues hashers codec _ _, he⟩

/-- The results are gone through up to the first whose builder is no key. -/
theorem fetchOutputs_effects {crypto : Ed25519} {hashers : Hashers} {codec : NarCodec}
    {env : Nat → Nat → OutputFetchEnv} {q : BuildQueue} {e : Effect} :
    e ∈ (fetchOutputs crypto hashers codec env q).2.effects ↔
      ∃ (r : Nat) (hr : r < q.pendingFetch.length),
        (∀ (j : Nat) (hj : j < r),
          (crypto.endpointIdFromBytes q.pendingFetch[j].builder).isSome) ∧
        e ∈ (importResult crypto hashers codec (env r) q.pendingFetch[r]).effects := by
  simp only [fetchOutputs, BuildQueue.takePendingFetches, Logged.mem_forEach_zipIdx,
    importResult_continues]

end IrohNix.BuildPush
