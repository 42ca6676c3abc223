import IrohNix.Builder.Dependencies
import IrohNix.Transfer.Serve

namespace IrohNix.Node
open IrohNix.Lib IrohNix.Build IrohNix.Builder IrohNix.Index IrohNix.Nar IrohNix.Nix IrohNix.Transfer

/-- There is one byte string that all three of the entry's hashes and size are of. -/
def OneNar (hashers : Hashers) (entry : HashEntry) : Prop :=
  ∃ nar, entry.Describes hashers nar

/-- Every row an action writes is about one byte string. -/
def RowsOneNar (hashers : Hashers) {α : Type} (m : Action α) : Prop :=
  ∀ entry, .insert entry ∈ m.effects → OneNar hashers entry

/-- No other byte string has the BLAKE3 hash of this one. -/
def NoSecondPreimage (hashers : Hashers) (nar : Bytes) : Prop :=
  ∀ other, hashers.blake3 other = hashers.blake3 nar → other = nar

/-- An entry under the BLAKE3 hash of a NAR can only be about that NAR. -/
theorem OneNar.describes {hashers : Hashers} {entry : HashEntry} {nar : Bytes}
    (h : OneNar hashers entry) (hash : entry.blake3 = ⟨hashers.blake3 nar⟩)
    (unique : NoSecondPreimage hashers nar) : entry.Describes hashers nar := by
  obtain ⟨other, ho⟩ := h
  have : other = nar := unique other (Blake3Hash.mk.inj (ho.blake3.symm.trans hash))
  exact this ▸ ho

/-- A condition is enough for every row to be about one byte string, and is needed
where none of the NARs in question has a second preimage. -/
structure Decides (hashers : Hashers) (nars : Bytes → Prop) (condition rows : Prop) : Prop where
  enough : condition → rows
  needed : (∀ nar, nars nar → NoSecondPreimage hashers nar) → rows → condition

/-- What a NAR on disk must be for the row of a store path: as Nix says the store
path's is, where Nix knows the path, and else of fewer than 2^64 bytes. -/
def AsNixSays (hashers : Hashers) (nix : NixDatabase) (storePath : String) (nar : Bytes) : Prop :=
  match nix.query storePath with
  | .ok nixInfo => ∀ sha256, nixInfo.sha256Bytes nix = .ok sha256 →
    hashers.sha256 nar = sha256 ∧ nixInfo.narSize.toNat = nar.length
  | .error _ => nar.length < 2 ^ 64

/-- The NAR the serializer makes of a path. -/
def IsNarOf (hashers : Hashers) (files : FileSystem) (path : String) (nar : Bytes) : Prop :=
  ∃ info, serializePath hashers path (files.node path) = .ok (nar, info)

theorem serializeToSink_iff {hashers : Hashers} {files : FileSystem} {path : String}
    {info : NarInfo} :
    (serializeToSink hashers files path).result = .ok info ↔ ∃ nar,
      IsNarOf hashers files path nar ∧
      info = ⟨⟨hashers.blake3 nar⟩, ⟨hashers.sha256 nar⟩, .ofNat nar.length⟩ := by
  constructor
  · intro h
    obtain ⟨nar, hs⟩ := serializeToSink_ok h
    exact ⟨nar, ⟨info, hs⟩, serializePath_info hs⟩
  · intro h
    obtain ⟨nar, ⟨info', hs⟩, rfl⟩ := h
    rw [serializePath_info hs] at hs
    simp [serializeToSink, hs]

theorem narMetadata_ok {hashers : Hashers} {files : FileSystem} {nix : NixDatabase}
    {storePath fsPath : String} {sha256 : Sha256Hash} {narSize : UInt64} {blake3 : Blake3Hash}
    {references : List String} {deriver : Option String} :
    (narMetadata hashers files nix storePath fsPath).result =
      .ok (sha256, narSize, blake3, references, deriver) ↔
    ∃ nar, IsNarOf hashers files fsPath nar ∧ blake3 = ⟨hashers.blake3 nar⟩ ∧
      match nix.query storePath with
      | .ok nixInfo => nixInfo.sha256Bytes nix = .ok sha256.bytes ∧ narSize = nixInfo.narSize ∧
        references = nixInfo.references ∧ deriver = nixInfo.deriver
      | .error _ => sha256 = ⟨hashers.sha256 nar⟩ ∧ narSize = .ofNat nar.length ∧
        references = [] ∧ deriver = none := by
  unfold narMetadata
  cases hq : nix.query storePath with
  | ok nixInfo =>
    simp only [Logged.bind_ok, Logged.result_lift, Logged.result_pure, serializeToSink_iff,
      Except.ok.injEq, Prod.mk.injEq]
    constructor
    · intro h
      obtain ⟨sha, hsha, info, ⟨nar, hnar, rfl⟩, rfl, rfl, rfl, rfl, rfl⟩ := h
      exact ⟨nar, hnar, rfl, hsha, rfl, rfl, rfl⟩
    · intro h
      obtain ⟨nar, hnar, rfl, hsha, rfl, rfl, rfl⟩ := h
      exact ⟨_, hsha, _, ⟨nar, hnar, rfl⟩, rfl, rfl, rfl, rfl, rfl⟩
  | error e =>
    simp only [Logged.bind_ok, Logged.result_pure, serializeToSink_iff, Except.ok.injEq,
      Prod.mk.injEq]
    constructor
    · intro h
      obtain ⟨info, ⟨nar, hnar, rfl⟩, rfl, rfl, rfl, rfl, rfl⟩ := h
      exact ⟨nar, hnar, rfl, rfl, rfl, rfl, rfl⟩
    · intro h
      obtain ⟨nar, hnar, rfl, rfl, rfl, rfl, rfl⟩ := h
      exact ⟨_, ⟨nar, hnar, rfl⟩, rfl, rfl, rfl, rfl, rfl⟩

theorem toNat_length {nar : Bytes} :
    (UInt64.ofNat nar.length).toNat = nar.length ↔ nar.length < 2 ^ 64 := by
  rw [UInt64.toNat_ofNat']
  omega

theorem index_decides (hashers : Hashers) (files : FileSystem) (nix : NixDatabase) (gossip : Bool)
    (storePath fsPath : String) :
    Decides hashers (IsNarOf hashers files fsPath)
      (∀ nar, IsNarOf hashers files fsPath nar → AsNixSays hashers nix storePath nar)
      (RowsOneNar hashers (indexStorePath hashers files nix gossip storePath fsPath)) where
  enough := by
    intro agrees entry he
    obtain ⟨sha256, narSize, blake3, references, deriver, hm, rfl⟩ := indexStorePath_inserts.mp he
    obtain ⟨nar, hnar, rfl, hq⟩ := narMetadata_ok.mp hm
    have reported := agrees nar hnar
    unfold AsNixSays at reported
    cases hquery : nix.query storePath with
    | ok nixInfo =>
      simp only [hquery] at hq reported
      obtain ⟨hsha, rfl, _, _⟩ := hq
      obtain ⟨hnix, hsize⟩ := reported sha256.bytes hsha
      exact ⟨nar, rfl, Sha256Hash.ext hnix.symm, hsize⟩
    | error e =>
      simp only [hquery] at hq reported
      obtain ⟨rfl, rfl, _, _⟩ := hq
      exact ⟨nar, rfl, rfl, toNat_length.mpr reported⟩
  needed := by
    intro unique rows nar hnar
    have described : ∀ sha256 narSize references deriver,
        (narMetadata hashers files nix storePath fsPath).result =
          .ok (sha256, narSize, ⟨hashers.blake3 nar⟩, references, deriver) →
        sha256 = ⟨hashers.sha256 nar⟩ ∧ narSize.toNat = nar.length := by
      intro sha256 narSize references deriver hm
      have row := rows _ (indexStorePath_inserts.mpr ⟨_, _, _, _, _, hm, rfl⟩)
      have d := row.describes rfl (unique nar hnar)
      exact ⟨d.sha256, d.narSize⟩
    unfold AsNixSays
    cases hquery : nix.query storePath with
    | ok nixInfo =>
      intro sha256 hsha
      obtain ⟨heq, hsize⟩ := described ⟨sha256⟩ nixInfo.narSize nixInfo.references nixInfo.deriver
        (narMetadata_ok.mpr ⟨nar, hnar, rfl, by rw [hquery]; exact ⟨hsha, rfl, rfl, rfl⟩⟩)
      exact ⟨(Sha256Hash.mk.inj heq).symm, hsize⟩
    | error e =>
      obtain ⟨_, hsize⟩ := described ⟨hashers.sha256 nar⟩ (.ofNat nar.length) [] none
        (narMetadata_ok.mpr ⟨nar, hnar, rfl, by rw [hquery]; exact ⟨rfl, rfl, rfl, rfl⟩⟩)
      exact toNat_length.mp hsize

/-- A row made of a remote node's header describes the NAR received with it exactly when
the header's SHA-256 is the NAR's. -/
theorem header_row_describes {hashers : Hashers} {blake3 : Blake3Hash} {header : NarResponseHeader}
    {nar : Bytes} (received : Received hashers blake3 header nar) (storePath : String)
    (references : List String) (deriver : Option String) :
    HashEntry.Describes hashers nar
      ⟨blake3, ⟨header.sha256⟩, storePath, header.size, references, deriver⟩ ↔
    header.sha256 = hashers.sha256 nar := by
  constructor
  · intro d
    exact Sha256Hash.mk.inj d.sha256
  · intro h
    exact ⟨Blake3Hash.ext received.hash.symm, Sha256Hash.ext h, received.size.symm⟩

theorem header_row_honest {hashers : Hashers} {blake3 : Blake3Hash} {header : NarResponseHeader}
    {nar : Bytes} (received : Received hashers blake3 header nar)
    (unique : NoSecondPreimage hashers nar) {storePath : String} {references : List String}
    {deriver : Option String} (row : OneNar hashers
      ⟨blake3, ⟨header.sha256⟩, storePath, header.size, references, deriver⟩) :
    header.sha256 = hashers.sha256 nar := by
  have hash : blake3 = ⟨hashers.blake3 nar⟩ := Blake3Hash.ext received.hash.symm
  exact (header_row_describes received _ _ _).mp (row.describes hash unique)

theorem fetch_decides (hashers : Hashers) (codec : NarCodec) (nix : NixDatabase)
    (config : RetryConfig) (peer : Nat → NarExchange) (blake3 : Blake3Hash) :
    Decides hashers
      (fun nar => ∃ header, fetchNarWithConfig hashers codec config peer blake3 = .ok (header, nar))
      (∀ header nar, fetchNarWithConfig hashers codec config peer blake3 = .ok (header, nar) →
        header.sha256 = hashers.sha256 nar)
      (RowsOneNar hashers (fetchFromWithConfig hashers codec nix config peer blake3)) where
  enough := by
    intro honest entry he
    obtain ⟨header, nar, hf, rfl⟩ := fetchFrom_inserts.mp he
    have received := fetchNarWithConfig_ok hf
    exact ⟨nar, (header_row_describes received _ _ _).mpr (honest header nar hf)⟩
  needed := by
    intro unique rows header nar hf
    have row := rows _ (fetchFrom_inserts.mpr ⟨header, nar, hf, rfl⟩)
    exact header_row_honest (fetchNarWithConfig_ok hf) (unique nar ⟨header, hf⟩) row

/-- The dependencies of a job that are imported, each with its header and NAR. -/
def ImportedAt (hashers : Hashers) (codec : NarCodec) (env : Nat → DependencyEnv)
    (missing : List InputPathProto) (header : NarResponseHeader) (nar : Bytes) : Prop :=
  ∃ (i : Nat) (hi : i < missing.length),
    (∀ (j : Nat) (hj : j < i), ∃ header nar,
      Imported hashers codec (env j) (missing.get ⟨j, Nat.lt_trans hj hi⟩) header nar) ∧
    Imported hashers codec (env i) missing[i] header nar

theorem dependencies_decides (hashers : Hashers) (codec : NarCodec) (pathExists : String → Bool)
    (env : Nat → DependencyEnv) (inputPaths : List InputPathProto) :
    Decides hashers
      (fun nar => ∃ header,
        ImportedAt hashers codec env (missingPaths pathExists inputPaths) header nar)
      (∀ header nar, ImportedAt hashers codec env (missingPaths pathExists inputPaths) header nar →
        header.sha256 = hashers.sha256 nar)
      (RowsOneNar hashers (fetchDependencies hashers codec pathExists env inputPaths)) where
  enough := by
    intro honest entry he
    obtain ⟨i, hi, hbefore, header, nar, himported, rfl⟩ := fetchMissing_inserts.mp he
    have received := fetchNarWithConfig_ok himported.1
    refine ⟨nar, (header_row_describes received _ _ _).mpr ?_⟩
    exact honest header nar ⟨i, hi, hbefore, himported⟩
  needed := by
    intro unique rows header nar h
    obtain ⟨i, hi, hbefore, himported⟩ := h
    have row := rows _ (fetchMissing_inserts.mpr ⟨i, hi, hbefore, header, nar, himported, rfl⟩)
    exact header_row_honest (fetchNarWithConfig_ok himported.1)
      (unique nar ⟨header, i, hi, hbefore, himported⟩) row

/-- The NARs of a build's outputs, up to the first output that cannot be serialized. -/
def OutputNar (hashers : Hashers) (env : Nat → OutputEnv) (outputPaths : List String)
    (nar : Bytes) : Prop :=
  ∃ (i : Nat) (hi : i < outputPaths.length),
    (∀ (j : Nat) (hj : j < i), ∃ nar, IsNarOf hashers (env j).files outputPaths[j] nar) ∧
    IsNarOf hashers (env i).files outputPaths[i] nar

theorem indexOutput_ok {hashers : Hashers} {env : OutputEnv} {outputPath : String} :
    (∃ output, (indexOutput hashers env outputPath).result = .ok output) ↔
      ∃ nar, IsNarOf hashers env.files outputPath nar := by
  simp [indexOutput, insertEntry, serializeToSink_iff]

theorem outputs_decides (hashers : Hashers) (env : Nat → OutputEnv) (outputPaths : List String) :
    Decides hashers (OutputNar hashers env outputPaths)
      (∀ nar, OutputNar hashers env outputPaths nar → nar.length < 2 ^ 64)
      (RowsOneNar hashers (indexOutputs hashers env outputPaths)) where
  enough := by
    intro small entry he
    obtain ⟨i, hi, hbefore, he⟩ := Logged.mem_mapEach_zipIdx.mp he
    obtain ⟨info, hinfo, rfl⟩ := indexOutput_inserts.mp he
    obtain ⟨nar, hnar, rfl⟩ := serializeToSink_iff.mp hinfo
    refine ⟨nar, rfl, rfl, toNat_length.mpr (small nar ⟨i, hi, ?_, hnar⟩)⟩
    exact fun j hj => indexOutput_ok.mp (hbefore j hj)
  needed := by
    intro unique rows nar h
    obtain ⟨i, hi, hbefore, hnar⟩ := h
    have hinfo := serializeToSink_iff.mpr ⟨nar, hnar, rfl⟩
    have he := indexOutput_inserts.mpr ⟨_, hinfo, rfl⟩
    have row := rows _ (Logged.mem_mapEach_zipIdx.mpr
      ⟨i, hi, fun j hj => indexOutput_ok.mpr (hbefore j hj), he⟩)
    have d := row.describes rfl (unique nar ⟨i, hi, hbefore, hnar⟩)
    exact toNat_length.mp d.narSize

theorem cache_rows_one_nar (hashers : Hashers) (env : ServeEnv) (index : HashIndex)
    (request : NarRequest) : RowsOneNar hashers (handleNarRequest hashers env index request) := by
  intro entry he
  cases handleNarRequest_does hashers env index request _ he with
  | insert path cache result asked configured fetched =>
    have genuine := fetchByStorePath_ok fetched
    exact ⟨result.narData.val, genuine.blake3, genuine.sha256, genuine.narSize⟩

/-- Rows from caches are always about one byte string; rows from the disk when Nix's
database speaks of the same bytes; rows from other nodes when these told the SHA-256. -/
theorem rows_one_nar (hashers : Hashers) (codec : NarCodec) :
    (∀ files nix gossip storePath fsPath,
      Decides hashers (IsNarOf hashers files fsPath)
        (∀ nar, IsNarOf hashers files fsPath nar → AsNixSays hashers nix storePath nar)
        (RowsOneNar hashers (indexStorePath hashers files nix gossip storePath fsPath))) ∧
    (∀ nix config peer blake3,
      Decides hashers
        (fun nar => ∃ header,
          fetchNarWithConfig hashers codec config peer blake3 = .ok (header, nar))
        (∀ header nar, fetchNarWithConfig hashers codec config peer blake3 = .ok (header, nar) →
          header.sha256 = hashers.sha256 nar)
        (RowsOneNar hashers (fetchFromWithConfig hashers codec nix config peer blake3))) ∧
    (∀ pathExists env inputPaths,
      Decides hashers
        (fun nar => ∃ header,
          ImportedAt hashers codec env (missingPaths pathExists inputPaths) header nar)
        (∀ header nar,
          ImportedAt hashers codec env (missingPaths pathExists inputPaths) header nar →
          header.sha256 = hashers.sha256 nar)
        (RowsOneNar hashers (fetchDependencies hashers codec pathExists env inputPaths))) ∧
    (∀ env outputPaths,
      Decides hashers (OutputNar hashers env outputPaths)
        (∀ nar, OutputNar hashers env outputPaths nar → nar.length < 2 ^ 64)
        (RowsOneNar hashers (indexOutputs hashers env outputPaths))) ∧
    ∀ env index request, RowsOneNar hashers (handleNarRequest hashers env index request) :=
  ⟨index_decides hashers, fetch_decides hashers codec, dependencies_decides hashers codec,
    outputs_decides hashers, cache_rows_one_nar hashers⟩

section Mixed

/-- BLAKE3 tells apart the lengths up to 255, SHA-256 nothing. -/
def lengthHashers : Hashers where
  blake3 := fun nar => Vector.replicate 32 (.ofNat (min nar.length 255))
  sha256 := fun _ => zeroBytes32

/-- The empty NAR, with a SHA-256 that is not its own. -/
def forgedResponse : Bytes := 1 :: leBytes 4 34 ++ (0 :: List.replicate 32 1 ++ [0])

theorem forged_fetch (config : RetryConfig) :
    fetchNarWithConfig lengthHashers shortCodec config (fun _ => .answering forgedResponse)
      ⟨zeroBytes32⟩ = .ok (⟨0, Vector.replicate 32 1, ""⟩, []) :=
  withRetry_first config rfl

theorem forged_sha256 : (Vector.replicate 32 1 : Bytes32) ≠ zeroBytes32 := by decide

theorem empty_unique : NoSecondPreimage lengthHashers [] := by
  intro other h
  have hfirst := congrArg (fun v : Bytes32 => v[0]) h
  have hlen : other.length = 0 := by
    simp only [lengthHashers, Vector.getElem_replicate] at hfirst
    have := congrArg UInt8.toNat hfirst
    simp only [UInt8.toNat_ofNat', List.length_nil] at this
    omega
  exact List.eq_nil_of_length_eq_zero hlen

/-- A header with the NAR's SHA-256 is indexed as one NAR, and one with another is not. -/
theorem rows_one_nar_fetched :
    RowsOneNar lengthHashers (fetchFromWithConfig lengthHashers shortCodec emptyDatabase .default
      (fun _ => .answering (emptyNarResponse "")) ⟨zeroBytes32⟩) ∧
    ¬ RowsOneNar lengthHashers (fetchFromWithConfig lengthHashers shortCodec emptyDatabase .default
      (fun _ => .answering forgedResponse) ⟨zeroBytes32⟩) := by
  have site := (rows_one_nar lengthHashers shortCodec).2.1 emptyDatabase .default
  have honest : fetchNarWithConfig lengthHashers shortCodec .default
      (fun _ => .answering (emptyNarResponse "")) ⟨zeroBytes32⟩ = .ok (⟨0, zeroBytes32, ""⟩, []) :=
    withRetry_first .default rfl
  constructor
  · refine (site (fun _ => .answering (emptyNarResponse "")) ⟨zeroBytes32⟩).enough ?_
    intro header nar hf
    cases honest.symm.trans hf
    rfl
  · intro rows
    refine forged_sha256 ((site (fun _ => .answering forgedResponse) ⟨zeroBytes32⟩).needed ?_ rows
      _ _ (forged_fetch .default))
    intro nar h
    obtain ⟨header, hf⟩ := h
    cases (forged_fetch .default).symm.trans hf
    exact empty_unique

/-- A store path that holds a file of one byte; any other path holds an empty one. -/
def sampleFiles : FileSystem where
  pathExists := fun _ => true
  node := fun path => .ok (.regular false (if path = "/nix/store/a" then [7] else []))

def sampleInfo : NixPathInfo where
  path := "/nix/store/a"
  narHash := "sha256:0000000000000000000000000000000000000000000000000000"
  narSize := 120
  references := []
  deriver := none
  signatures := []

def sampleDatabase : NixDatabase := ⟨fun _ => .ok sampleInfo, fun _ => .ok []⟩

theorem sampleInfo_sha256 : sampleInfo.sha256Bytes sampleDatabase = .ok zeroBytes32 := by
  decide +kernel

theorem sampleFiles_nar (path : String) : ∃ nar, IsNarOf lengthHashers sampleFiles path nar ∧
    nar.length = if path = "/nix/store/a" then 120 else 112 := by
  by_cases hp : path = "/nix/store/a"
  · subst hp
    exact ⟨_, ⟨_, rfl⟩, rfl⟩
  · refine ⟨_, ⟨_, by simp only [sampleFiles, hp, if_false]; rfl⟩, by simp only [hp, if_false]; rfl⟩

/-- A header with a wrong SHA-256 is indexed as it is, by either fetch, and so is what
Nix reports of a store path, next to the BLAKE3 hash of other contents. -/
theorem rows_mixed :
    (¬ RowsOneNar lengthHashers (fetchFromWithConfig lengthHashers shortCodec emptyDatabase .default
      (fun _ => .answering forgedResponse) ⟨zeroBytes32⟩)) ∧
    (¬ RowsOneNar lengthHashers (fetchDependencies lengthHashers shortCodec (fun _ => false)
      (fun _ => ⟨fun _ => .answering forgedResponse, .willing, emptyDatabase⟩)
      [⟨"/nix/store/a", zeroBytes32⟩])) ∧
    (∃ nar, IsNarOf lengthHashers sampleFiles "/nix/store/a" nar ∧
      sampleInfo.sha256Bytes sampleDatabase = .ok (lengthHashers.sha256 nar) ∧
      sampleInfo.narSize.toNat = nar.length) ∧
    ¬ RowsOneNar lengthHashers (indexStorePath lengthHashers sampleFiles sampleDatabase false
      "/nix/store/a" "/tmp/a") := by
  refine ⟨fun rows => ?_, fun rows => ?_, ?_, fun rows => ?_⟩
  · obtain ⟨nar, d⟩ := rows _ (fetchFrom_inserts.mpr ⟨_, _, forged_fetch .default, rfl⟩)
    exact forged_sha256 (Sha256Hash.mk.inj d.sha256)
  · obtain ⟨nar, d⟩ := rows _ (fetchMissing_inserts.mpr ⟨0, by decide, fun j hj => by omega, _, _,
      ⟨forged_fetch .aggressive, rfl⟩, rfl⟩)
    exact forged_sha256 (Sha256Hash.mk.inj d.sha256)
  · obtain ⟨nar, hnar, hlen⟩ := sampleFiles_nar "/nix/store/a"
    exact ⟨nar, hnar, sampleInfo_sha256, hlen.symm⟩
  · obtain ⟨nar, hnar, hlen⟩ := sampleFiles_nar "/tmp/a"
    obtain ⟨other, d⟩ := rows _ (indexStorePath_inserts.mpr ⟨⟨zeroBytes32⟩, _, _, _, _,
      narMetadata_ok.mpr ⟨nar, hnar, rfl, sampleInfo_sha256, rfl, rfl, rfl⟩, rfl⟩)
    have hblake := congrArg (fun v : Bytes32 => v[0]) (Blake3Hash.mk.inj d.blake3)
    have hsize := d.narSize
    simp [lengthHashers, sampleInfo, hlen] at hblake hsize
    rw [← hsize] at hblake
    exact absurd hblake (by decide)

end Mixed

end IrohNix.Node
