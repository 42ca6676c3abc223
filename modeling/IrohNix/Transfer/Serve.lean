import IrohNix.Nix.PathInfo
import IrohNix.Node.Effect
import IrohNix.Transfer.Fetch
import IrohNix.Transfer.HttpCache

namespace IrohNix.Transfer
open IrohNix.Lib IrohNix.Index IrohNix.Nix IrohNix.Node

/-- What a NAR request is served with. The writes of a reply are numbered: each
may fail, with the text of its error. -/
structure ServeEnv where
  files : FileSystem
  nix : NixDatabase
  httpCache : Option HttpCacheClient
  codec : NarCodec
  writeFails : Nat → Option String

def writeAll (env : ServeEnv) (i : Nat) (what : String) (data : Bytes) : Action Unit :=
  match env.writeFails i with
  | some e => .fail (.protocol (what ++ e))
  | none => .perform (.send data)

/-- The success marker, and the header behind its length. -/
def sendHeader (env : ServeEnv) (header : NarResponseHeader) : Action Unit := do
  let headerBytes ← .lift (protocolError "failed to serialize header: "
    (env.codec.header.toAllocvec header))
  writeAll env 0 "failed to write success marker: " [1]
  writeAll env 1 "failed to write header length: " (leBytes 4 headerBytes.length)
  writeAll env 2 "failed to write header: " headerBytes

def sendNarData (env : ServeEnv) (narData : Bytes) : Action Unit :=
  .forEach (fun chunk => writeAll env (3 + chunk.2) "failed to write NAR data: " chunk.1)
    (narData.toChunks transferBufferSize).zipIdx

/-- Stream NAR directly from a store path to the network. -/
def streamNarFromPath (hashers : Hashers) (env : ServeEnv) (storePath : String) (narSize : UInt64)
    (sha256 : Sha256Hash) : Action Unit := do
  sendHeader env ⟨narSize, sha256.bytes, storePath⟩
  let (narData, _) ← serialize hashers env.files storePath
  sendNarData env narData

def FetchResult.entry (result : FetchResult) : HashEntry :=
  ⟨result.blake3, result.sha256, result.storePath, result.narSize, result.references,
    result.deriver⟩

/-- Fetch NAR from HTTP cache and stream to peer. -/
def fetchAndStreamFromHttp (hashers : Hashers) (env : ServeEnv) (cache : HttpCacheClient)
    (storePath : String) (expectedBlake3 : Option Blake3Hash) : Action Unit := do
  let result ← .lift (cache.fetchByStorePath hashers storePath)
  match expectedBlake3.filter (· ≠ result.blake3) with
  | some expected =>
    .fail (.protocol ("BLAKE3 mismatch from HTTP cache: expected " ++
      hexLower expected.bytes.toList ++ ", got " ++ hexLower result.blake3.bytes.toList))
  | none => do
    insertEntry result.entry
    sendHeader env ⟨result.narSize, result.sha256.bytes, result.storePath⟩
    sendNarData env result.narData.val

def sendErrorResponse (env : ServeEnv) (message : String) : Action Unit := do
  writeAll env 0 "failed to write error marker: " [0]
  writeAll env 1 "failed to write error length: " (leBytes 4 (utf8 message).length)
  writeAll env 2 "failed to write error message: " (utf8 message)

/-- Handle NAR request by BLAKE3 hash: the path is the one indexed. -/
def handleNarByBlake3 (hashers : Hashers) (env : ServeEnv) (index : HashIndex)
    (blake3 : Blake3Hash) : Action Unit :=
  match index.getByBlake3 blake3 with
  | some entry =>
    if env.files.pathExists entry.storePath then
      streamNarFromPath hashers env entry.storePath entry.narSize entry.sha256
    else match env.httpCache with
      | some cache => fetchAndStreamFromHttp hashers env cache entry.storePath (some blake3)
      | none => sendErrorResponse env "store path not found on disk"
  | none => sendErrorResponse env "hash not found in index"

/-- Handle NAR request by store path: the path is the one asked for. -/
def handleNarByStorePath (hashers : Hashers) (env : ServeEnv) (index : HashIndex)
    (storePath : String) : Action Unit :=
  if !isValidStorePath storePath then sendErrorResponse env "invalid store path format"
  else if env.files.pathExists storePath then
    match index.getByStorePath storePath with
    | some entry => streamNarFromPath hashers env storePath entry.narSize entry.sha256
    | none => do
      let nixInfo ← .lift (env.nix.query storePath)
      let sha256 ← .lift (nixInfo.sha256Bytes env.nix)
      streamNarFromPath hashers env storePath nixInfo.narSize ⟨sha256⟩
  else match env.httpCache with
    | some cache => fetchAndStreamFromHttp hashers env cache storePath none
    | none => sendErrorResponse env "store path not found"

/-- The answer to a decoded request. -/
def handleNarRequest (hashers : Hashers) (env : ServeEnv) (index : HashIndex) :
    NarRequest → Action Unit
  | .byBlake3 hash => handleNarByBlake3 hashers env index ⟨hash⟩
  | .byStorePath storePath => handleNarByStorePath hashers env index storePath

/-- Sending hands nothing to the serializer and writes no row. -/
def IsSend (e : Effect) : Prop := ∃ data, e = .send data

theorem writeAll_sends (env : ServeEnv) (i : Nat) (what : String) (data : Bytes) :
    (writeAll env i what data).Only IsSend := by
  unfold writeAll
  split
  · simp [Logged.Only]
  · simp [Logged.Only, IsSend]

theorem sendHeader_sends (env : ServeEnv) (header : NarResponseHeader) :
    (sendHeader env header).Only IsSend := by
  unfold sendHeader
  refine .bind (by simp [Logged.Only]) fun _ _ => ?_
  refine .bind (writeAll_sends env _ _ _) fun _ _ => ?_
  refine .bind (writeAll_sends env _ _ _) fun _ _ => ?_
  exact writeAll_sends env _ _ _

theorem sendNarData_sends (env : ServeEnv) (narData : Bytes) :
    (sendNarData env narData).Only IsSend := by
  intro e he
  obtain ⟨_, _, _, he⟩ := Logged.mem_forEach_zipIdx.mp he
  exact writeAll_sends env _ _ _ e he

theorem sendErrorResponse_sends (env : ServeEnv) (message : String) :
    (sendErrorResponse env message).Only IsSend := by
  unfold sendErrorResponse
  refine .bind (writeAll_sends env _ _ _) fun _ _ => ?_
  refine .bind (writeAll_sends env _ _ _) fun _ _ => ?_
  exact writeAll_sends env _ _ _

theorem streamNarFromPath_does (hashers : Hashers) (env : ServeEnv) (storePath : String)
    (narSize : UInt64) (sha256 : Sha256Hash) :
    (streamNarFromPath hashers env storePath narSize sha256).Only
      fun e => IsSend e ∨ e = .serialize storePath := by
  unfold streamNarFromPath
  refine .bind (fun e he => .inl (sendHeader_sends env _ e he)) fun _ _ => ?_
  refine .bind (fun e he => .inr (serialize_effects.mp he)) fun nar _ => ?_
  exact fun e he => .inl (sendNarData_sends env _ e he)

/-- The header can be encoded, and the three writes that carry it succeed. -/
def HeaderSent (env : ServeEnv) (header : NarResponseHeader) : Prop :=
  (∃ headerBytes, env.codec.header.toAllocvec header = .ok headerBytes) ∧
    ∀ i < 3, env.writeFails i = none

theorem writeAll_ok {env : ServeEnv} {i : Nat} {what : String} {data : Bytes} :
    (writeAll env i what data).result = .ok () ↔ env.writeFails i = none := by
  unfold writeAll
  cases env.writeFails i <;> simp

theorem sendHeader_ok {env : ServeEnv} {header : NarResponseHeader} :
    (sendHeader env header).result = .ok () ↔ HeaderSent env header := by
  have three : (∀ i < 3, env.writeFails i = none) ↔
      env.writeFails 0 = none ∧ env.writeFails 1 = none ∧ env.writeFails 2 = none := by
    constructor
    · intro h
      exact ⟨h 0 (by omega), h 1 (by omega), h 2 (by omega)⟩
    · intro h i hi
      obtain ⟨h0, h1, h2⟩ := h
      match i with
      | 0 => exact h0
      | 1 => exact h1
      | 2 => exact h2
  unfold sendHeader HeaderSent
  rw [three]
  cases env.codec.header.toAllocvec header with
  | error e => simp [protocolError, Except.mapError]
  | ok headerBytes =>
    simp only [protocolError, Except.mapError, Logged.lift_ok_bind, Logged.bind_ok,
      Unique.exists_iff, Except.ok.injEq, exists_eq', true_and]
    exact and_congr writeAll_ok (and_congr writeAll_ok writeAll_ok)

/-- The serializer is given the path once the header is out. -/
theorem streamNarFromPath_serializes {hashers : Hashers} {env : ServeEnv} {storePath : String}
    {narSize : UInt64} {sha256 : Sha256Hash} :
    .serialize storePath ∈ (streamNarFromPath hashers env storePath narSize sha256).effects ↔
      HeaderSent env ⟨narSize, sha256.bytes, storePath⟩ := by
  rw [← sendHeader_ok, streamNarFromPath, Logged.mem_bind]
  constructor
  · intro h
    rcases h with h | ⟨_, ok, _⟩
    · obtain ⟨_, he⟩ := sendHeader_sends env _ _ h
      contradiction
    · exact ok
  · intro ok
    exact .inr ⟨(), ok, by simp⟩

/-- Only a NAR fetched for the path asked for is indexed. -/
theorem fetchAndStreamFromHttp_does (hashers : Hashers) (env : ServeEnv) (cache : HttpCacheClient)
    (storePath : String) (expectedBlake3 : Option Blake3Hash) :
    (fetchAndStreamFromHttp hashers env cache storePath expectedBlake3).Only fun e =>
      IsSend e ∨ ∃ result, cache.fetchByStorePath hashers storePath = .ok result ∧
        e = .insert result.entry := by
  unfold fetchAndStreamFromHttp
  refine .bind (by simp [Logged.Only]) fun result hr => ?_
  split
  · simp [Logged.Only]
  · refine .bind (fun e he => .inr ⟨result, hr, by simpa [insertEntry] using he⟩) fun _ _ => ?_
    refine .bind (fun e he => .inl (sendHeader_sends env _ e he)) fun _ _ => ?_
    exact fun e he => .inl (sendNarData_sends env _ e he)

/-- The store path a request is answered from. -/
def requestedPath (index : HashIndex) : NarRequest → Option String
  | .byBlake3 hash => (index.getByBlake3 ⟨hash⟩).map HashEntry.storePath
  | .byStorePath storePath => if isValidStorePath storePath then some storePath else none

/-- A path that a row is of, or that Nix knows. -/
def Known (env : ServeEnv) (index : HashIndex) (path : String) : Prop :=
  (∃ row ∈ index.rows, row.storePath = path) ∨ ∃ nixInfo, env.nix.query path = .ok nixInfo

theorem getByBlake3_row {index : HashIndex} {blake3 : Blake3Hash} {entry : HashEntry}
    (h : index.getByBlake3 blake3 = some entry) :
    ∃ row ∈ index.rows, row.storePath = entry.storePath := by
  obtain ⟨row, hf, rfl⟩ := Option.map_eq_some_iff.mp h
  exact ⟨row, (Table.find_mem hf).1, rfl⟩

theorem getByStorePath_row {index : HashIndex} {storePath : String} {entry : HashEntry}
    (h : index.getByStorePath storePath = some entry) :
    ∃ row ∈ index.rows, row.storePath = storePath := by
  obtain ⟨row, hf, rfl⟩ := Option.map_eq_some_iff.mp h
  obtain ⟨hr, hp⟩ := Table.find_mem hf
  exact ⟨row, hr, of_decide_eq_true hp⟩

/-- All that answering a request does: it sends, it serializes the path the request
is answered from if that exists and is known, and it indexes a NAR a cache has for it. -/
inductive NarRequestDoes (hashers : Hashers) (env : ServeEnv) (index : HashIndex)
    (request : NarRequest) : Effect → Prop where
  | send (data : Bytes) : NarRequestDoes hashers env index request (.send data)
  | serialize (path : String) (asked : requestedPath index request = some path)
      (onDisk : env.files.pathExists path = true) (known : Known env index path) :
      NarRequestDoes hashers env index request (.serialize path)
  | insert (path : String) (cache : HttpCacheClient) (result : FetchResult)
      (asked : requestedPath index request = some path) (configured : env.httpCache = some cache)
      (fetched : cache.fetchByStorePath hashers path = .ok result) :
      NarRequestDoes hashers env index request (.insert result.entry)

section
variable {hashers : Hashers} {env : ServeEnv} {index : HashIndex} {request : NarRequest}

theorem NarRequestDoes.ofSends {m : Action Unit} (h : m.Only IsSend) :
    m.Only (NarRequestDoes hashers env index request) := by
  intro e he
  obtain ⟨data, rfl⟩ := h e he
  exact .send data

theorem NarRequestDoes.ofStream {path : String} {narSize : UInt64} {sha256 : Sha256Hash}
    (asked : requestedPath index request = some path) (onDisk : env.files.pathExists path = true)
    (known : Known env index path) :
    (streamNarFromPath hashers env path narSize sha256).Only
      (NarRequestDoes hashers env index request) := by
  intro e he
  rcases streamNarFromPath_does hashers env path narSize sha256 e he with ⟨data, rfl⟩ | rfl
  · exact .send data
  · exact .serialize path asked onDisk known

theorem NarRequestDoes.ofHttp {path : String} {cache : HttpCacheClient}
    {expected : Option Blake3Hash} (asked : requestedPath index request = some path)
    (configured : env.httpCache = some cache) :
    (fetchAndStreamFromHttp hashers env cache path expected).Only
      (NarRequestDoes hashers env index request) := by
  intro e he
  rcases fetchAndStreamFromHttp_does hashers env cache path expected e he with
    ⟨data, rfl⟩ | ⟨result, fetched, rfl⟩
  · exact .send data
  · exact .insert path cache result asked configured fetched

end

theorem handleNarRequest_does (hashers : Hashers) (env : ServeEnv) (index : HashIndex)
    (request : NarRequest) :
    (handleNarRequest hashers env index request).Only
      (NarRequestDoes hashers env index request) := by
  cases request with
  | byBlake3 hash =>
    simp only [handleNarRequest, handleNarByBlake3]
    cases hget : index.getByBlake3 ⟨hash⟩ with
    | none => exact .ofSends (sendErrorResponse_sends env _)
    | some entry =>
      have asked : requestedPath index (.byBlake3 hash) = some entry.storePath := by
        simp [requestedPath, hget]
      simp only
      split
      · rename_i onDisk
        exact .ofStream asked onDisk (.inl (getByBlake3_row hget))
      · cases hcache : env.httpCache with
        | none => exact .ofSends (sendErrorResponse_sends env _)
        | some cache => exact .ofHttp asked hcache
  | byStorePath storePath =>
    simp only [handleNarRequest, handleNarByStorePath]
    cases hvalid : isValidStorePath storePath with
    | false => exact .ofSends (sendErrorResponse_sends env _)
    | true =>
      have asked : requestedPath index (.byStorePath storePath) = some storePath := by
        simp [requestedPath, hvalid]
      simp only [Bool.not_true, Bool.false_eq_true, if_false]
      split
      · rename_i onDisk
        cases hget : index.getByStorePath storePath with
        | some entry => exact .ofStream asked onDisk (.inl (getByStorePath_row hget))
        | none =>
          refine .bind (by simp [Logged.Only]) fun nixInfo hq => ?_
          refine .bind (by simp [Logged.Only]) fun sha256 _ => ?_
          exact .ofStream asked onDisk (.inr ⟨nixInfo, hq⟩)
      · cases hcache : env.httpCache with
        | none => exact .ofSends (sendErrorResponse_sends env _)
        | some cache => exact .ofHttp asked hcache

end IrohNix.Transfer
