import IrohNix.Index.Forgetting
import IrohNix.Node.OneNar
import IrohNix.Substituter.Server

namespace IrohNix.Substituter
open IrohNix.Lib IrohNix.Index IrohNix.Gossip IrohNix.Transfer IrohNix.Node IrohNix.Nar IrohNix.Nix

/-- Where a client asks for the NAR of a narinfo. -/
def narPath (entry : HashEntry) : String := "/" ++ narUrl entry

theorem hexDigit_plain : ∀ n < 16, hexDigit n ≠ '/' ∧ hexDigit n ≠ '.' := by
  decide +kernel

theorem hexLower_plain (bytes : Bytes) :
    '/' ∉ (hexLower bytes).toList ∧ '.' ∉ (hexLower bytes).toList := by
  constructor
  · intro h
    obtain ⟨n, hn, he⟩ := mem_hexLower h
    exact (hexDigit_plain n hn).1 he.symm
  · intro h
    obtain ⟨n, hn, he⟩ := mem_hexLower h
    exact (hexDigit_plain n hn).2 he.symm

/-- The hash asked for is the one advertised. -/
theorem narBlake3_narPath (entry : HashEntry) : narBlake3 (narPath entry) = some entry.blake3 := by
  obtain ⟨no_slash, no_dot⟩ := hexLower_plain entry.blake3.bytes.toList
  have path : narPath entry = "/nar/" ++ (hexLower entry.blake3.bytes.toList ++ ".nar") := by
    simp [narPath, narUrl, ← String.append_assoc]
  have no_slash' : '/' ∉ (hexLower entry.blake3.bytes.toList ++ ".nar").toList := by
    rw [String.toList_append, List.mem_append]
    simp [no_slash]
  rw [narBlake3, path, trimStartMatches_once (c := '/') (by simp) no_slash',
    trimEndMatches_once (c := '.') (by simp) no_dot, hexDecode_hexLower]
  simp [Except.toOption]

theorem narPath_word (entry : HashEntry) : IsWord (narPath entry) := by
  have slash : IsWord "/" := by decide +kernel
  exact slash.append (narUrl_word entry).2

/-- The URL of a narinfo is routed to the NAR handler. -/
theorem narPath_routed (hashers : Hashers) (env : SubstituterEnv) (index : HashIndex)
    (entry : HashEntry) (version : String) :
    handleConnection hashers env index ("GET" ++ (" " ++ (narPath entry ++ (" " ++ version)))) =
      handleNar hashers env index (narPath entry) false := by
  have not_info : narPath entry ≠ "/nix-cache-info" := by
    intro h
    have dotted : '.' ∈ (narPath entry).toList := by simp [narPath, narUrl]
    rw [h] at dotted
    exact absurd dotted (by decide)
  have not_narinfo : ¬ ".narinfo".toList.isSuffixOf (narPath entry).toList = true := by
    simp [narPath, narUrl, List.isSuffixOf, List.isPrefixOf]
  have nar : "/nar/".toList.isPrefixOf (narPath entry).toList = true ∧
      ".nar".toList.isSuffixOf (narPath entry).toList = true := by
    simp [narPath, narUrl, List.isSuffixOf]
  have get_word : IsWord "GET" := by decide +kernel
  rw [handleConnection, splitWhitespace_word_append get_word,
    splitWhitespace_word_append (narPath_word entry)]
  have known_method : ¬ ("GET" ≠ "GET" ∧ "GET" ≠ "HEAD") := fun h => h.1 rfl
  have not_head : decide ("GET" = "HEAD") = false := by decide
  simp only [if_neg known_method, if_neg not_info, if_neg not_narinfo, if_pos nar, not_head]

/-- What is streamed as a NAR: the head says that it is one, and it is all that follows. -/
def Streams (answer : Answer) (nar : Bytes) : Prop :=
  (∃ contentLength rest,
    answer.effects = .head 200 "OK" "application/x-nix-nar" contentLength :: rest) ∧
  answer.Yields Sent.payload nar

theorem sendChunks_streams (contentLength : Nat) (data nar : Bytes) :
    Streams (do sendNarHead contentLength; sendNarChunks data) nar ↔ nar = data := by
  have head : (sendNarHead contentLength).Yields Sent.payload [] := .perform _
  have chunks : (sendNarChunks data).Yields Sent.payload
      ((data.toChunks (64 * 1024)).flatMap fun chunk => chunk) :=
    .forEach fun chunk _ => .perform (Sent.body chunk)
  have yields : Logged.Yields Sent.payload
      (do sendNarHead contentLength; sendNarChunks data : Answer) data := by
    simpa [List.flatMap_def, flatten_toChunks] using head.bind chunks
  constructor
  · intro h
    exact h.2.2.symm.trans yields.2
  · intro h
    subst h
    exact ⟨⟨contentLength, _, rfl⟩, yields⟩

/-- A text is not sent as a NAR. -/
theorem sendText_streams (status : Nat) (statusText text : String) (nar : Bytes) :
    ¬ Streams (sendText status statusText text false) nar := by
  intro h
  obtain ⟨⟨contentLength, rest, heads⟩, _⟩ := h
  have first : (sendText status statusText text false).effects.head? =
      some (.head status statusText "text/plain" (utf8 text).length) := rfl
  rw [heads] at first
  simp at first

theorem sendNar_streams {hashers : Hashers} {env : SubstituterEnv} {blake3 : Blake3Hash}
    {entry : HashEntry} {nar : Bytes} :
    Streams (sendNar hashers env blake3 entry false) nar ↔
      if env.files.pathExists entry.storePath then IsNarOf hashers env.files entry.storePath nar
      else tryFetchNarFromPeer hashers env.codec env.p2p blake3 = some nar := by
  unfold sendNar
  split
  · cases hs : serializePath hashers entry.storePath (env.files.node entry.storePath) with
    | error e => simp [Streams, Logged.Yields, IsNarOf, hs]
    | ok data =>
      obtain ⟨data, info⟩ := data
      have streamed := sendChunks_streams entry.narSize.toNat data nar
      simpa [IsNarOf, hs, eq_comm] using streamed
  · cases hf : tryFetchNarFromPeer hashers env.codec env.p2p blake3 with
    | none =>
      simp only [reduceCtorEq, iff_false]
      exact sendText_streams _ _ _ _
    | some data =>
      have streamed := sendChunks_streams data.length data nar
      simpa [eq_comm] using streamed

theorem handleNar_unknown {hashers : Hashers} {env : SubstituterEnv} {index : HashIndex}
    {entry : HashEntry} (hget : index.getByBlake3 entry.blake3 = none) (isHead : Bool) :
    handleNar hashers env index (narPath entry) isHead =
      sendText 404 "Not Found" "Not Found" isHead := by
  unfold handleNar
  simp only [narBlake3_narPath, hget]

/-- The hash of an advertised entry is looked up in the index alone. -/
theorem handleNar_known {hashers : Hashers} {env : SubstituterEnv} {index : HashIndex}
    {entry found : HashEntry} (hget : index.getByBlake3 entry.blake3 = some found)
    (isHead : Bool) :
    handleNar hashers env index (narPath entry) isHead =
      sendNar hashers env entry.blake3 found isHead := by
  unfold handleNar
  simp only [narBlake3_narPath, hget]

/-- What is streamed is of the store path the hash resolves to: from the disk, where
that exists, and else from a peer. -/
theorem handleNar_streams {hashers : Hashers} {env : SubstituterEnv} {index : HashIndex}
    {entry : HashEntry} {nar : Bytes} :
    Streams (handleNar hashers env index (narPath entry) false) nar ↔
      ∃ found, index.getByBlake3 entry.blake3 = some found ∧
        if env.files.pathExists found.storePath then IsNarOf hashers env.files found.storePath nar
        else tryFetchNarFromPeer hashers env.codec env.p2p entry.blake3 = some nar := by
  cases hget : index.getByBlake3 entry.blake3 with
  | none =>
    simp only [handleNar_unknown hget, reduceCtorEq, false_and, exists_false, iff_false]
    exact sendText_streams _ _ _ _
  | some found =>
    simp only [handleNar_known hget, Option.some.injEq, exists_eq_left']
    exact sendNar_streams

/-- A NAR of a store path with this BLAKE3 hash is to be had: from the disk, where the
path exists, and else from a listed provider. -/
inductive Obtainable (hashers : Hashers) (env : SubstituterEnv) (blake3 : Blake3Hash)
    (storePath : String) (nar : Bytes) : Prop where
  | disk (onDisk : env.files.pathExists storePath = true)
      (isNar : IsNarOf hashers env.files storePath nar) (hash : hashers.blake3 nar = blake3.bytes)
  | peer (p2p : P2pContext) (provider : ProviderInfo) (header : NarResponseHeader)
      (missing : env.files.pathExists storePath = false) (configured : env.p2p = some p2p)
      (listed : p2p.providerCache.Lists blake3.bytes provider)
      (fetched : fetchNarWithConfig hashers env.codec .default (p2p.peer provider.endpointId)
        blake3 = .ok (header, nar))

theorem tryFetch_some {hashers : Hashers} {codec : NarCodec} {p2p : Option P2pContext}
    {blake3 : Blake3Hash} {nar : Bytes}
    (h : tryFetchNarFromPeer hashers codec p2p blake3 = some nar) :
    ∃ p2p' provider header, p2p = some p2p' ∧ p2p'.providerCache.Lists blake3.bytes provider ∧
      fetchNarWithConfig hashers codec .default (p2p'.peer provider.endpointId) blake3 =
        .ok (header, nar) := by
  unfold tryFetchNarFromPeer at h
  obtain ⟨p2p, rfl, h⟩ := Option.bind_eq_some_iff.mp h
  obtain ⟨provider, hmem, h⟩ := List.exists_of_findSome?_eq_some h
  cases hf : fetchNarWithConfig hashers codec .default (p2p.peer provider.endpointId) blake3 with
  | error e => simp [hf] at h
  | ok fetched =>
    obtain ⟨header, data⟩ := fetched
    simp only [hf, Option.some.injEq] at h
    subst h
    refine ⟨p2p, provider, header, rfl, ?_, hf⟩
    cases hl : p2p.providerCache.getProviders blake3.bytes with
    | none => simp [hl] at hmem
    | some providers => exact ⟨providers, hl, by simpa [hl] using hmem⟩

theorem tryFetch_listed {hashers : Hashers} {codec : NarCodec} {p2p : P2pContext}
    {blake3 : Blake3Hash} {provider : ProviderInfo} {header : NarResponseHeader} {nar : Bytes}
    (listed : p2p.providerCache.Lists blake3.bytes provider)
    (fetched : fetchNarWithConfig hashers codec .default (p2p.peer provider.endpointId) blake3 =
      .ok (header, nar)) :
    ∃ other, tryFetchNarFromPeer hashers codec (some p2p) blake3 = some other := by
  obtain ⟨providers, hl, hmem⟩ := listed
  cases hf : tryFetchNarFromPeer hashers codec (some p2p) blake3 with
  | some other => exact ⟨other, rfl⟩
  | none =>
    simp only [tryFetchNarFromPeer, hl, Option.bind_eq_bind, Option.bind_some, Option.getD_some,
      List.findSome?_eq_none_iff] at hf
    have := hf provider hmem
    simp [fetched] at this

/-- What is streamed under the BLAKE3 hash advertised is to be had, and if any NAR is, one
is streamed. -/
theorem streams_iff_obtainable {hashers : Hashers} {env : SubstituterEnv} {index : HashIndex}
    {entry found : HashEntry} (hget : index.getByBlake3 entry.blake3 = some found) :
    (∀ nar, Streams (handleNar hashers env index (narPath entry) false) nar →
      hashers.blake3 nar = entry.blake3.bytes →
      Obtainable hashers env entry.blake3 found.storePath nar) ∧
    ((∃ nar, Obtainable hashers env entry.blake3 found.storePath nar) →
      ∃ nar, Streams (handleNar hashers env index (narPath entry) false) nar ∧
        hashers.blake3 nar = entry.blake3.bytes) := by
  constructor
  · intro nar streamed hash
    obtain ⟨found', hget', source⟩ := handleNar_streams.mp streamed
    cases hget.symm.trans hget'
    split at source
    · rename_i onDisk
      exact .disk onDisk source hash
    · rename_i missing
      obtain ⟨p2p, provider, header, configured, listed, fetched⟩ := tryFetch_some source
      exact .peer p2p provider header (by simpa using missing) configured listed fetched
  · intro h
    obtain ⟨nar, obtainable⟩ := h
    cases obtainable with
    | disk onDisk isNar hash =>
      exact ⟨nar, handleNar_streams.mpr ⟨found, hget, by rwa [if_pos onDisk]⟩, hash⟩
    | peer p2p provider header missing configured listed fetched =>
      obtain ⟨other, hother⟩ := tryFetch_listed listed fetched
      obtain ⟨_, _, _, _, _, hfetch⟩ := tryFetch_some hother
      refine ⟨other, handleNar_streams.mpr ⟨found, hget, ?_⟩, (fetchNarWithConfig_ok hfetch).hash⟩
      rw [if_neg (by simp [missing]), configured]
      exact hother

/-- What a narinfo promises of the download: there is an entry or a provider for the hash
and the store path, the hash resolves to no other path and is not answered for want
of an entry, and a NAR that has it is the one advertised. -/
structure Delivers (hashers : Hashers) (env : SubstituterEnv) (index : HashIndex)
    (entry : HashEntry) : Prop where
  known : (∃ found, index.getByBlake3 entry.blake3 = some found ∧
      found.storePath = entry.storePath) ∨
    ∃ p2p provider, env.p2p = some p2p ∧ p2p.providerCache.Lists entry.blake3.bytes provider ∧
      provider.storePath = entry.storePath
  resolves : ∀ found, index.getByBlake3 entry.blake3 = some found →
    found.storePath = entry.storePath
  answered : ∀ isHead, handleNar hashers env index (narPath entry) isHead ≠
    sendText 404 "Not Found" "Not Found" isHead
  sha256 : ∀ nar, Streams (handleNar hashers env index (narPath entry) false) nar →
    hashers.blake3 nar = entry.blake3.bytes → hashers.sha256 nar = entry.sha256.bytes

theorem not_found_iff {hashers : Hashers} {env : SubstituterEnv} {index : HashIndex}
    {entry : HashEntry} (isHead : Bool) :
    handleNar hashers env index (narPath entry) isHead =
        sendText 404 "Not Found" "Not Found" isHead ↔
      index.getByBlake3 entry.blake3 = none := by
  constructor
  · intro h
    cases hget : index.getByBlake3 entry.blake3 with
    | none => rfl
    | some found =>
      rw [handleNar_known hget] at h
      have first : (sendNar hashers env entry.blake3 found isHead).effects.head? =
          some (.head 404 "Not Found" "text/plain" (utf8 "Not Found").length) := by rw [h]; rfl
      unfold sendNar at first
      split at first
      · cases first
      · split at first
        · cases first
        · have second : (sendText 404 "Not Found" "Store path not found" isHead).effects.head? =
              some (.head 404 "Not Found" "text/plain" (utf8 "Store path not found").length) := rfl
          simp only [second, Option.some.injEq, Sent.head.injEq, true_and] at first
          exact absurd first (by decide +kernel)
  · intro hget
    exact handleNar_unknown hget isHead

/-- The store hash a row is found by is that of its path. -/
theorem row_storeHash {ops : List IndexOp} {row : Row} (hr : row ∈ (HashIndex.run ops).rows) :
    row.storeHash = extractStoreHash row.storePath := by
  obtain ⟨entry, _, rfl⟩ := rows_inserted ops row hr
  rfl

theorem getByStoreHash_none {ops : List IndexOp} {storeHash : String} :
    (HashIndex.run ops).getByStoreHash storeHash = none ↔
      ¬ ∃ row ∈ (HashIndex.run ops).rows, extractStoreHash row.storePath = some storeHash := by
  rw [HashIndex.getByStoreHash, Option.map_eq_none_iff, Table.find?, List.find?_eq_none]
  constructor
  · intro h hrow
    obtain ⟨row, hr, hhash⟩ := hrow
    exact h row hr (by simpa [row_storeHash hr] using hhash)
  · intro h row hr hhash
    exact h ⟨row, hr, by simpa [row_storeHash hr] using hhash⟩

/-- The hash of an entry that a store hash finds leads back to that entry. -/
theorem getByBlake3_of_storeHash {index : HashIndex} {storeHash : String} {entry : HashEntry}
    (h : index.getByStoreHash storeHash = some entry) :
    index.getByBlake3 entry.blake3 = some entry := by
  obtain ⟨row, hf, rfl⟩ := Option.map_eq_some_iff.mp h
  obtain ⟨hr, _⟩ := Table.find_mem hf
  have only : ∀ other ∈ index.rows, decide (other.blake3 = row.blake3) = true → other = row := by
    intro other ho hb
    by_contra hne
    exact (schema_clash_false.mp (index.apart ho hr hne)).1 (of_decide_eq_true hb)
  have hfound : index.find? (fun other => other.blake3 = row.blake3) = some row :=
    Table.find_of_only hr (by simp) only
  exact congrArg (Option.map Row.toEntry) hfound

/-- An entry made up from gossip is for a provider's path of that store hash. -/
theorem tryFindViaGossip_some {storeHash : String} {p2p : Option P2pContext} {entry : HashEntry}
    (h : tryFindViaGossip storeHash p2p = some entry) :
    ∃ provider, entry = syntheticEntry provider ∧
      extractStoreHash provider.storePath = some storeHash := by
  unfold tryFindViaGossip at h
  obtain ⟨p2p, rfl, h⟩ := Option.bind_eq_some_iff.mp h
  obtain ⟨provider, _, h⟩ := List.exists_of_findSome?_eq_some h
  refine ⟨provider, ?_⟩
  cases hb : storePathBasename provider.storePath with
  | none => simp [hb] at h
  | some basename =>
    simp only [hb] at h
    split at h
    · rename_i hhash
      cases h
      refine ⟨rfl, ?_⟩
      rw [storePathBasename] at hb
      rw [extractStoreHash, hb, Option.map_some, hhash]
    · contradiction

/-- There is a byte string that both hashes of an entry are of. -/
def OneContent (hashers : Hashers) (entry : HashEntry) : Prop :=
  ∃ nar, hashers.blake3 nar = entry.blake3.bytes ∧ hashers.sha256 nar = entry.sha256.bytes

/-- What a narinfo advertises can be delivered exactly when a path of the store hash is
indexed, and the row has both hashes of one NAR if a NAR is to be had. -/
theorem delivers_iff {hashers : Hashers} {env : SubstituterEnv} {ops : List IndexOp} {path : String}
    {entry : HashEntry}
    (advertised : narinfoEntry env.p2p (HashIndex.run ops) (narinfoHashPart path) = some entry)
    (unique : ∀ nar, hashers.blake3 nar = entry.blake3.bytes → NoSecondPreimage hashers nar) :
    (∀ isHead, handleNarinfo env (HashIndex.run ops) path isHead =
      sendResponse 200 "OK" "text/x-nix-narinfo" (utf8 (narinfoBody entry)) isHead) ∧
    (Delivers hashers env (HashIndex.run ops) entry ↔
      (∃ row ∈ (HashIndex.run ops).rows,
        extractStoreHash row.storePath = some (narinfoHashPart path)) ∧
      ((∃ nar, Obtainable hashers env entry.blake3 entry.storePath nar) →
        OneContent hashers entry)) := by
  refine ⟨fun isHead => by simp only [handleNarinfo, advertised], ?_, ?_⟩
  · intro delivers
    obtain ⟨found, hget⟩ : ∃ found, (HashIndex.run ops).getByBlake3 entry.blake3 = some found := by
      rw [← Option.isSome_iff_exists, Option.isSome_iff_ne_none]
      intro hnone
      exact delivers.answered false ((not_found_iff false).mpr hnone)
    have hpath := delivers.resolves found hget
    constructor
    · by_contra hnone
      have hmiss := getByStoreHash_none.mpr hnone
      simp only [narinfoEntry, hmiss] at advertised
      obtain ⟨provider, rfl, hhash⟩ := tryFindViaGossip_some advertised
      -- the zero hash resolves to the provider's path, so that is indexed after all
      obtain ⟨row, hr, hrow⟩ := getByBlake3_row hget
      exact hnone ⟨row, hr, by rw [hrow, hpath]; exact hhash⟩
    · intro h
      rw [← hpath] at h
      obtain ⟨nar, streamed, hash⟩ := (streams_iff_obtainable hget).2 h
      exact ⟨nar, hash, delivers.sha256 nar streamed hash⟩
  · intro h
    obtain ⟨indexed, contents⟩ := h
    have hget : (HashIndex.run ops).getByBlake3 entry.blake3 = some entry := by
      cases hs : (HashIndex.run ops).getByStoreHash (narinfoHashPart path) with
      | none => exact absurd indexed (getByStoreHash_none.mp hs)
      | some found =>
        simp only [narinfoEntry, hs, Option.some.injEq] at advertised
        subst advertised
        exact getByBlake3_of_storeHash hs
    refine ⟨.inl ⟨entry, hget, rfl⟩, fun found hf => ?_, fun isHead h => ?_, fun nar hs hash => ?_⟩
    · cases hget.symm.trans hf
      rfl
    · rw [not_found_iff, hget] at h
      contradiction
    · obtain ⟨other, hother, hsha⟩ := contents ⟨nar, (streams_iff_obtainable hget).1 nar hs hash⟩
      have : nar = other := unique other hother nar (hash.trans hother.symm)
      rw [this, hsha]

/-- One provider of one hash, which answers whatever it is asked the same, and no file. -/
def oneProvider (blake3 : Bytes32) (provider : ProviderInfo) (response : Bytes) :
    SubstituterEnv where
  priority := 40
  codec := shortCodec
  files := ⟨fun _ => false, fun _ => .error "No such file or directory"⟩
  p2p := some {
    providerCache := ⟨Finmap.insert blake3 [provider] ∅⟩
    order := .single blake3 [provider]
    peer := fun _ _ => .answering response }

def sampleProvider : ProviderInfo := ⟨⟨zeroBytes32⟩, "/nix/store/a-x", 0⟩

/-- Where the path is indexed, its NAR is streamed as advertised. -/
theorem delivers_indexed :
    ∃ env, narinfoEntry env.p2p (HashIndex.run [.insert (twinEntry "a-x")])
        (narinfoHashPart "/a.narinfo") = some (twinEntry "a-x") ∧
      Streams (handleNar lengthHashers env (HashIndex.run [.insert (twinEntry "a-x")])
        (narPath (twinEntry "a-x")) false) [] ∧
      Delivers lengthHashers env (HashIndex.run [.insert (twinEntry "a-x")]) (twinEntry "a-x") := by
  let env := oneProvider zeroBytes32 sampleProvider (emptyNarResponse "/nix/store/a-x")
  have advertised : narinfoEntry env.p2p (HashIndex.run [.insert (twinEntry "a-x")])
      (narinfoHashPart "/a.narinfo") = some (twinEntry "a-x") := by decide +kernel
  have unique : ∀ nar, lengthHashers.blake3 nar = (twinEntry "a-x").blake3.bytes →
      NoSecondPreimage lengthHashers nar := by
    intro nar h
    obtain rfl := empty_unique nar h
    exact empty_unique
  refine ⟨env, advertised, handleNar_streams.mpr ⟨twinEntry "a-x", rfl, rfl⟩,
    (delivers_iff advertised unique).2.mpr ⟨⟨_, List.mem_singleton_self _, ?_⟩, ?_⟩⟩
  · decide +kernel
  · intro _
    exact ⟨[], rfl, rfl⟩

/-- Where only a provider has the path, the NAR advertised is not found. -/
theorem gossip_not_delivered :
    ¬ ∀ (hashers : Hashers) (env : SubstituterEnv) (ops : List IndexOp) (path : String)
      (entry : HashEntry),
      narinfoEntry env.p2p (HashIndex.run ops) (narinfoHashPart path) = some entry →
      Delivers hashers env (HashIndex.run ops) entry := by
  intro claim
  have delivers := claim zeroHashers
    (oneProvider (Vector.replicate 32 7) sampleProvider (emptyNarResponse "/nix/store/a-x")) []
    "/a.narinfo" (syntheticEntry sampleProvider) (by decide +kernel)
  exact delivers.answered false ((not_found_iff false).mpr rfl)

end IrohNix.Substituter
