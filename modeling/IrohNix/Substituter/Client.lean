import IrohNix.Lib.Utf8
import IrohNix.Substituter.Delivery
import IrohNix.Substituter.Framing
import IrohNix.Substituter.Narinfo
import IrohNix.Transfer.CacheUrls

namespace IrohNix.Transfer.Lookup
open IrohNix.Lib

/-- Fetch NAR by store path (combines narinfo lookup and NAR fetch). -/
def HttpCacheClient.fetchByStorePath {U : Type} (urls : Urls U) (network : Network U)
    (hashers : Hashers) (client : HttpCacheClient U) (storePath : String) :
    Logged (Asked U) Error FetchResult := do
  let storeHash ← .lift (extractHttpStoreHash storePath)
  let (narinfo, baseUrl) ← client.fetchNarinfo urls network storeHash
  if narinfo.storePath ≠ storePath then
    .fail (.httpCache ("store path mismatch: expected " ++ storePath ++ ", got " ++
      narinfo.storePath))
  else fetchNar urls network hashers narinfo baseUrl

/-- What is served to the peers is what this fetches. -/
theorem fetchByStorePath_result (urls : Urls String) (network : Network String) (hashers : Hashers)
    (client : HttpCacheClient String) (storePath : String) :
    (client.fetchByStorePath urls network hashers storePath).result =
      (client.served urls network).fetchByStorePath hashers storePath := by
  simp only [HttpCacheClient.fetchByStorePath, Transfer.HttpCacheClient.fetchByStorePath]
  cases extractHttpStoreHash storePath with
  | error e => rfl
  | ok storeHash =>
    simp only [Logged.lift_ok_bind, except_ok_bind, HttpCacheClient.served]
    obtain ⟨asked, found⟩ := client.fetchNarinfo urls network storeHash
    cases found with
    | error e => rfl
    | ok found =>
      simp only [Logged.did_bind, except_ok_bind]
      split
      · rfl
      · exact fetchNar_result urls network client hashers found.1 found.2

theorem httpError_eq_ok {α : Type} {what : String} {outcome : Except String α} {a : α} :
    httpError what outcome = .ok a ↔ outcome = .ok a := by
  cases outcome <;> simp

/-- A GET comes back successful, with this body. -/
def Gets (met : Except String Response) (compression : Compression) (nar : Buffer) : Prop :=
  ∃ response, met = .ok response ∧ response.success = true ∧ response.body compression = .ok nar

/-- A NAR is fetched if one comes back that has the hash of the narinfo. -/
theorem fetchNar_ok {U : Type} {urls : Urls U} {network : Network U} {hashers : Hashers}
    {narinfo : CacheNarInfo} {base url : U} (joined : urls.join base narinfo.url = .ok url)
    {result : FetchResult} :
    (fetchNar urls network hashers narinfo base).result = .ok result ↔ ∃ nar,
      Gets (network.getNar url (.fromSecs 300)) narinfo.compression nar ∧
        hashers.sha256 nar.val = narinfo.narHash.bytes ∧
          result = ⟨nar, ⟨hashers.blake3 nar.val⟩, narinfo.narHash, .ofNat nar.val.length,
            narinfo.storePath, narinfo.references, narinfo.deriver⟩ := by
  rw [fetchNar, joined, httpError_ok, Logged.lift_ok_bind, Logged.result_perform_bind,
    Logged.bind_ok]
  simp only [Logged.result_lift, httpError_eq_ok]
  constructor
  · intro h
    obtain ⟨response, met, h⟩ := h
    split at h
    · cases h
    · rename_i success
      obtain ⟨narData, body, h⟩ := (Logged.bind_ok _ _ _).mp h
      split at h
      · cases h
      · rename_i hash
        have same := Classical.not_not.mp hash
        refine ⟨narData, ⟨response, met, by simpa using success, httpError_eq_ok.mp body⟩,
          congrArg Sha256Hash.bytes same, ?_⟩
        rw [← same]
        exact (Except.ok.inj h).symm
  · intro h
    obtain ⟨nar, ⟨response, met, success, body⟩, hash, rfl⟩ := h
    have same : (⟨hashers.sha256 nar.val⟩ : Sha256Hash) = narinfo.narHash := by rw [hash]
    refine ⟨response, met, ?_⟩
    rw [success, body, httpError_ok]
    simp only [Bool.not_true, Bool.false_eq_true, if_false, Logged.lift_ok_bind, same, ne_eq,
      not_true_eq_false, Logged.result_pure]

end IrohNix.Transfer.Lookup

namespace IrohNix.Substituter
open IrohNix.Lib IrohNix.Lib.Url IrohNix.Index IrohNix.Transfer IrohNix.Transfer.Lookup IrohNix.Node
  IrohNix.Nar

/-- One head, and a body behind it that may be longer or shorter than the head says. -/
def Answers (answer : Answer) (status contentLength : Nat) (body : Bytes) : Prop :=
  ∃ statusText contentType, ∃ pieces : List Bytes, pieces.flatten = body ∧
    answer.effects = .head status statusText contentType contentLength :: pieces.map .body

/-- What is relied on of an HTTP client: it reads a body as far as its head says, takes a
body that breaks off for an error, and has no room for one that fits in no memory. -/
structure Reads (answer : Answer) (met : Except String Response) : Prop where
  whole : ∀ status contentLength body, Answers answer status contentLength body →
    contentLength ≤ body.length → contentLength < 2 ^ 63 → ∃ response buffer,
      met = .ok response ∧ response.success = decide (200 ≤ status ∧ status < 300) ∧
        response.body .none = .ok buffer ∧ buffer.val = body.take contentLength ∧
          ∀ text, utf8 text = buffer.val → text.toList.head? ≠ some '\uFEFF' →
            response.text = .ok text
  broken : ∀ status contentLength body, Answers answer status contentLength body →
    body.length < contentLength ∨ 2 ^ 63 ≤ contentLength →
      ∀ response buffer, met = .ok response → response.body .none ≠ .ok buffer

/-- The first line of a request. -/
def getLine (path : String) : String := "GET" ++ (" " ++ (path ++ (" " ++ "HTTP/1.1\r\n")))

/-- A node, as it answers its substituter's clients. -/
structure Served where
  env : SubstituterEnv
  index : HashIndex

def Served.answer (hashers : Hashers) (node : Served) (path : String) : Answer :=
  handleConnection hashers node.env node.index (getLine path)

/-- A client whose first cache is a node, and which asks it for a path that the node
advertises. The node may change before it is asked for the NAR. -/
structure Advertised (urls : Urls Url) (network : Network Url) (hashers : Hashers)
    (node node' : Served) (client : Lookup.HttpCacheClient Url) (storePath : String)
    (entry : HashEntry) : Prop where
  cache : ∃ config rest s, client.configs = config :: rest ∧ urls.parse s = .ok config.url ∧
    config.url.AtRoot ∧ ∀ storeHash, extractHttpStoreHash storePath = .ok storeHash →
      (∀ timeout, Reads (node.answer hashers ("/" ++ narinfoPath storeHash))
        (network.get 0 (config.url.onHost (narinfoPath storeHash).toList) timeout)) ∧
      ∀ timeout, Reads (node'.answer hashers (narPath entry))
        (network.getNar (config.url.onHost (narUrl entry).toList) timeout)
  named : ∃ storeHash, extractHttpStoreHash storePath = .ok storeHash ∧
    (∀ c ∈ storeHash.toList, c.isAlphanum) ∧ narinfoEntry node.env.p2p node.index storeHash =
      some entry
  storePath : entry.storePath = storePath
  writable : Writable entry
  short : (utf8 (narinfoBody entry)).length < 2 ^ 63

/-- The bytes a node sends for a hash, as far as its head announces them. -/
def Served.Sends (hashers : Hashers) (node : Served) (blake3 : Blake3Hash) (nar : Bytes) : Prop :=
  ∃ found, node.index.getByBlake3 blake3 = some found ∧
    if node.env.files.pathExists found.storePath then
      found.narSize.toNat ≤ (servedNar hashers node.env.files found.storePath).length ∧
        nar = (servedNar hashers node.env.files found.storePath).take found.narSize.toNat
    else tryFetchNarFromPeer hashers node.env.codec node.env.p2p blake3 = some nar

section Sent

variable {hashers : Hashers} {env : SubstituterEnv} {index : HashIndex} {blake3 : Blake3Hash}
  {entry : HashEntry}

theorem sendResponse_answers (status : Nat) (statusText contentType : String) (body : Bytes) :
    Answers (sendResponse status statusText contentType body false) status body.length body := by
  cases body with
  | nil => exact ⟨statusText, contentType, [], rfl, rfl⟩
  | cons b bytes => exact ⟨statusText, contentType, [b :: bytes], by simp, rfl⟩

theorem narChunks_answers (contentLength : Nat) (narData : Bytes) :
    Answers (do sendNarHead contentLength; sendNarChunks narData) 200 contentLength narData := by
  refine ⟨"OK", "application/x-nix-nar", _, flatten_toChunks (64 * 1024) narData, ?_⟩
  rw [Logged.effects_bind rfl]
  exact congrArg _ (sendNarChunks_effects narData)

/-- A NAR from the disk goes out behind its recorded size. -/
theorem sendNar_answers_local (onDisk : env.files.pathExists entry.storePath = true) :
    Answers (sendNar hashers env blake3 entry false) 200 entry.narSize.toNat
      (servedNar hashers env.files entry.storePath) := by
  cases hs : serializePath hashers entry.storePath (env.files.node entry.storePath) with
  | ok served =>
    obtain ⟨narData, info⟩ := served
    have sent := narChunks_answers entry.narSize.toNat narData
    have same : (sendNar hashers env blake3 entry false).effects =
        (do sendNarHead entry.narSize.toNat; sendNarChunks narData : Answer).effects := by
      rw [sendNar, if_pos onDisk, hs]
      rfl
    simpa only [Answers, servedNar, hs, same] using sent
  | error e =>
    refine ⟨"OK", "application/x-nix-nar", [], ?_, ?_⟩
    · rw [servedNar, hs, List.flatten_nil]
    · rw [sendNar, if_pos onDisk, hs]
      rfl

/-- Nothing but a successful response is got. -/
theorem not_gets_of_text {met : Except String Response} {nar : Buffer}
    {statusText text : String} (reads : Reads (sendText 404 statusText text false) met) :
    ¬ Gets met .none nar := by
  intro gets
  obtain ⟨response, hmet, success, body⟩ := gets
  have answers := sendResponse_answers 404 statusText "text/plain" (utf8 text)
  by_cases fits : (utf8 text).length < 2 ^ 63
  · obtain ⟨response', _, hmet', success', _⟩ := reads.whole _ _ _ answers (Nat.le_refl _) fits
    obtain rfl : response = response' := Except.ok.inj (hmet.symm.trans hmet')
    rw [success] at success'
    cases success'
  · exact reads.broken _ _ _ answers (.inr (by omega)) response nar hmet body

/-- What is got of a NAR is as much as its head announces. -/
theorem gets_iff {answer : Answer} {met : Except String Response} {contentLength : Nat}
    {data : Bytes} (reads : Reads answer met) (answers : Answers answer 200 contentLength data)
    {nar : Buffer} :
    Gets met .none nar ↔ contentLength ≤ data.length ∧ nar.val = data.take contentLength := by
  by_cases whole : contentLength ≤ data.length ∧ contentLength < 2 ^ 63
  · obtain ⟨response, buffer, hmet, success, body, taken, _⟩ :=
      reads.whole _ _ _ answers whole.1 whole.2
    constructor
    · intro gets
      obtain ⟨response', hmet', _, body'⟩ := gets
      obtain rfl : response = response' := Except.ok.inj (hmet.symm.trans hmet')
      obtain rfl : buffer = nar := Except.ok.inj (body.symm.trans body')
      exact ⟨whole.1, taken⟩
    · intro h
      obtain rfl : nar = buffer := Subtype.ext (h.2.trans taken.symm)
      exact ⟨response, hmet, success, body⟩
  · constructor
    · intro gets
      obtain ⟨response, hmet, _, body⟩ := gets
      exact absurd body (reads.broken _ _ _ answers (by omega) response nar hmet)
    · intro h
      have length := congrArg List.length h.2
      have fits := nar.property
      rw [List.length_take] at length
      omega

theorem getLine_words {path : String} (word : IsWord path) :
    splitWhitespace (getLine path) = ["GET", path, "HTTP/1.1"] := by
  have version : splitWhitespace "HTTP/1.1\r\n" = ["HTTP/1.1"] := by decide +kernel
  rw [getLine, splitWhitespace_word_append get_word, splitWhitespace_word_append word, version]

/-- What is got from a node that is asked for an advertised NAR. -/
theorem sends_iff {node : Served} {met : Except String Response}
    (reads : Reads (node.answer hashers (narPath entry)) met) {nar : Buffer} :
    Gets met .none nar ↔ node.Sends hashers entry.blake3 nar.val := by
  have routed : node.answer hashers (narPath entry) =
      handleNar hashers node.env node.index (narPath entry) false :=
    narPath_routed hashers node.env node.index entry "HTTP/1.1\r\n"
  rw [routed] at reads
  rw [Served.Sends]
  cases hget : node.index.getByBlake3 entry.blake3 with
  | none =>
    rw [handleNar_unknown hget] at reads
    simp only [not_gets_of_text reads, reduceCtorEq, false_and, exists_false]
  | some found =>
    rw [handleNar_known hget] at reads
    simp only [Option.some.injEq, exists_eq_left']
    cases onDisk : node.env.files.pathExists found.storePath with
    | true =>
      simp only [if_true]
      exact gets_iff reads (sendNar_answers_local onDisk)
    | false =>
      simp only [Bool.false_eq_true, if_false]
      cases remote : tryFetchNarFromPeer hashers node.env.codec node.env.p2p entry.blake3 with
      | none =>
        have answer : sendNar hashers node.env entry.blake3 found false =
            sendText 404 "Not Found" "Store path not found" false := by
          rw [sendNar, if_neg (by simp [onDisk]), remote]
        rw [answer] at reads
        simp only [not_gets_of_text reads, reduceCtorEq]
      | some data =>
        have answers : Answers (sendNar hashers node.env entry.blake3 found false) 200 data.length
            data := by
          rw [sendNar, if_neg (by simp [onDisk]), remote]
          exact narChunks_answers data.length data
        rw [gets_iff reads answers]
        simp only [Nat.le_refl, List.take_length, true_and, Option.some.injEq]
        exact eq_comm

end Sent

section Narinfo

theorem alphanum_ascii {c : Char} (h : c.isAlphanum) : 48 ≤ c.toNat ∧ c.toNat ≤ 122 := by
  have classes : ((65 ≤ c.toNat ∧ c.toNat ≤ 90) ∨ (97 ≤ c.toNat ∧ c.toNat ≤ 122)) ∨
      (48 ≤ c.toNat ∧ c.toNat ≤ 57) := by
    rcases Bool.or_eq_true_iff.mp h with letter | digit
    · rcases Bool.or_eq_true_iff.mp letter with upper | lower
      · exact .inl (.inl (of_decide_eq_true upper))
      · obtain ⟨low, high⟩ := Bool.and_eq_true_iff.mp lower
        exact .inl (.inr ⟨of_decide_eq_true low, of_decide_eq_true high⟩)
    · obtain ⟨low, high⟩ := Bool.and_eq_true_iff.mp digit
      exact .inr ⟨of_decide_eq_true low, of_decide_eq_true high⟩
  omega

variable {storeHash : String}

theorem not_mem_of_plain (plain : ∀ c ∈ storeHash.toList, c.isAlphanum) {c : Char}
    (other : c.isAlphanum = false) : c ∉ storeHash.toList := by
  intro hmem
  rw [plain c hmem] at other
  cases other

theorem narinfoHashPart_path (plain : ∀ c ∈ storeHash.toList, c.isAlphanum) :
    narinfoHashPart ("/" ++ narinfoPath storeHash) = storeHash := by
  have noSlash : '/' ∉ (narinfoPath storeHash).toList := by
    rw [narinfoPath_toList, List.mem_append]
    simp [not_mem_of_plain (c := '/') plain rfl]
  rw [narinfoHashPart, trimStartMatches_once (c := '/') (by simp) noSlash, narinfoPath,
    trimEndMatches_once (c := '.') (by simp) (not_mem_of_plain plain rfl)]

theorem narinfo_target_word (plain : ∀ c ∈ storeHash.toList, c.isAlphanum) :
    IsWord ("/" ++ narinfoPath storeHash) := by
  have slash : IsWord "/" := by decide +kernel
  have extension : IsWord ".narinfo" := by decide +kernel
  refine slash.append fun c hc => ?_
  rw [narinfoPath_toList, List.mem_append] at hc
  rcases hc with hc | hc
  · have ascii := alphanum_ascii (plain c hc)
    exact isWhitespace_ascii (by omega) (by omega)
  · exact extension.2 c hc

/-- A node that is asked for a narinfo answers with the one it has. -/
theorem narinfo_answers {hashers : Hashers} {node : Served} {entry : HashEntry}
    (plain : ∀ c ∈ storeHash.toList, c.isAlphanum)
    (found : narinfoEntry node.env.p2p node.index storeHash = some entry) :
    Answers (node.answer hashers ("/" ++ narinfoPath storeHash)) 200
      (utf8 (narinfoBody entry)).length (utf8 (narinfoBody entry)) := by
  have other : "/" ++ narinfoPath storeHash ≠ "/nix-cache-info" := by
    intro h
    have dotted : '.' ∈ ("/" ++ narinfoPath storeHash).toList := by simp [narinfoPath_toList]
    rw [h] at dotted
    exact absurd dotted (by decide)
  have isNarinfo : ".narinfo".toList.isSuffixOf ("/" ++ narinfoPath storeHash).toList = true := by
    rw [List.isSuffixOf_iff_suffix]
    exact ⟨"/".toList ++ storeHash.toList, by simp [narinfoPath_toList]⟩
  rw [Served.answer, handleConnection_get (getLine_words (narinfo_target_word plain)), route,
    if_neg other, if_pos isNarinfo, handleNarinfo, narinfoHashPart_path plain, found]
  exact sendResponse_answers _ _ _ _

end Narinfo

section Fetch

variable {urls : Urls Url} {network : Network Url} {hashers : Hashers} {node node' : Served}
  {client : Lookup.HttpCacheClient Url} {storePath : String} {entry : HashEntry}

theorem join_root (rfc : Rfc3986 urls) {s : String} {base : Url} (parsed : urls.parse s = .ok base)
    (root : base.AtRoot) {path : String} (chars : ∀ c ∈ path.toList, IsUnreserved c ∨ c = '/')
    (named : path.toList ≠ []) (below : path.toList.head? ≠ some '/')
    (clean : ¬ HasDots path.toList) : urls.join base path = .ok (base.onHost path.toList) := by
  rw [rfc.join s base path _ parsed root.canBe (parseRelative_path chars below),
    resolve_root root named below clean]

theorem hexDigit_alphanum : ∀ n < 16, (hexDigit n).isAlphanum := by decide +kernel

/-- The name of a NAR is a path of two segments. -/
theorem narUrl_reference (entry : HashEntry) :
    (∀ c ∈ (narUrl entry).toList, IsUnreserved c ∨ c = '/') ∧ (narUrl entry).toList ≠ [] ∧
      (narUrl entry).toList.head? ≠ some '/' ∧ ¬ HasDots (narUrl entry).toList := by
  have parts : (narUrl entry).toList = "nar".toList ++
      '/' :: ((hexLower entry.blake3.bytes.toList).toList ++ ".nar".toList) := by simp [narUrl]
  have noSlash := (hexLower_plain entry.blake3.bytes.toList).1
  rw [parts]
  refine ⟨?_, by simp, by simp, ?_⟩
  · have directory : IsStoreHash "nar" := by decide +kernel
    have extension : IsStoreHash ".nar" := by decide +kernel
    intro c hc
    simp only [List.mem_append, List.mem_cons] at hc
    rcases hc with hc | rfl | hc | hc
    · exact .inl (directory c hc)
    · exact .inr rfl
    · obtain ⟨n, hn, rfl⟩ := mem_hexLower hc
      exact .inl (.inl (hexDigit_alphanum n hn))
    · exact .inl (extension c hc)
  · have first : ¬ HasDots "nar".toList := by decide +kernel
    have second : '/' ∉ (hexLower entry.blake3.bytes.toList).toList ++ ".nar".toList := by
      simp [noSlash]
    rw [hasDots_append]
    intro h
    rcases h with h | h
    · exact first h
    · simp only [HasDots, List.splitOn_eq_singleton second, List.mem_singleton, exists_eq_left,
        IsDot] at h
      rcases h with h | h <;> simpa using congrArg List.length h

theorem narinfoBody_start (entry : HashEntry) : (narinfoBody entry).toList.head? = some 'S' := by
  have first : (fieldLine "StorePath" entry.storePath).toList.head? = some 'S' := by
    simp [fieldLine]
  rw [narinfoBody_lines, String.toList_append, List.head?_append, first]
  rfl

/-- The first cache serves the narinfo of the entry. -/
theorem Advertised.serves (rfc : Rfc3986 urls)
    (advertised : Advertised urls network hashers node node' client storePath entry) :
    ∃ config rest storeHash, client.configs = config :: rest ∧
      extractHttpStoreHash storePath = .ok storeHash ∧
      Serves urls network storeHash 0 config ⟨entry.storePath, narUrl entry, .none, entry.sha256,
        entry.narSize, none, entry.references, entry.deriver⟩ ∧
      urls.join config.url (narUrl entry) = .ok (config.url.onHost (narUrl entry).toList) ∧
      ∀ timeout, Reads (node'.answer hashers (narPath entry))
        (network.getNar (config.url.onHost (narUrl entry).toList) timeout) := by
  obtain ⟨config, rest, s, configs, parsed, root, reads⟩ := advertised.cache
  obtain ⟨storeHash, named, plain, found⟩ := advertised.named
  obtain ⟨first, second⟩ := reads storeHash named
  have isHash : IsStoreHash storeHash := fun c hc => .inl (plain c hc)
  obtain ⟨_, nonempty, below⟩ := narinfo_below isHash
  have chars : ∀ c ∈ (narinfoPath storeHash).toList, IsUnreserved c ∨ c = '/' := by
    have extension : IsStoreHash ".narinfo" := by decide +kernel
    intro c hc
    rw [narinfoPath_toList, List.mem_append] at hc
    rcases hc with hc | hc
    · exact .inl (isHash c hc)
    · exact .inl (extension c hc)
  have joined := join_root rfc parsed root chars nonempty below.no_slash below.clean
  obtain ⟨narChars, narNamed, narBelow, narClean⟩ := narUrl_reference entry
  have joined' := join_root rfc parsed root narChars narNamed narBelow narClean
  obtain ⟨response, buffer, met, success, _, taken, text⟩ := (first config.timeout).whole _ _ _
    (narinfo_answers plain found) (Nat.le_refl _) advertised.short
  rw [List.take_length] at taken
  have body := text (narinfoBody entry) taken.symm (by rw [narinfoBody_start]; decide)
  exact ⟨config, rest, storeHash, configs, named, ⟨_, response, _, joined, met, success, body,
    parse_narinfoBody network.decodeBase64 advertised.writable⟩, joined', second⟩

/-- A client fetches from a node exactly the NARs that the node sends with the hash it has
advertised, and takes the rest of what it knows from the narinfo. -/
theorem fetched_iff (urls : Urls Url) (rfc : Rfc3986 urls) (network : Network Url)
    (hashers : Hashers) (node node' : Served) (client : Lookup.HttpCacheClient Url)
    (storePath : String) (entry : HashEntry)
    (advertised : Advertised urls network hashers node node' client storePath entry)
    (result : FetchResult) :
    (client.fetchByStorePath urls network hashers storePath).result = .ok result ↔
      ∃ nar : Buffer, node'.Sends hashers entry.blake3 nar.val ∧
        hashers.sha256 nar.val = entry.sha256.bytes ∧
          result = ⟨nar, ⟨hashers.blake3 nar.val⟩, entry.sha256, .ofNat nar.val.length, storePath,
            entry.references, entry.deriver⟩ := by
  obtain ⟨config, rest, storeHash, configs, named, serves, joined, reads⟩ := advertised.serves rfc
  have looked := askCaches_serves serves (rest.zipIdx 1)
  rw [Lookup.HttpCacheClient.fetchByStorePath, named, Logged.lift_ok_bind,
    Lookup.HttpCacheClient.fetchNarinfo, configs, List.zipIdx_cons]
  generalize askCaches urls network storeHash ((config, 0) :: rest.zipIdx 1) = asked at looked ⊢
  obtain ⟨effects, found⟩ := asked
  cases looked
  simp only [Logged.did_bind, advertised.storePath, ne_eq, not_true_eq_false, if_false]
  rw [fetchNar_ok joined]
  simp only [sends_iff (reads _)]

end Fetch

section Sample

/-- A client that reads every response as it should. -/
def receive (answer : Answer) : Except String Response :=
  match answer.effects with
  | .head status statusText _ contentLength :: rest =>
    if h : contentLength ≤ (rest.flatMap Sent.payload).length ∧ contentLength < 2 ^ 63 then
      have fits : ((rest.flatMap Sent.payload).take contentLength).length < 2 ^ 63 := by
        rw [List.length_take]
        omega
      .ok {
        success := decide (200 ≤ status ∧ status < 300)
        status := statusText
        body := fun _ => .ok ⟨(rest.flatMap Sent.payload).take contentLength, fits⟩
        text := .ok (utf8Lossy ((rest.flatMap Sent.payload).take contentLength)) }
    else .error "error decoding response body"
  | _ => .error "connection closed before message completed"

theorem receive_reads (answer : Answer) : Reads answer (receive answer) := by
  have payload : ∀ pieces : List Bytes, (pieces.map Sent.body).flatMap Sent.payload =
      pieces.flatten := by
    intro pieces
    rw [List.flatMap_map, List.flatMap_def]
    exact congrArg List.flatten (List.map_id pieces)
  constructor
  · intro status contentLength body answers short fits
    obtain ⟨statusText, contentType, pieces, rfl, effects⟩ := answers
    have room : contentLength ≤ ((pieces.map Sent.body).flatMap Sent.payload).length ∧
        contentLength < 2 ^ 63 := by
      rw [payload]
      exact ⟨short, fits⟩
    refine ⟨_, _, by rw [receive, effects]; exact dif_pos room, rfl, rfl, by simp only [payload],
      fun text same _ => ?_⟩
    exact congrArg Except.ok ((congrArg utf8Lossy same.symm).trans (utf8Lossy_utf8 text))
  · intro status contentLength body answers long response buffer met
    obtain ⟨statusText, contentType, pieces, rfl, effects⟩ := answers
    have noRoom : ¬ (contentLength ≤ ((pieces.map Sent.body).flatMap Sent.payload).length ∧
        contentLength < 2 ^ 63) := by
      rw [payload]
      omega
    rw [receive, effects] at met
    cases (dif_neg noRoom).symm.trans met

def storedEntry : HashEntry :=
  { twinEntry "00bgk9l11v5g2ab1sdn3xv5c8zgk6rp4-x" with narSize := 120 }

def fileNode : Served := ⟨fileServer, HashIndex.run [.insert storedEntry]⟩

/-- Every host is the node. -/
def toFileNode : Network Url where
  get _ url _ := receive (fileNode.answer zeroHashers (String.ofList url.path))
  getNar url _ := receive (fileNode.answer zeroHashers (String.ofList url.path))
  decodeBase64 _ := .error "not called"

theorem toFileNode_reads (base : Url) (path : String) (timeout : Duration) :
    Reads (fileNode.answer zeroHashers ("/" ++ path))
        (toFileNode.get 0 (base.onHost path.toList) timeout) ∧
      Reads (fileNode.answer zeroHashers ("/" ++ path))
        (toFileNode.getNar (base.onHost path.toList) timeout) := by
  have target : String.ofList (base.onHost path.toList).path = "/" ++ path := by
    apply String.toList_injective
    simp [onHost]
  rw [toFileNode]
  simp only [target]
  exact ⟨receive_reads _, receive_reads _⟩

theorem storedEntry_advertised : Advertised knownUrls toFileNode zeroHashers fileNode fileNode
    ⟨[⟨defaultCache, 40, .fromSecs 60⟩]⟩ storedEntry.storePath storedEntry where
  cache := by
    refine ⟨_, [], _, rfl, parse_defaultCache, ⟨.inl rfl, .inr rfl⟩, fun storeHash _ => ⟨?_, ?_⟩⟩
    · exact fun timeout => (toFileNode_reads defaultCache (narinfoPath storeHash) timeout).1
    · exact fun timeout => (toFileNode_reads defaultCache (narUrl storedEntry) timeout).2
  named := by
    have path : storedEntry.storePath = "/nix/store/" ++ "00bgk9l11v5g2ab1sdn3xv5c8zgk6rp4-x" := rfl
    have dashed : (utf8 "00bgk9l11v5g2ab1sdn3xv5c8zgk6rp4-x")[32]? = some '-'.toUInt8 := by
      decide +kernel
    have hash : String.ofList (takeUtf8 32 "00bgk9l11v5g2ab1sdn3xv5c8zgk6rp4-x".toList) =
        "00bgk9l11v5g2ab1sdn3xv5c8zgk6rp4" := by decide +kernel
    have plain : "00bgk9l11v5g2ab1sdn3xv5c8zgk6rp4".toList.all Char.isAlphanum = true := by
      decide +kernel
    refine ⟨"00bgk9l11v5g2ab1sdn3xv5c8zgk6rp4", ?_, List.all_eq_true.mp plain, by decide +kernel⟩
    rw [path, extractHttpStoreHash, stripPrefix_append]
    simp only [if_pos dashed, hash]
  storePath := rfl
  writable := by
    refine ⟨?_, by decide +kernel, ⟨[], rfl, by simp⟩, fun d hd => by cases hd⟩
    exact IsWord.trimmed (by decide +kernel)
  short := by
    have length : (utf8 (narinfoBody storedEntry)).length < 1000 := by decide +kernel
    omega

/-- The file of another node is fetched whole. -/
theorem stored_fetched : ∃ result, ((⟨[⟨defaultCache, 40, .fromSecs 60⟩]⟩ :
    Lookup.HttpCacheClient Url).fetchByStorePath knownUrls toFileNode zeroHashers
      storedEntry.storePath).result = .ok result ∧ result.narData.val.length = 120 := by
  have size : (servedNar zeroHashers fileServer.files storedEntry.storePath).length = 120 := rfl
  refine ⟨_, (fetched_iff knownUrls knownUrls_rfc3986 toFileNode zeroHashers fileNode fileNode _ _ _
    storedEntry_advertised _).mpr ⟨⟨servedNar zeroHashers fileServer.files storedEntry.storePath,
      by omega⟩, ?_, rfl, rfl⟩, size⟩
  refine ⟨storedEntry, by decide +kernel, ?_⟩
  exact ⟨Nat.le_refl _, rfl⟩

end Sample

end IrohNix.Substituter
