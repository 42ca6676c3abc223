import IrohNix.Lib.StableSort
import IrohNix.Transfer.CacheNarInfo

namespace IrohNix.Transfer.Lookup
open IrohNix.Lib

variable {U : Type}

/-- A span of time, in nanoseconds. -/
abbrev Duration := Nat

def Duration.fromSecs (secs : Nat) : Duration := secs * 10 ^ 9

/-- `Url::parse` and `Url::join`. -/
structure Urls (U : Type) where
  parse : String → Except String U
  join : U → String → Except String U

/-- A response whose body is read as text or through a decoder. -/
structure Response extends HttpResponse where
  text : Except String String

/-- What the GETs of one fetch meet, each with its timeout: those for a narinfo, which are
numbered, and the one for the NAR; and base64. -/
structure Network (U : Type) where
  get : Nat → U → Duration → Except String Response
  getNar : U → Duration → Except String Response
  decodeBase64 : String → Except String Bytes

/-- Configuration for an HTTP binary cache; lower priorities are preferred. -/
structure HttpCacheConfig (U : Type) where
  url : U
  priority : UInt32
  timeout : Duration
deriving DecidableEq

namespace HttpCacheConfig

/-- The default priority is that of cache.nixos.org. -/
def new (urls : Urls U) (url : String) : Except Error (HttpCacheConfig U) := do
  let parsed ← httpError ("invalid cache URL '" ++ url ++ "': ") (urls.parse url)
  pure { url := parsed, priority := 40, timeout := .fromSecs 60 }

/-- What the client's configurations are sorted by. -/
def rank (config : HttpCacheConfig U) : Nat := config.priority.toNat

end HttpCacheConfig

structure HttpCacheClient (U : Type) where
  configs : List (HttpCacheConfig U)

def HttpCacheClient.new (built : Except String Unit) (configs : List (HttpCacheConfig U)) :
    Except Error (HttpCacheClient U) := do
  httpError "failed to create HTTP client: " built
  pure ⟨sortByKey HttpCacheConfig.rank configs⟩

/-- A GET that is sent, with the base URL that its URL was made from. -/
structure Asked (U : Type) where
  base : U
  url : U
  timeout : Duration
deriving DecidableEq

def narinfoPath (storeHash : String) : String := storeHash ++ ".narinfo"

/-- The loop over the caches, which are numbered in order. -/
def askCaches (urls : Urls U) (network : Network U) (storeHash : String) :
    List (HttpCacheConfig U × Nat) → Logged (Asked U) Error (CacheNarInfo × U)
  | [] => .fail (.httpCache ("narinfo not found in any cache: " ++ storeHash))
  | (config, number) :: rest => do
    let url ← .lift (httpError "invalid narinfo URL: "
      (urls.join config.url (narinfoPath storeHash)))
    .perform ⟨config.url, url, config.timeout⟩
    match network.get number url config.timeout with
    | .error _ => askCaches urls network storeHash rest
    | .ok response =>
      if !response.success then askCaches urls network storeHash rest
      else do
        let text ← .lift (httpError "failed to read narinfo: " response.text)
        let narinfo ← .lift (CacheNarInfo.parse network.decodeBase64 text)
        pure (narinfo, config.url)

/-- Fetch narinfo by store path hash (32-char prefix from store path). -/
def HttpCacheClient.fetchNarinfo (urls : Urls U) (network : Network U)
    (client : HttpCacheClient U) (storeHash : String) :
    Logged (Asked U) Error (CacheNarInfo × U) :=
  askCaches urls network storeHash client.configs.zipIdx

/-- Fetch and decompress NAR, computing BLAKE3 hash. -/
def fetchNar (urls : Urls U) (network : Network U) (hashers : Hashers) (narinfo : CacheNarInfo)
    (baseUrl : U) : Logged (Asked U) Error FetchResult := do
  let narUrl ← .lift (httpError "invalid NAR URL: " (urls.join baseUrl narinfo.url))
  .perform ⟨baseUrl, narUrl, .fromSecs 300⟩
  let response ← .lift (httpError "failed to fetch NAR: " (network.getNar narUrl (.fromSecs 300)))
  if !response.success then .fail (.httpCache ("NAR fetch failed: " ++ response.status))
  else do
    let narData ← .lift
      (httpError narinfo.compression.failure (response.body narinfo.compression))
    let sha256 : Sha256Hash := ⟨hashers.sha256 narData.val⟩
    if sha256 ≠ narinfo.narHash then
      .fail (.httpCache ("SHA256 mismatch: expected " ++ hexLower narinfo.narHash.bytes.toList ++
        ", got " ++ hexLower sha256.bytes.toList))
    else
      pure {
        narData, sha256
        blake3 := ⟨hashers.blake3 narData.val⟩
        narSize := .ofNat narData.val.length
        storePath := narinfo.storePath
        references := narinfo.references
        deriver := narinfo.deriver }

/-- The client as the peers' requests are served from it. -/
def HttpCacheClient.served (urls : Urls String) (network : Network String)
    (client : HttpCacheClient String) : Transfer.HttpCacheClient where
  fetchNarinfo storeHash := (client.fetchNarinfo urls network storeHash).result
  join := urls.join
  get url := (network.getNar url (.fromSecs 300)).map (·.toHttpResponse)

section
variable (urls : Urls U) (network : Network U) (storeHash : String)

/-- The cache answers the GET of this number with a valid narinfo. -/
def Serves (number : Nat) (config : HttpCacheConfig U) (narinfo : CacheNarInfo) : Prop :=
  ∃ url response text, urls.join config.url (narinfoPath storeHash) = .ok url ∧
    network.get number url config.timeout = .ok response ∧ response.success = true ∧
    response.text = .ok text ∧ CacheNarInfo.parse network.decodeBase64 text = .ok narinfo

/-- The cache cannot be reached, or answers with a status that is no success. -/
def Declines (number : Nat) (config : HttpCacheConfig U) : Prop :=
  ∃ url, urls.join config.url (narinfoPath storeHash) = .ok url ∧
    ∀ response, network.get number url config.timeout = .ok response → response.success = false

/-- How many caches come before one, which is the number of the GET that asks it. -/
def turn (configs : List (HttpCacheConfig U)) (p : HttpCacheConfig U × Nat) : Nat :=
  configs.zipIdx.countP fun q => decide (Earlier HttpCacheConfig.rank q p)

/-- A valid narinfo that some cache serves is found, and the one of the cache that comes
first is returned. -/
def FindsFirst (configs : List (HttpCacheConfig U)) (found : Except Error (CacheNarInfo × U)) :
    Prop :=
  ((∃ p ∈ configs.zipIdx, ∃ narinfo, Serves urls network storeHash (turn configs p) p.1 narinfo) →
    ∃ r, found = .ok r) ∧
  ∀ p ∈ configs.zipIdx, ∀ narinfo,
    Serves urls network storeHash (turn configs p) p.1 narinfo →
    (∀ q ∈ configs.zipIdx, Earlier HttpCacheConfig.rank q p →
      ∀ other, ¬ Serves urls network storeHash (turn configs q) q.1 other) →
    found = .ok (narinfo, p.1.url)

/-- The caches before the first that serves a valid narinfo all decline. -/
def OthersDecline (configs : List (HttpCacheConfig U)) : Prop :=
  ∀ p ∈ configs.zipIdx,
    (∃ narinfo, Serves urls network storeHash (turn configs p) p.1 narinfo) →
    (∀ q ∈ configs.zipIdx, Earlier HttpCacheConfig.rank q p →
      ∀ other, ¬ Serves urls network storeHash (turn configs q) q.1 other) →
    ∀ q ∈ configs.zipIdx, Earlier HttpCacheConfig.rank q p →
      Declines urls network storeHash (turn configs q) q.1

end

section
variable {urls : Urls U} {network : Network U} {storeHash : String}

theorem Declines.not_serves {number : Nat} {config : HttpCacheConfig U} {narinfo : CacheNarInfo}
    (h : Declines urls network storeHash number config) :
    ¬ Serves urls network storeHash number config narinfo := by
  intro hserves
  obtain ⟨url, hjoin, hdeclined⟩ := h
  obtain ⟨url', response, _, hjoin', hget, hsuccess, _⟩ := hserves
  obtain rfl : url = url' := Except.ok.inj (hjoin.symm.trans hjoin')
  rw [hdeclined response hget] at hsuccess
  contradiction

/-- What is served to the peers is what this fetches. -/
theorem fetchNar_result (urls : Urls String) (network : Network String)
    (client : HttpCacheClient String) (hashers : Hashers) (narinfo : CacheNarInfo)
    (baseUrl : String) :
    (fetchNar urls network hashers narinfo baseUrl).result =
      (client.served urls network).fetchNar hashers narinfo baseUrl := by
  simp only [fetchNar, Transfer.HttpCacheClient.fetchNar, HttpCacheClient.served]
  cases urls.join baseUrl narinfo.url with
  | error e => rfl
  | ok url =>
    simp only [httpError_ok, Logged.lift_ok_bind, Logged.result_perform_bind, except_ok_bind]
    cases network.getNar url (.fromSecs 300) with
    | error e => rfl
    | ok response =>
      simp only [Except.map, httpError_ok, Logged.lift_ok_bind, except_ok_bind]
      split
      · rfl
      · cases response.body narinfo.compression with
        | error e => rfl
        | ok narData =>
          simp only [httpError_ok, Logged.lift_ok_bind, except_ok_bind]
          split <;> rfl

/-- What asking one cache comes to: the next is asked, its narinfo is returned, or the loop is
left with an error. -/
theorem askCaches_cons (urls : Urls U) (network : Network U) (storeHash : String)
    (config : HttpCacheConfig U) (number : Nat) (rest : List (HttpCacheConfig U × Nat)) :
    (Declines urls network storeHash number config ∧
      (askCaches urls network storeHash ((config, number) :: rest)).result =
        (askCaches urls network storeHash rest).result) ∨
    (∃ narinfo, Serves urls network storeHash number config narinfo ∧
      (askCaches urls network storeHash ((config, number) :: rest)).result =
        .ok (narinfo, config.url)) ∨
    (¬ Declines urls network storeHash number config ∧
      ∃ e, (askCaches urls network storeHash ((config, number) :: rest)).result = .error e) := by
  rw [askCaches]
  cases hjoin : urls.join config.url (narinfoPath storeHash) with
  | error e =>
    refine .inr (.inr ⟨?_, _, rfl⟩)
    intro h
    obtain ⟨url, hok, _⟩ := h
    exact nomatch hjoin.symm.trans hok
  | ok url =>
    rw [httpError_ok, Logged.lift_ok_bind, Logged.result_perform_bind]
    cases hget : network.get number url config.timeout with
    | error e => exact .inl ⟨⟨url, hjoin, fun response hok => nomatch hget.symm.trans hok⟩, rfl⟩
    | ok response =>
      cases hsuccess : response.success with
      | false =>
        refine .inl ⟨⟨url, hjoin, fun response' hok => ?_⟩, by simp [hsuccess]⟩
        exact Except.ok.inj (hget.symm.trans hok) ▸ hsuccess
      | true =>
        have stays : ¬ Declines urls network storeHash number config := by
          intro h
          obtain ⟨url', hjoin', hdeclined⟩ := h
          obtain rfl : url = url' := Except.ok.inj (hjoin.symm.trans hjoin')
          exact Bool.false_ne_true ((hdeclined response hget).symm.trans hsuccess)
        simp only [hsuccess, Bool.not_true, Bool.false_eq_true, if_false]
        cases htext : response.text with
        | error e => exact .inr (.inr ⟨stays, _, rfl⟩)
        | ok text =>
          rw [httpError_ok, Logged.lift_ok_bind]
          cases hparse : CacheNarInfo.parse network.decodeBase64 text with
          | error e => exact .inr (.inr ⟨stays, _, rfl⟩)
          | ok narinfo =>
            exact .inr (.inl ⟨narinfo, ⟨url, response, text, hjoin, hget, hsuccess, htext, hparse⟩,
              rfl⟩)

theorem askCaches_serves {number : Nat} {config : HttpCacheConfig U} {narinfo : CacheNarInfo}
    (h : Serves urls network storeHash number config narinfo)
    (rest : List (HttpCacheConfig U × Nat)) :
    (askCaches urls network storeHash ((config, number) :: rest)).result =
      .ok (narinfo, config.url) := by
  obtain ⟨url, response, text, hjoin, hget, hsuccess, htext, hparse⟩ := h
  simp only [askCaches, hjoin, httpError_ok, Logged.lift_ok_bind, Logged.result_perform_bind, hget,
    hsuccess, Bool.not_true, Bool.false_eq_true, if_false, htext, hparse]
  rfl

/-- Caches that decline are passed over. -/
theorem askCaches_past {before : List (HttpCacheConfig U × Nat)}
    (h : ∀ q ∈ before, Declines urls network storeHash q.2 q.1)
    (rest : List (HttpCacheConfig U × Nat)) :
    (askCaches urls network storeHash (before ++ rest)).result =
      (askCaches urls network storeHash rest).result := by
  induction before with
  | nil => rfl
  | cons asked before ih =>
    have declines : Declines urls network storeHash asked.2 asked.1 := h asked (by simp)
    rw [← ih fun q hq => h q (by simp [hq])]
    rcases askCaches_cons urls network storeHash asked.1 asked.2 (before ++ rest) with
      ⟨_, hresult⟩ | ⟨_, serves, _⟩ | ⟨stays, _⟩
    · exact hresult
    · exact absurd serves declines.not_serves
    · exact absurd declines stays

/-- What is found behind caches that serve nothing is found because they decline. -/
theorem declines_of_found {before rest : List (HttpCacheConfig U × Nat)} {found : CacheNarInfo × U}
    (first : ∀ q ∈ before, ∀ narinfo, ¬ Serves urls network storeHash q.2 q.1 narinfo)
    (h : (askCaches urls network storeHash (before ++ rest)).result = .ok found) :
    ∀ q ∈ before, Declines urls network storeHash q.2 q.1 := by
  induction before with
  | nil => simp
  | cons asked before ih =>
    rcases askCaches_cons urls network storeHash asked.1 asked.2 (before ++ rest) with
      ⟨declines, hresult⟩ | ⟨narinfo, serves, _⟩ | ⟨_, e, hresult⟩
    · have hbefore := ih (fun q hq => first q (by simp [hq])) (hresult.symm.trans h)
      intro q hq
      rcases List.mem_cons.mp hq with rfl | hq
      · exact declines
      · exact hbefore q hq
    · exact absurd serves (first asked (by simp) narinfo)
    · exact nomatch hresult.symm.trans h

/-- The GETs that come before that of a cache go to the caches that come before it. -/
theorem mem_asked_before {configs : List (HttpCacheConfig U)}
    {before after : List (HttpCacheConfig U × Nat)} {p : HttpCacheConfig U × Nat}
    (hsplit : ranked HttpCacheConfig.rank configs = before ++ p :: after)
    {asked : HttpCacheConfig U × Nat} :
    asked ∈ (before.map Prod.fst).zipIdx ↔ ∃ q ∈ configs.zipIdx,
      Earlier HttpCacheConfig.rank q p ∧ asked = (q.1, turn configs q) := by
  have place : ∀ (i : Nat) (hi : i < before.length), turn configs before[i] = i := by
    intro i hi
    have parts : ranked HttpCacheConfig.rank configs =
        before.take i ++ before[i] :: (before.drop (i + 1) ++ p :: after) := by
      rw [hsplit, ← List.cons_append, ← List.drop_eq_getElem_cons hi, ← List.append_assoc,
        List.take_append_drop]
    rw [turn, count_earlier parts, List.length_take, Nat.min_eq_left (by omega)]
  constructor
  · intro h
    obtain ⟨config, number⟩ := asked
    obtain ⟨hi, hconfig⟩ := List.getElem?_eq_some_iff.mp (List.mem_zipIdx_iff_getElem?.mp h)
    rw [List.length_map] at hi
    rw [List.getElem_map] at hconfig
    obtain ⟨hq, hqp⟩ := (mem_before_ranked hsplit).mp (List.getElem_mem hi)
    exact ⟨before[number], hq, hqp, by rw [place number hi, hconfig]⟩
  · intro h
    obtain ⟨q, hq, hqp, rfl⟩ := h
    obtain ⟨i, hi, rfl⟩ := List.getElem_of_mem ((mem_before_ranked hsplit).mpr ⟨hq, hqp⟩)
    rw [place i hi, List.mem_zipIdx_iff_getElem?]
    simp [hi]

/-- The earliest cache that serves a valid narinfo is heard exactly if the ones before decline. -/
theorem heard_iff {configs : List (HttpCacheConfig U)} {p : HttpCacheConfig U × Nat}
    {narinfo : CacheNarInfo} (hp : p ∈ configs.zipIdx)
    (serves : Serves urls network storeHash (turn configs p) p.1 narinfo)
    (first : ∀ q ∈ configs.zipIdx, Earlier HttpCacheConfig.rank q p →
      ∀ other, ¬ Serves urls network storeHash (turn configs q) q.1 other) :
    (askCaches urls network storeHash (sortByKey HttpCacheConfig.rank configs).zipIdx).result =
        .ok (narinfo, p.1.url) ↔
      ∀ q ∈ configs.zipIdx, Earlier HttpCacheConfig.rank q p →
        Declines urls network storeHash (turn configs q) q.1 := by
  have hranked : p ∈ ranked HttpCacheConfig.rank configs := mem_ranked.mpr hp
  obtain ⟨before, after, hsplit⟩ := List.append_of_mem hranked
  have place : turn configs p = before.length := count_earlier hsplit
  rw [place] at serves
  rw [← map_fst_ranked, hsplit, List.map_append, List.map_cons, List.zipIdx_append,
    List.zipIdx_cons, List.length_map, Nat.zero_add]
  constructor
  · intro h q hq hqp
    refine declines_of_found ?_ h _ ((mem_asked_before hsplit).mpr ⟨q, hq, hqp, rfl⟩)
    intro asked hasked
    obtain ⟨r, hr, hrp, rfl⟩ := (mem_asked_before hsplit).mp hasked
    exact first r hr hrp
  · intro h
    rw [askCaches_past, askCaches_serves serves]
    intro asked hasked
    obtain ⟨r, hr, hrp, rfl⟩ := (mem_asked_before hsplit).mp hasked
    exact h r hr hrp

/-- The first cache that serves a valid narinfo is the one whose narinfo is returned, exactly
where all caches before it decline. -/
theorem finds_first_iff (urls : Urls U) (network : Network U) (storeHash : String)
    (built : Except String Unit) (configs : List (HttpCacheConfig U)) (client : HttpCacheClient U)
    (h : HttpCacheClient.new built configs = .ok client) :
    FindsFirst urls network storeHash configs
        (client.fetchNarinfo urls network storeHash).result ↔
      OthersDecline urls network storeHash configs := by
  obtain rfl : client = ⟨sortByKey HttpCacheConfig.rank configs⟩ := by
    cases built with
    | error e => exact nomatch h
    | ok => exact (Except.ok.inj h).symm
  constructor
  · intro hfinds p hp hserves first
    obtain ⟨narinfo, serves⟩ := hserves
    exact (heard_iff hp serves first).mp (hfinds.2 p hp narinfo serves first)
  · intro hothers
    refine ⟨?_, fun p hp narinfo serves first =>
      (heard_iff hp serves first).mpr (hothers p hp ⟨narinfo, serves⟩ first)⟩
    intro hsome
    obtain ⟨before, p, after, hsplit, ⟨narinfo, serves⟩, hbefore⟩ :=
      exists_earliest HttpCacheConfig.rank
        (P := fun p => ∃ narinfo, Serves urls network storeHash (turn configs p) p.1 narinfo) hsome
    have hranked : p ∈ ranked HttpCacheConfig.rank configs := by simp [hsplit]
    have hp : p ∈ configs.zipIdx := mem_ranked.mp hranked
    have first : ∀ q ∈ configs.zipIdx, Earlier HttpCacheConfig.rank q p →
        ∀ other, ¬ Serves urls network storeHash (turn configs q) q.1 other := by
      intro q hq hqp other hother
      exact hbefore q ((mem_before_ranked hsplit).mpr ⟨hq, hqp⟩) ⟨other, hother⟩
    exact ⟨_, (heard_iff hp serves first).mpr (hothers p hp ⟨narinfo, serves⟩ first)⟩

end

/-- Two caches of one priority, where the first answers with an empty narinfo. -/
def brokenFirst : List (HttpCacheConfig String) :=
  [⟨"https://broken.example/", 40, .fromSecs 60⟩, ⟨"https://good.example/", 40, .fromSecs 60⟩]

def concat : Urls String := ⟨fun url => .ok url, fun base path => .ok (base ++ path)⟩

def goodText : String :=
  fieldLine "StorePath" "/nix/store/0123-a" ++ (fieldLine "URL" "nar/0123.nar" ++
    (fieldLine "NarSize" "8" ++
      (fieldLine "NarHash" "sha256-AAAAAAAAAAAAAAAAAAAAAAAAAAAAAAAAAAAAAAAAAAA=" ++ "")))

def goodNarinfo : CacheNarInfo :=
  ⟨"/nix/store/0123-a", "nar/0123.nar", .bzip2, ⟨.replicate 32 0⟩, 8, none, [], none⟩

def twoCaches : Network String where
  get _ url _ := .ok {
    success := true
    status := "200 OK"
    body := fun _ => .error "invalid data"
    text := .ok (if url = "https://good.example/0123.narinfo" then goodText else "") }
  getNar _ _ := .error "not called"
  decodeBase64 s :=
    if s = "AAAAAAAAAAAAAAAAAAAAAAAAAAAAAAAAAAAAAAAAAAA=" then .ok (.replicate 32 0)
    else .error "Invalid padding"

theorem goodText_fields : fields goodText = [("StorePath", "/nix/store/0123-a"),
    ("URL", "nar/0123.nar"), ("NarSize", "8"),
    ("NarHash", "sha256-AAAAAAAAAAAAAAAAAAAAAAAAAAAAAAAAAAAAAAAAAAA=")] := by
  have keys : ∀ key ∈ ["StorePath", "URL", "NarSize", "NarHash"], IsKey key := by decide +kernel
  have words : ∀ value ∈ ["/nix/store/0123-a", "nar/0123.nar", "8",
      "sha256-AAAAAAAAAAAAAAAAAAAAAAAAAAAAAAAAAAAAAAAAAAA="], IsWord value := by decide +kernel
  have line : ∀ {key value : String}, IsKey key → IsWord value → ∀ rest,
      fields (fieldLine key value ++ rest) = (key, value) :: fields rest :=
    fun hk hv => fields_fieldLine hk hv.trimmed hv.line
  rw [goodText, line (keys _ (by simp)) (words _ (by simp)),
    line (keys _ (by simp)) (words _ (by simp)), line (keys _ (by simp)) (words _ (by simp)),
    line (keys _ (by simp)) (words _ (by simp)), fields_empty]

theorem goodText_parse : CacheNarInfo.parse twoCaches.decodeBase64 goodText = .ok goodNarinfo := by
  rw [CacheNarInfo.parse, goodText_fields]
  decide +kernel

theorem second_serves (number : Nat) : Serves concat twoCaches "0123" number
    ⟨"https://good.example/", 40, .fromSecs 60⟩ goodNarinfo :=
  ⟨_, _, goodText, rfl, rfl, rfl, rfl, goodText_parse⟩

theorem finds_first_iff_two_caches :
    ∃ client, HttpCacheClient.new (.ok ()) brokenFirst = .ok client ∧
      (FindsFirst concat twoCaches "0123" brokenFirst
          (client.fetchNarinfo concat twoCaches "0123").result ↔
        OthersDecline concat twoCaches "0123" brokenFirst) :=
  ⟨_, rfl, finds_first_iff concat twoCaches "0123" (.ok ()) brokenFirst _ rfl⟩

theorem broken_first_hides_good : ∃ client, HttpCacheClient.new (.ok ()) brokenFirst = .ok client ∧
    ¬ FindsFirst concat twoCaches "0123" brokenFirst
      (client.fetchNarinfo concat twoCaches "0123").result := by
  refine ⟨_, rfl, ?_⟩
  have sorted : sortByKey HttpCacheConfig.rank brokenFirst = brokenFirst :=
    List.mergeSort_of_pairwise (by simp [brokenFirst, HttpCacheConfig.rank])
  simp only [HttpCacheClient.fetchNarinfo, sorted]
  intro h
  obtain ⟨r, hr⟩ := h.1 ⟨(⟨"https://good.example/", 40, .fromSecs 60⟩, 1), by simp [brokenFirst],
    goodNarinfo, second_serves _⟩
  have hfails : (askCaches concat twoCaches "0123" brokenFirst.zipIdx).result =
      .error (.httpCache "missing StorePath") := by
    decide +kernel
  exact nomatch hfails.symm.trans hr

end IrohNix.Transfer.Lookup
