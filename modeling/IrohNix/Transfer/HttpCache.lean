import IrohNix.Basic
import IrohNix.Lib.Bytes
import IrohNix.Lib.Effects
import IrohNix.Lib.Text

namespace IrohNix.Transfer
open IrohNix.Lib

/-- Compression type for NAR files. -/
inductive Compression where
  | none
  | xz
  | zstd
  | bzip2
deriving DecidableEq

/-- Parsed narinfo from HTTP cache. -/
structure CacheNarInfo where
  storePath : String
  url : String
  compression : Compression
  narHash : Sha256Hash
  narSize : UInt64
  fileSize : Option UInt64
  references : List String
  deriver : Option String
deriving DecidableEq

/-- A `Vec<u8>` in memory. -/
abbrev Buffer := { bytes : Bytes // bytes.length < 2 ^ 63 }

/-- A response of an HTTP server: its status, and its body as each decoder reads it. -/
structure HttpResponse where
  success : Bool
  status : String
  body : Compression → Except String Buffer

/-- The caches and the way to them: the narinfo `fetch_narinfo` finds for a store
hash, with the URL of the cache it is from; `Url::join`; and what a GET meets. -/
structure HttpCacheClient where
  fetchNarinfo : String → Except Error (CacheNarInfo × String)
  join : String → String → Except String String
  get : String → Except String HttpResponse

/-- Result of fetching a NAR from HTTP cache. -/
structure FetchResult where
  narData : Buffer
  blake3 : Blake3Hash
  sha256 : Sha256Hash
  narSize : UInt64
  storePath : String
  references : List String
  deriver : Option String
deriving DecidableEq

def httpError {α : Type} (what : String) (outcome : Except String α) : Except Error α :=
  outcome.mapError fun e => .httpCache (what ++ e)

@[simp] theorem httpError_ok {α : Type} (what : String) (a : α) : httpError what (.ok a) = .ok a :=
  rfl

@[simp] theorem httpError_error {α : Type} (what e : String) :
    (httpError what (.error e) : Except Error α) = .error (.httpCache (what ++ e)) := rfl

def Compression.failure : Compression → String
  | .none => "failed to read NAR: "
  | .xz => "failed to decompress xz: "
  | .zstd => "failed to decompress zstd: "
  | .bzip2 => "failed to decompress bzip2: "

/-- Fetch and decompress NAR, computing BLAKE3 hash. -/
def HttpCacheClient.fetchNar (hashers : Hashers) (cache : HttpCacheClient) (narinfo : CacheNarInfo)
    (baseUrl : String) : Except Error FetchResult := do
  let narUrl ← httpError "invalid NAR URL: " (cache.join baseUrl narinfo.url)
  let response ← httpError "failed to fetch NAR: " (cache.get narUrl)
  if !response.success then .error (.httpCache ("NAR fetch failed: " ++ response.status))
  else do
    let narData ← httpError narinfo.compression.failure (response.body narinfo.compression)
    let sha256 : Sha256Hash := ⟨hashers.sha256 narData.val⟩
    if sha256 ≠ narinfo.narHash then
      .error (.httpCache ("SHA256 mismatch: expected " ++ hexLower narinfo.narHash.bytes.toList ++
        ", got " ++ hexLower sha256.bytes.toList))
    else
      pure {
        narData, sha256
        blake3 := ⟨hashers.blake3 narData.val⟩
        narSize := .ofNat narData.val.length
        storePath := narinfo.storePath
        references := narinfo.references
        deriver := narinfo.deriver }

/-- The characters that fit in so many bytes. -/
def takeUtf8 : Nat → List Char → List Char
  | _, [] => []
  | n, c :: cs => if c.utf8Size ≤ n then c :: takeUtf8 (n - c.utf8Size) cs else []

/-- The 32-byte hash of a store path: 32 bytes followed by '-'. -/
def extractHttpStoreHash (storePath : String) : Except Error String :=
  match stripPrefix "/nix/store/" storePath with
  | none => .error (.invalidStorePath storePath)
  | some path =>
    if (utf8 path)[32]? = some '-'.toUInt8 then .ok (String.ofList (takeUtf8 32 path.toList))
    else .error (.invalidStorePath storePath)

/-- Fetch NAR by store path: the narinfo must name that very path. -/
def HttpCacheClient.fetchByStorePath (hashers : Hashers) (cache : HttpCacheClient)
    (storePath : String) : Except Error FetchResult := do
  let storeHash ← extractHttpStoreHash storePath
  let (narinfo, baseUrl) ← cache.fetchNarinfo storeHash
  if narinfo.storePath ≠ storePath then
    .error (.httpCache ("store path mismatch: expected " ++ storePath ++ ", got " ++
      narinfo.storePath))
  else cache.fetchNar hashers narinfo baseUrl

/-- A NAR from a cache is of the path asked for, and its hashes and size are its own. -/
structure FetchResult.Genuine (hashers : Hashers) (storePath : String) (result : FetchResult) :
    Prop where
  storePath : result.storePath = storePath
  blake3 : result.blake3 = ⟨hashers.blake3 result.narData.val⟩
  sha256 : result.sha256 = ⟨hashers.sha256 result.narData.val⟩
  narSize : result.narSize.toNat = result.narData.val.length

theorem fetchByStorePath_ok {hashers : Hashers} {cache : HttpCacheClient} {storePath : String}
    {result : FetchResult} (h : cache.fetchByStorePath hashers storePath = .ok result) :
    result.Genuine hashers storePath := by
  simp only [HttpCacheClient.fetchByStorePath, except_bind_ok] at h
  obtain ⟨storeHash, _, ⟨narinfo, baseUrl⟩, _, h⟩ := h
  simp only at h
  split at h
  · contradiction
  · rename_i hpath
    simp only [HttpCacheClient.fetchNar, except_bind_ok] at h
    obtain ⟨narUrl, _, response, _, h⟩ := h
    split at h
    · contradiction
    · obtain ⟨narData, _, h⟩ := except_bind_ok.mp h
      split at h
      · contradiction
      · simp only [pure, Except.pure, Except.ok.injEq] at h
        subst h
        refine ⟨Classical.not_not.mp hpath, rfl, rfl, ?_⟩
        have := narData.property
        simp only [UInt64.toNat_ofNat']
        omega

end IrohNix.Transfer
