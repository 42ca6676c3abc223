import IrohNix.Transfer.Postcard
import IrohNix.Transfer.RoundTrip

namespace IrohNix.Transfer
open IrohNix.Lib IrohNix.Index IrohNix.Nar IrohNix.Nix IrohNix.Node Logged

/-- A response that says what went wrong. -/
def errorResponse (message : String) : Bytes :=
  [0] ++ (leBytes 4 (utf8 message).length ++ utf8 message)

/-- The responses of the NAR protocol. -/
inductive IsResponse (codec : NarCodec) : Bytes → Prop where
  | success (headerBytes nar : Bytes) (header : NarResponseHeader)
      (fits : headerBytes.length < 2 ^ 32)
      (decoded : codec.header.fromBytes headerBytes = .ok header)
      (size : header.size.toNat = nar.length) : IsResponse codec (narResponse headerBytes nar)
  | error (message : String) (fits : (utf8 message).length < 2 ^ 32) :
      IsResponse codec (errorResponse message)

theorem not_isResponse_nil (codec : NarCodec) : ¬ IsResponse codec [] := by
  intro h
  generalize hb : ([] : Bytes) = bytes at h
  cases h with
  | success => cases hb
  | error => cases hb

/-- The length in front of a header delimits it. -/
theorem narResponse_inj {headerBytes headerBytes' nar nar' : Bytes}
    (fits : headerBytes.length < 2 ^ 32) (fits' : headerBytes'.length < 2 ^ 32)
    (h : narResponse headerBytes nar = narResponse headerBytes' nar') :
    headerBytes = headerBytes' ∧ nar = nar' := by
  simp only [narResponse, List.append_assoc] at h
  obtain ⟨hlen, h⟩ := List.append_inj (List.append_cancel_left h) (by simp)
  exact List.append_inj h (leBytes_inj fits fits' hlen)

/-- Behind the success marker the body has the length its header gives. -/
theorem isResponse_success_iff {codec : NarCodec} {headerBytes nar : Bytes}
    {header : NarResponseHeader} (fits : headerBytes.length < 2 ^ 32)
    (decoded : codec.header.fromBytes headerBytes = .ok header) :
    IsResponse codec (narResponse headerBytes nar) ↔ header.size.toNat = nar.length := by
  constructor
  · intro h
    generalize hb : narResponse headerBytes nar = bytes at h
    cases h with
    | success headerBytes' nar' header' fits' decoded' size =>
      obtain ⟨rfl, rfl⟩ := narResponse_inj fits fits' hb
      rw [decoded] at decoded'
      cases decoded'
      exact size
    | error => cases hb
  · intro size
    exact .success headerBytes nar header fits decoded size

/-- A message is encoded, to bytes that decode to it and whose length fits its prefix. -/
def Carried {α : Type} (codec : Postcard α) (message : α) : Prop :=
  ∃ bytes, codec.toAllocvec message = .ok bytes ∧ codec.fromBytes bytes = .ok message ∧
    bytes.length < 2 ^ 32

/-- All that an action puts on the stream, whether or not it succeeds. -/
def bytesSent (m : Action Unit) : Bytes := m.effects.flatMap sentBytes

theorem bytesSent_error {env : ServeEnv} (writes : ∀ i, env.writeFails i = none)
    (message : String) : bytesSent (sendErrorResponse env message) = errorResponse message := by
  have sent := (writeAll_yields writes 0 "failed to write error marker: " [0]).bind
    ((writeAll_yields writes 1 "failed to write error length: "
      (leBytes 4 (utf8 message).length)).bind
      (writeAll_yields writes 2 "failed to write error message: " (utf8 message)))
  exact sent.2

/-- The header goes out before it is known whether the path serializes. -/
theorem bytesSent_stream {hashers : Hashers} {env : ServeEnv} {storePath : String}
    {narSize : UInt64} {sha256 : Sha256Hash} {headerBytes : Bytes}
    (writes : ∀ i, env.writeFails i = none)
    (encoded : env.codec.header.toAllocvec ⟨narSize, sha256.bytes, storePath⟩ = .ok headerBytes) :
    bytesSent (streamNarFromPath hashers env storePath narSize sha256) =
      narResponse headerBytes (servedNar hashers env.files storePath) := by
  cases hs : serializePath hashers storePath (env.files.node storePath) with
  | ok served =>
    rw [servedNar, hs]
    exact (streamNarFromPath_yields writes encoded hs).2
  | error e =>
    obtain ⟨ok, sent⟩ := sendHeader_yields writes encoded
    have failed : (serialize hashers env.files storePath).result = .error e := hs
    rw [servedNar, hs, bytesSent, streamNarFromPath, effects_bind ok, effects_bind_error failed,
      List.flatMap_append, sent]
    rfl

/-- A NAR from a cache goes out once its header is encoded. -/
theorem bytesSent_http {hashers : Hashers} {env : ServeEnv} {cache : HttpCacheClient}
    {storePath : String} {expected : Option Blake3Hash} {result : FetchResult}
    {headerBytes : Bytes} (writes : ∀ i, env.writeFails i = none)
    (fetched : cache.fetchByStorePath hashers storePath = .ok result)
    (matching : ∀ blake3, expected = some blake3 → result.blake3 = blake3)
    (encoded : env.codec.header.toAllocvec
      ⟨result.narSize, result.sha256.bytes, result.storePath⟩ = .ok headerBytes) :
    bytesSent (fetchAndStreamFromHttp hashers env cache storePath expected) =
      narResponse headerBytes result.narData.val := by
  have none_unexpected : expected.filter (· ≠ result.blake3) = none := by
    rw [Option.filter_eq_none_iff]
    intro blake3 hb
    simp [matching blake3 hb]
  have body := (sendHeader_yields writes encoded).bind
    (sendNarData_yields writes result.narData.val)
  have lifted : (lift (cache.fetchByStorePath hashers storePath) : Action FetchResult).result =
    .ok result := fetched
  rw [bytesSent, fetchAndStreamFromHttp, effects_bind lifted, none_unexpected]
  exact body.2

/-- Nothing goes out for a fetch that fails, or that brings another NAR than expected. -/
theorem bytesSent_http_failed {hashers : Hashers} {env : ServeEnv} {cache : HttpCacheClient}
    {storePath : String} {expected : Option Blake3Hash}
    (failed : ∀ result, cache.fetchByStorePath hashers storePath = .ok result →
      ∃ blake3, expected = some blake3 ∧ result.blake3 ≠ blake3) :
    bytesSent (fetchAndStreamFromHttp hashers env cache storePath expected) = [] := by
  unfold fetchAndStreamFromHttp
  cases hf : cache.fetchByStorePath hashers storePath with
  | error e => rfl
  | ok result =>
    obtain ⟨blake3, rfl, hne⟩ := failed result hf
    have unexpected : (some blake3).filter (· ≠ result.blake3) = some blake3 := by
      simp [Option.filter_some, Ne.symm hne]
    rw [lift_ok_bind, unexpected]
    rfl

/-- The cache, if there is one, has a NAR for the path, with the hash expected of it. -/
def CacheServes (hashers : Hashers) (env : ServeEnv) (path : String)
    (expected : Option Blake3Hash) : Prop :=
  ∀ cache, env.httpCache = some cache →
    ∃ result, cache.fetchByStorePath hashers path = .ok result ∧
      ∀ blake3, expected = some blake3 → result.blake3 = blake3

/-- A path on disk has the size recorded for it, or the one Nix knows if none is recorded;
one that is not on disk can be had from the cache. -/
def Answerable (hashers : Hashers) (env : ServeEnv) (index : HashIndex) : NarRequest → Prop
  | .byBlake3 hash => ∀ entry, index.getByBlake3 ⟨hash⟩ = some entry →
    if env.files.pathExists entry.storePath then
      SizeCurrent hashers env.files entry.storePath entry.narSize
    else CacheServes hashers env entry.storePath (some ⟨hash⟩)
  | .byStorePath storePath => isValidStorePath storePath →
    if env.files.pathExists storePath then
      match index.getByStorePath storePath with
      | some entry => SizeCurrent hashers env.files storePath entry.narSize
      | none => ∃ nixInfo sha256, env.nix.query storePath = .ok nixInfo ∧
        nixInfo.sha256Bytes env.nix = .ok sha256 ∧
        SizeCurrent hashers env.files storePath nixInfo.narSize
    else CacheServes hashers env storePath none

/-- The texts of the error responses are short. -/
theorem sendErrorResponse_isResponse {env : ServeEnv} (writes : ∀ i, env.writeFails i = none)
    {message : String} (short : (utf8 message).length < 2 ^ 32) :
    IsResponse env.codec (bytesSent (sendErrorResponse env message)) := by
  rw [bytesSent_error writes]
  exact .error message short

section
variable {hashers : Hashers} {env : ServeEnv} {storePath : String}
  (writes : ∀ i, env.writeFails i = none)
  (carried : ∀ header : NarResponseHeader, header.storePath = storePath →
    Carried env.codec.header header)
include writes carried

theorem stream_isResponse_iff (narSize : UInt64) (sha256 : Sha256Hash) :
    IsResponse env.codec (bytesSent (streamNarFromPath hashers env storePath narSize sha256)) ↔
      SizeCurrent hashers env.files storePath narSize := by
  obtain ⟨headerBytes, encoded, decoded, fits⟩ := carried ⟨narSize, sha256.bytes, storePath⟩ rfl
  rw [bytesSent_stream writes encoded]
  exact isResponse_success_iff fits decoded

theorem http_isResponse_iff {cache : HttpCacheClient} (configured : env.httpCache = some cache)
    (expected : Option Blake3Hash) :
    IsResponse env.codec
        (bytesSent (fetchAndStreamFromHttp hashers env cache storePath expected)) ↔
      CacheServes hashers env storePath expected := by
  constructor
  · intro answered cache' configured'
    rw [configured] at configured'
    cases configured'
    by_contra hnone
    refine not_isResponse_nil env.codec ?_
    rwa [bytesSent_http_failed] at answered
    intro result fetched
    by_contra hmatch
    refine hnone ⟨result, fetched, fun blake3 hb => ?_⟩
    by_contra hne
    exact hmatch ⟨blake3, hb, hne⟩
  · intro serves
    obtain ⟨result, fetched, matching⟩ := serves cache configured
    have genuine := fetchByStorePath_ok fetched
    obtain ⟨headerBytes, encoded, decoded, fits⟩ :=
      carried ⟨result.narSize, result.sha256.bytes, result.storePath⟩ genuine.storePath
    rw [bytesSent_http writes fetched matching encoded]
    exact .success _ _ _ fits decoded genuine.narSize

theorem fallback_isResponse_iff (expected : Option Blake3Hash) {message : String}
    (short : (utf8 message).length < 2 ^ 32) :
    IsResponse env.codec (bytesSent (match env.httpCache with
      | some cache => fetchAndStreamFromHttp hashers env cache storePath expected
      | none => sendErrorResponse env message)) ↔ CacheServes hashers env storePath expected := by
  cases hcache : env.httpCache with
  | some cache => exact http_isResponse_iff writes carried hcache expected
  | none =>
    refine iff_of_true (sendErrorResponse_isResponse writes short) fun cache configured => ?_
    rw [hcache] at configured
    cases configured

/-- On demand nothing goes out unless Nix knows the path and its hash can be read. -/
theorem onDemand_isResponse_iff :
    IsResponse env.codec (bytesSent (do
      let nixInfo ← .lift (env.nix.query storePath)
      let sha256 ← .lift (nixInfo.sha256Bytes env.nix)
      streamNarFromPath hashers env storePath nixInfo.narSize ⟨sha256⟩)) ↔
      ∃ nixInfo sha256, env.nix.query storePath = .ok nixInfo ∧
        nixInfo.sha256Bytes env.nix = .ok sha256 ∧
        SizeCurrent hashers env.files storePath nixInfo.narSize := by
  cases hq : env.nix.query storePath with
  | error e =>
    refine iff_of_false (not_isResponse_nil env.codec) fun known => ?_
    obtain ⟨_, _, hk, _⟩ := known
    cases hk
  | ok nixInfo =>
    cases hsha : nixInfo.sha256Bytes env.nix with
    | error e =>
      refine iff_of_false (fun answered => ?_) fun known => ?_
      · rw [lift_ok_bind, hsha] at answered
        exact not_isResponse_nil env.codec answered
      · obtain ⟨_, _, hk, hread, _⟩ := known
        cases hk
        rw [hsha] at hread
        cases hread
    | ok sha256 =>
      rw [lift_ok_bind, hsha, lift_ok_bind, stream_isResponse_iff writes carried]
      constructor
      · intro current
        exact ⟨nixInfo, sha256, rfl, hsha, current⟩
      · intro known
        obtain ⟨_, _, hk, _, current⟩ := known
        cases hk
        exact current

end

/-- A request gets a response exactly if it is answerable: what fails before the header
leaves nothing on the stream, and what fails after it a body of another length. -/
theorem answered_iff (hashers : Hashers) (env : ServeEnv) (index : HashIndex)
    (request : NarRequest) (writes : ∀ i, env.writeFails i = none)
    (carried : ∀ header : NarResponseHeader,
      requestedPath index request = some header.storePath → Carried env.codec.header header) :
    IsResponse env.codec (bytesSent (handleNarRequest hashers env index request)) ↔
      Answerable hashers env index request := by
  cases request with
  | byBlake3 hash =>
    simp only [handleNarRequest, handleNarByBlake3, Answerable]
    cases hget : index.getByBlake3 ⟨hash⟩ with
    | none =>
      refine iff_of_true (sendErrorResponse_isResponse writes (by decide)) fun entry he => ?_
      cases he
    | some entry =>
      have carried' : ∀ header : NarResponseHeader, header.storePath = entry.storePath →
          Carried env.codec.header header := by
        intro header hpath
        exact carried header (by simp [requestedPath, hget, hpath])
      simp only [Option.some.injEq, forall_eq']
      by_cases onDisk : env.files.pathExists entry.storePath
      · rw [if_pos onDisk, if_pos onDisk]
        exact stream_isResponse_iff writes carried' _ _
      · rw [if_neg onDisk, if_neg onDisk]
        exact fallback_isResponse_iff writes carried' _ (by decide)
  | byStorePath storePath =>
    simp only [handleNarRequest, handleNarByStorePath, Answerable]
    cases hvalid : isValidStorePath storePath with
    | false =>
      refine iff_of_true (sendErrorResponse_isResponse writes (by decide)) fun hv => ?_
      cases hv
    | true =>
      have carried' : ∀ header : NarResponseHeader, header.storePath = storePath →
          Carried env.codec.header header := by
        intro header hpath
        exact carried header (by simp [requestedPath, hvalid, hpath])
      simp only [Bool.not_true, Bool.false_eq_true, if_false, forall_const]
      by_cases onDisk : env.files.pathExists storePath
      · rw [if_pos onDisk, if_pos onDisk]
        cases hget : index.getByStorePath storePath with
        | some entry => exact stream_isResponse_iff writes carried' _ _
        | none => exact onDemand_isResponse_iff writes carried'
      · rw [if_neg onDisk, if_neg onDisk]
        exact fallback_isResponse_iff writes carried' _ (by decide)

/-- A header as `postcard` writes it. -/
def headerWire : Wire NarResponseHeader :=
  (Wire.u64.pair ((Wire.array .byte 32).pair .text)).adapt
    (fun header => (header.size, header.sha256, header.storePath))
    (fun fields => some ⟨fields.1, fields.2.1, fields.2.2⟩) fun _ => rfl

theorem headerWire_length (header : NarResponseHeader) :
    (headerWire.write header).length = (writeVarint header.size.toNat).length + 32 +
      (writeVarint (utf8 header.storePath).length).length + (utf8 header.storePath).length := by
  have written : headerWire.write header = writeVarint header.size.toNat ++
      (header.sha256.toList.flatMap Wire.byte.write ++
        (writeVarint (utf8 header.storePath).length ++
          (utf8 header.storePath).flatMap Wire.byte.write)) := rfl
  rw [written, Wire.flatMap_byte, Wire.flatMap_byte]
  simp only [List.length_append, Vector.length_toList]
  omega

/-- `postcard` carries the header of any path that fits in memory. -/
theorem headerWire_carries {header : NarResponseHeader}
    (short : (utf8 header.storePath).length < 2 ^ 31) :
    Carried (Postcard.ofWire headerWire) header := by
  obtain ⟨bytes, encoded, decoded⟩ := Postcard.ofWire_roundTrips headerWire header
  refine ⟨bytes, encoded, decoded, ?_⟩
  have size : (writeVarint header.size.toNat).length ≤ 10 :=
    writeVarint_length (Nat.lt_of_lt_of_le header.size.toNat_lt (by decide))
  have path : (writeVarint (utf8 header.storePath).length).length ≤ 5 :=
    writeVarint_length (Nat.lt_of_lt_of_le short (by decide))
  have whole := headerWire_length header
  cases encoded
  omega

/-- A node with one small file at every path, and no row about it. -/
def wireEnv : ServeEnv := { oneFileEnv with codec := ⟨shortCodec.request, .ofWire headerWire⟩ }

/-- A row about the file, with this size. -/
def sizedEntry (narSize : UInt64) : HashEntry :=
  ⟨⟨zeroBytes32⟩, ⟨zeroBytes32⟩, "/nix/store/a", narSize, [], none⟩

theorem wireEnv_carries {header : NarResponseHeader} (hpath : header.storePath = "/nix/store/a") :
    Carried wireEnv.codec.header header := by
  refine headerWire_carries ?_
  rw [hpath]
  decide

theorem answered_current :
    IsResponse wireEnv.codec (bytesSent (handleNarRequest zeroHashers wireEnv
      (.insert .empty (sizedEntry 120)) (.byBlake3 zeroBytes32))) := by
  refine (answered_iff zeroHashers wireEnv _ _ (fun _ => rfl) ?_).mpr ?_
  · intro header asked
    exact wireEnv_carries (Option.some.inj asked).symm
  · intro entry he
    cases Option.some.inj he
    exact rfl

/-- A path Nix does not know gets nothing, and a stale size a body of another length. -/
theorem unanswered :
    ¬ IsResponse wireEnv.codec (bytesSent (handleNarRequest zeroHashers wireEnv .empty
      (.byStorePath "/nix/store/a"))) ∧
    ¬ IsResponse wireEnv.codec (bytesSent (handleNarRequest zeroHashers wireEnv
      (.insert .empty (sizedEntry 7)) (.byBlake3 zeroBytes32))) := by
  refine ⟨not_isResponse_nil _, fun answered => ?_⟩
  have current : SizeCurrent zeroHashers wireEnv.files "/nix/store/a" 7 :=
    (stream_isResponse_iff (fun _ => rfl) (fun _ => wireEnv_carries) 7 ⟨zeroBytes32⟩).mp answered
  have size : (servedNar zeroHashers wireEnv.files "/nix/store/a").length = 120 := rfl
  rw [SizeCurrent, size] at current
  contradiction

end IrohNix.Transfer
