import IrohNix.Lib.Effects
import IrohNix.Transfer.Retry
import IrohNix.Transfer.Stream

namespace IrohNix.Transfer
open IrohNix.Lib

/-- Request to fetch a NAR: by BLAKE3 hash or by store path. -/
inductive NarRequest where
  | byBlake3 (hash : Bytes32)
  | byStorePath (storePath : String)
deriving DecidableEq

/-- Response header for NAR transfer. -/
structure NarResponseHeader where
  size : UInt64
  sha256 : Bytes32
  storePath : String
deriving DecidableEq

/-- The messages of the NAR protocol as bytes. -/
structure NarCodec where
  request : Postcard NarRequest
  header : Postcard NarResponseHeader

/-- `postcard`'s bytes for headers whose size and path length are below 128, to run
the model on small inputs. -/
def shortHeader : Postcard NarResponseHeader where
  toAllocvec := fun header =>
    let path := utf8 header.storePath
    if header.size < 128 && path.length < 128 then
      .ok (header.size.toUInt8 :: header.sha256.toList ++ .ofNat path.length :: path)
    else .error "too long"
  fromBytes := fun bytes =>
    match bytes with
    | size :: rest =>
      if size < 128 && (rest.drop 32).length = 1 + (rest.getD 32 0).toNat then
        .ok ⟨size.toUInt64, Vector.ofFn fun i => rest.getD i 0, utf8Lossy (rest.drop 33)⟩
      else .error "unexpected end"
    | [] => .error "unexpected end"

def shortCodec : NarCodec where
  header := shortHeader
  request := {
    toAllocvec := fun
      | .byBlake3 hash => .ok (0 :: hash.toList)
      | .byStorePath storePath => .ok (1 :: .ofNat (utf8 storePath).length :: utf8 storePath)
    fromBytes := fun _ => .error "not read" }

/-- Maximum NAR size accepted: 10 GB. -/
def maxNarSize : UInt64 := 10 * 1024 * 1024 * 1024

def transferBufferSize : Nat := 64 * 1024

/-- One attempt at an exchange with a remote node: whether the connection and
the stream open and the request is taken, and what the node answers. -/
structure NarExchange where
  connect : Except String Unit
  openBi : Except String Unit
  writeLength : Except String Unit
  writeRequest : Except String Unit
  response : RecvStream
deriving Inhabited

/-- A node that takes any request and answers with these bytes, all at once. -/
def NarExchange.answering (response : Bytes) : NarExchange where
  connect := .ok ()
  openBi := .ok ()
  writeLength := .ok ()
  writeRequest := .ok ()
  response := ⟨[response], none, "stream finished early"⟩

/-- A failure reported as a protocol error. -/
def protocolError {α : Type} (what : String) (outcome : Except String α) : Except Error α :=
  outcome.mapError fun e => .protocol (what ++ e)

@[simp] theorem protocolError_ok {α : Type} {what : String} {outcome : Except String α} {a : α} :
    protocolError what outcome = .ok a ↔ outcome = .ok a := by
  cases outcome <;> simp [protocolError, Except.mapError]

/-- The NAR behind the header, a buffer at a time. Each read takes at least one
byte, so as much fuel as there are bytes is enough. -/
def readNarData : Nat → Nat → RecvStream → Except Error Bytes
  | 0, _, _ => .ok []
  | fuel + 1, remaining, recv =>
    if remaining = 0 then .ok []
    else do
      match ← protocolError "failed to read NAR data: "
          (recv.read (min remaining transferBufferSize)) with
      | none => .error (.protocol "unexpected end of stream")
      | some (buf, rest) =>
        if buf.isEmpty then .error (.protocol "unexpected end of stream")
        else do
          let data ← readNarData fuel (remaining - buf.length) rest
          pure (buf ++ data)

/-- An error response: its text, of which 1024 bytes are read. -/
def readErrorResponse (recv : RecvStream) : Except Error (NarResponseHeader × Bytes) := do
  let (lenBuf, recv) ← protocolError "failed to read error length: " (recv.readExact 4)
  let (msgBuf, _) ← protocolError "failed to read error: "
    (recv.readExact (min (ofLeBytes lenBuf) 1024))
  .error (.remote (utf8Lossy msgBuf))

/-- A response: its status, and if that is not an error the header and the NAR,
whose BLAKE3 hash must be the one asked for. -/
def readResponse (hashers : Hashers) (codec : NarCodec) (blake3 : Blake3Hash) (recv : RecvStream) :
    Except Error (NarResponseHeader × Bytes) := do
  let (status, recv) ← protocolError "failed to read status: " (recv.readExact 1)
  if status = [0] then readErrorResponse recv
  else do
    let (lenBuf, recv) ← protocolError "failed to read header length: " (recv.readExact 4)
    let headerLen := ofLeBytes lenBuf
    if headerLen > 64 * 1024 then .error (.protocol "header too large")
    else do
      let (headerBuf, recv) ← protocolError "failed to read header: " (recv.readExact headerLen)
      let header ← protocolError "invalid header: " (codec.header.fromBytes headerBuf)
      if header.size > maxNarSize then
        .error (.protocol ("NAR too large: " ++ toString header.size ++ " bytes"))
      else do
        let narData ← readNarData header.size.toNat header.size.toNat recv
        if hashers.blake3 narData ≠ blake3.bytes then
          .error (.protocol ("BLAKE3 hash mismatch: expected " ++ hexLower blake3.bytes.toList ++
            ", got " ++ hexLower (hashers.blake3 narData).toList))
        else pure (header, narData)

/-- Fetch a NAR from a remote node, without retrying. -/
def fetchNarOnce (hashers : Hashers) (codec : NarCodec) (peer : NarExchange) (blake3 : Blake3Hash) :
    Except Error (NarResponseHeader × Bytes) := do
  peer.connect.mapError .connection
  protocolError "failed to open stream: " peer.openBi
  let _ ← protocolError "failed to serialize request: "
    (codec.request.toAllocvec (.byBlake3 blake3.bytes))
  protocolError "failed to write request length: " peer.writeLength
  protocolError "failed to write request: " peer.writeRequest
  readResponse hashers codec blake3 peer.response

/-- Fetch a NAR from a remote node, given what each attempt meets. -/
def fetchNarWithConfig (hashers : Hashers) (codec : NarCodec) (config : RetryConfig)
    (peer : Nat → NarExchange) (blake3 : Blake3Hash) : Except Error (NarResponseHeader × Bytes) :=
  withRetry config fun attempt => fetchNarOnce hashers codec (peer attempt) blake3

/-- The loop reads exactly the bytes the header announces. -/
theorem readNarData_length {fuel remaining : Nat} {recv : RecvStream} {data : Bytes}
    (hfuel : remaining ≤ fuel) (h : readNarData fuel remaining recv = .ok data) :
    data.length = remaining := by
  induction fuel generalizing remaining recv data with
  | zero =>
    simp only [readNarData, Except.ok.injEq] at h
    subst h
    simp; omega
  | succ fuel ih =>
    unfold readNarData at h
    split at h
    · rename_i hzero
      simp only [Except.ok.injEq] at h
      simp [← h, hzero]
    · rw [except_bind_ok] at h
      obtain ⟨answer, hread, h⟩ := h
      cases answer with
      | none => simp at h
      | some piece =>
        obtain ⟨buf, rest⟩ := piece
        simp only at h
        split at h
        · simp at h
        · rename_i hne
          rw [except_bind_ok] at h
          obtain ⟨tail, htail, h⟩ := h
          simp only [pure, Except.pure, Except.ok.injEq] at h
          have hlen : buf.length ≤ min remaining transferBufferSize :=
            RecvStream.read_length (protocolError_ok.mp hread)
          have hpos : 0 < buf.length := by
            simpa [List.length_pos_iff] using hne
          have := ih (by omega) htail
          simp only [← h, List.length_append, this]
          omega

/-- What the receiver of a NAR has checked. -/
structure Received (hashers : Hashers) (blake3 : Blake3Hash) (header : NarResponseHeader)
    (data : Bytes) : Prop where
  size : data.length = header.size.toNat
  bounded : header.size ≤ maxNarSize
  hash : hashers.blake3 data = blake3.bytes

theorem readResponse_ok {hashers : Hashers} {codec : NarCodec} {blake3 : Blake3Hash}
    {recv : RecvStream} {header : NarResponseHeader} {data : Bytes}
    (h : readResponse hashers codec blake3 recv = .ok (header, data)) :
    Received hashers blake3 header data := by
  unfold readResponse at h
  simp only [except_bind_ok, protocolError_ok] at h
  obtain ⟨⟨status, afterStatus⟩, _, h⟩ := h
  simp only at h
  split at h
  · simp only [readErrorResponse, except_bind_ok] at h
    obtain ⟨_, _, _, _, h⟩ := h
    contradiction
  · obtain ⟨⟨lenBuf, afterLen⟩, _, h⟩ := except_bind_ok.mp h
    simp only at h
    split at h
    · contradiction
    · obtain ⟨⟨headerBuf, afterHeader⟩, _, h⟩ := except_bind_ok.mp h
      obtain ⟨sent, _, h⟩ := except_bind_ok.mp h
      split at h
      · contradiction
      · rename_i hbounded
        obtain ⟨nar, hread, h⟩ := except_bind_ok.mp h
        split at h
        · contradiction
        · rename_i hhash
          simp only [pure, Except.pure, Except.ok.injEq, Prod.mk.injEq] at h
          obtain ⟨rfl, rfl⟩ := h
          exact ⟨readNarData_length (Nat.le_refl _) hread, UInt64.not_lt.mp hbounded,
            Classical.not_not.mp hhash⟩

theorem fetchNarOnce_ok {hashers : Hashers} {codec : NarCodec} {peer : NarExchange}
    {blake3 : Blake3Hash} {header : NarResponseHeader} {data : Bytes}
    (h : fetchNarOnce hashers codec peer blake3 = .ok (header, data)) :
    Received hashers blake3 header data := by
  simp only [fetchNarOnce, except_bind_ok] at h
  obtain ⟨_, _, _, _, _, _, _, _, _, _, h⟩ := h
  exact readResponse_ok h

/-- The empty NAR, as a store path's. -/
def emptyNarResponse (storePath : String) : Bytes :=
  1 :: leBytes 4 (34 + (utf8 storePath).length) ++
    (0 :: List.replicate 32 0 ++ .ofNat (utf8 storePath).length :: utf8 storePath)

example : fetchNarOnce zeroHashers shortCodec (.answering (emptyNarResponse "/nix/store/a"))
    ⟨zeroBytes32⟩ = .ok (⟨0, zeroBytes32, "/nix/store/a"⟩, []) := by decide +kernel

/-- A NAR that a fetch returns is of the size its header announces, and has the
BLAKE3 hash asked for. -/
theorem fetchNarWithConfig_ok {hashers : Hashers} {codec : NarCodec} {config : RetryConfig}
    {peer : Nat → NarExchange} {blake3 : Blake3Hash} {header : NarResponseHeader} {data : Bytes}
    (h : fetchNarWithConfig hashers codec config peer blake3 = .ok (header, data)) :
    Received hashers blake3 header data := by
  obtain ⟨attempt, ho⟩ := withRetry_ok h
  exact fetchNarOnce_ok ho

end IrohNix.Transfer
