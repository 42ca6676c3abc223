import IrohNix.Transfer.Answers
import IrohNix.Transfer.Providers

namespace IrohNix.Transfer
open IrohNix.Lib IrohNix.Index IrohNix.Nar IrohNix.Nix IrohNix.Node Logged

/-- Read a NAR request from a stream. -/
def readNarRequest (codec : NarCodec) (recv : RecvStream) : Except Error NarRequest := do
  let (lenBuf, recv) ← protocolError "failed to read request length: " (recv.readExact 4)
  let len := ofLeBytes lenBuf
  if len > 1024 then .error (.protocol "request too large")
  else do
    let (buf, _) ← protocolError "failed to read request: " (recv.readExact len)
    protocolError "invalid request: " (codec.request.fromBytes buf)

/-- Handle an accepted NAR request connection, with the stream that comes in on it. -/
def handleNarAccepted (hashers : Hashers) (env : ServeEnv) (index : HashIndex)
    (acceptBi : Except String RecvStream) : Action Unit := do
  let recv ← .lift (protocolError "failed to accept stream: " acceptBi)
  let request ← .lift (readNarRequest env.codec recv)
  handleNarRequest hashers env index request

/-- A request behind its length, as it is sent. -/
def requestMessage (requestBytes : Bytes) : Bytes :=
  leBytes 4 requestBytes.length ++ requestBytes

/-- A request of at most 1024 bytes is read, whatever follows it. -/
theorem readNarRequest_complete {codec : NarCodec} {request : NarRequest} {bytes extra : Bytes}
    {recv : RecvStream} (decoded : codec.request.fromBytes bytes = .ok request)
    (short : bytes.length ≤ 1024) (holds : recv.Holds (requestMessage bytes ++ extra)) :
    readNarRequest codec recv = .ok request := by
  rw [requestMessage, List.append_assoc] at holds
  obtain ⟨afterLength, hlength, holds⟩ := holds.readExact
  obtain ⟨afterRequest, hrequest, _⟩ := holds.readExact
  rw [leBytes_length] at hlength
  have announced : ofLeBytes (leBytes 4 bytes.length) = bytes.length :=
    ofLeBytes_leBytes (by omega)
  unfold readNarRequest
  refine except_bind_ok.mpr ⟨_, protocolError_ok.mpr hlength, ?_⟩
  simp only [announced]
  rw [if_neg (Nat.not_lt.mpr short)]
  refine except_bind_ok.mpr ⟨_, protocolError_ok.mpr hrequest, ?_⟩
  exact protocolError_ok.mpr decoded

/-- Whatever comes in on a stream, a node does nothing unless it is a request, and then what
that asks for. -/
theorem handleNarAccepted_does (hashers : Hashers) (env : ServeEnv) (index : HashIndex)
    (acceptBi : Except String RecvStream) :
    (handleNarAccepted hashers env index acceptBi).Only fun e =>
      ∃ recv request, acceptBi = .ok recv ∧ readNarRequest env.codec recv = .ok request ∧
        NarRequestDoes hashers env index request e := by
  unfold handleNarAccepted
  refine .bind (by simp [Logged.Only]) fun recv accepted => ?_
  refine .bind (by simp [Logged.Only]) fun request read => ?_
  intro e he
  exact ⟨recv, request, protocolError_ok.mp accepted, read,
    handleNarRequest_does hashers env index request e he⟩

/-- The node answers the request that was sent to it. -/
theorem handleNarAccepted_read {hashers : Hashers} {env : ServeEnv} {index : HashIndex}
    {recv : RecvStream} {request : NarRequest}
    (read : readNarRequest env.codec recv = .ok request) :
    handleNarAccepted hashers env index (.ok recv) =
      handleNarRequest hashers env index request := by
  have accepted : protocolError "failed to accept stream: " (.ok recv) = .ok recv := rfl
  rw [handleNarAccepted, accepted, lift_ok_bind, read, lift_ok_bind]

section Reading
variable {hashers : Hashers} {codec : NarCodec} {blake3 : Blake3Hash} {recv : RecvStream}

/-- A NAR that ends too early is noticed. -/
theorem readNarData_short {fuel remaining : Nat} {bytes : Bytes} (ends : recv.Ends bytes)
    (short : bytes.length < remaining) (enough : remaining ≤ fuel) :
    readNarData fuel remaining recv = .error (.protocol "unexpected end of stream") := by
  induction fuel generalizing remaining recv bytes with
  | zero => omega
  | succ fuel ih =>
    unfold readNarData
    rw [if_neg (by omega)]
    by_cases done : bytes = []
    · subst done
      rw [protocolError_ok.mpr (ends.read_nil _)]
      rfl
    · have room : 0 < min remaining transferBufferSize := by
        simp only [transferBufferSize]
        omega
      obtain ⟨buf, rest, bytes', hread, hbuf, hrest, rfl⟩ := ends.holds.read done room
      have unbroken := (RecvStream.read_same hread).1.trans ends.unbroken
      have hlen := RecvStream.read_length hread
      have hpos := List.length_pos_iff.mpr hbuf
      rw [List.length_append] at short
      have shorter : bytes'.length < remaining - buf.length := by omega
      have later := ih ⟨hrest, unbroken⟩ shorter (by omega)
      rw [protocolError_ok.mpr hread]
      simp only [Bind.bind, Except.bind, List.isEmpty_eq_false_iff.mpr hbuf, later]
      rfl

/-- A refusal is read as the error it is. -/
theorem readResponse_refused {message : String} {extra : Bytes}
    (short : (utf8 message).length ≤ 1024)
    (holds : recv.Holds (errorResponse message ++ extra)) :
    readResponse hashers codec blake3 recv = .error (.remote message) := by
  simp only [errorResponse, List.append_assoc] at holds
  obtain ⟨afterStatus, hstatus, holds⟩ := holds.readExact
  obtain ⟨afterLength, hlength, holds⟩ := holds.readExact
  obtain ⟨afterMessage, hmessage, _⟩ := holds.readExact
  rw [leBytes_length] at hlength
  have announced : ofLeBytes (leBytes 4 (utf8 message).length) = (utf8 message).length :=
    ofLeBytes_leBytes (by omega)
  have status : recv.readExact 1 = .ok ([0], afterStatus) := hstatus
  rw [readResponse, protocolError_ok.mpr status]
  simp only [Bind.bind, Except.bind, if_true]
  rw [readErrorResponse, protocolError_ok.mpr hlength]
  simp only [Bind.bind, Except.bind, announced, Nat.min_eq_left short,
    protocolError_ok.mpr hmessage, utf8Lossy_utf8]

/-- A node that closes the stream without an answer. -/
theorem readResponse_nothing (ends : recv.Ends []) :
    readResponse hashers codec blake3 recv =
      .error (.protocol ("failed to read status: " ++ recv.finishedEarly)) := by
  rw [readResponse, ends.readExact_nil Nat.one_pos]
  rfl

end Reading


section Messages

/-- A text without some character of the part does not contain it. -/
theorem not_contains {message part : String} (c : Char) (missing : c ∉ message.toList)
    (hc : c ∈ part.toList) : contains message part = false :=
  decide_eq_false fun found => missing (found.subset hc)

theorem contains_behind {message part : String} (what : String)
    (h : contains message part = true) : contains (what ++ message) part = true := by
  have there : part.toList <:+: message.toList := of_decide_eq_true h
  refine decide_eq_true ?_
  rw [String.toList_append]
  exact there.trans (List.suffix_append _ _).isInfix

theorem hexLower_plain (bytes : Bytes) {c : Char} (other : ∀ n < 16, hexDigit n ≠ c) :
    c ∉ (hexLower bytes).toList := by
  intro h
  obtain ⟨n, hn, rfl⟩ := mem_hexLower h
  exact other n hn rfl

theorem toString_plain (n : UInt64) {c : Char} (other : c.isDigit = false) :
    c ∉ (toString n).toList := by
  have digits : (toString n).toList = Nat.toDigits 10 n.toNat := Nat.toList_repr
  intro h
  rw [digits] at h
  rw [Nat.isDigit_of_mem_toDigits (by omega) (by omega) h] at other
  cases other

/-- Text around two hashes is without the characters that it has none of. -/
theorem mismatch_plain (expected got : Bytes) {c : Char} (other : ∀ n < 16, hexDigit n ≠ c)
    (text : c ∉ "BLAKE3 hash mismatch: expected , got ".toList) :
    c ∉ ("BLAKE3 hash mismatch: expected " ++ hexLower expected ++ ", got " ++
      hexLower got).toList := by
  have whole : "BLAKE3 hash mismatch: expected , got ".toList =
      "BLAKE3 hash mismatch: expected ".toList ++ ", got ".toList := by
    rw [← String.toList_append]
    rfl
  rw [whole, List.mem_append, not_or] at text
  simp only [String.toList_append, List.mem_append, not_or]
  exact ⟨⟨⟨text.1, hexLower_plain _ other⟩, text.2⟩, hexLower_plain _ other⟩

/-- A node that sends another NAR is not asked again. -/
theorem mismatch_permanent (expected got : Bytes) :
    isRetryable (.protocol ("BLAKE3 hash mismatch: expected " ++ hexLower expected ++ ", got " ++
      hexLower got)) = false := by
  have noR := mismatch_plain expected got (c := 'r') (by decide +kernel) (by decide +kernel)
  have noN := mismatch_plain expected got (c := 'n') (by decide +kernel) (by decide +kernel)
  have noU := mismatch_plain expected got (c := 'u') (by decide +kernel) (by decide +kernel)
  rw [isRetryable, not_contains 'r' noR (by decide), not_contains 'n' noN (by decide),
    not_contains 'u' noU (by decide), not_contains 'r' noR (by decide)]
  rfl

/-- Without its last character a text still contains a part without its own. -/
theorem infix_dropLast {text : List Char} (front : List Char) (c : Char)
    (h : front ++ [c] <:+: text) : front <:+: text.dropLast := by
  obtain ⟨before, after, rfl⟩ := h
  refine ⟨before, (c :: after).dropLast, ?_⟩
  have split : before ++ (front ++ [c]) ++ after = before ++ front ++ c :: after := by simp
  rw [split, List.dropLast_append_of_ne_nil (List.cons_ne_nil _ _)]

theorem tooLarge_permanent (size : UInt64) :
    isRetryable (.protocol ("NAR too large: " ++ toString size ++ " bytes")) = false := by
  have plain : ∀ c, c.isDigit = false → c ∉ "NAR too large:  byte".toList →
      c ∉ ("NAR too large: " ++ toString size ++ " byte").toList := by
    intro c other text
    have whole : "NAR too large:  byte".toList = "NAR too large: ".toList ++ " byte".toList := by
      rw [← String.toList_append]
      rfl
    rw [whole, List.mem_append, not_or] at text
    simp only [String.toList_append, List.mem_append, not_or]
    exact ⟨⟨text.1, toString_plain size other⟩, text.2⟩
  have last : ("NAR too large: " ++ toString size ++ " bytes").toList =
      ("NAR too large: " ++ toString size ++ " byte").toList ++ ['s'] := by
    simp only [String.toList_append, List.append_assoc]
    rfl
  have missing : ∀ c, c ≠ 's' → c.isDigit = false → c ∉ "NAR too large:  byte".toList →
      c ∉ ("NAR too large: " ++ toString size ++ " bytes").toList := by
    intro c hne other text
    rw [last, List.mem_append, not_or, List.mem_singleton]
    exact ⟨plain c other text, hne⟩
  have noM := missing 'm' (by decide) rfl (by decide +kernel)
  have noC := missing 'c' (by decide) rfl (by decide +kernel)
  have noReset : contains ("NAR too large: " ++ toString size ++ " bytes") "reset" = false := by
    refine decide_eq_false fun found => plain 's' rfl (by decide +kernel) ?_
    have shorter := infix_dropLast "rese".toList 't' found
    rw [last, List.dropLast_concat] at shorter
    exact shorter.subset (by decide +kernel)
  rw [isRetryable, not_contains 'm' noM (by decide), not_contains 'c' noC (by decide),
    not_contains 'm' noM (by decide), noReset]
  rfl

end Messages

/-- What the requester of a hash makes of a header and what comes behind it. -/
def judge (hashers : Hashers) (blake3 : Blake3Hash) (headerLen : Nat) (header : NarResponseHeader)
    (nar : Bytes) : Except Error (NarResponseHeader × Bytes) :=
  if headerLen > 64 * 1024 then .error (.protocol "header too large")
  else if header.size > maxNarSize then
    .error (.protocol ("NAR too large: " ++ toString header.size ++ " bytes"))
  else if nar.length < header.size.toNat then .error (.protocol "unexpected end of stream")
  else if hashers.blake3 (nar.take header.size.toNat) ≠ blake3.bytes then
    .error (.protocol ("BLAKE3 hash mismatch: expected " ++ hexLower blake3.bytes.toList ++
      ", got " ++ hexLower (hashers.blake3 (nar.take header.size.toNat)).toList))
  else .ok (header, nar.take header.size.toNat)

/-- A header and what comes behind it, read from a stream that ends there. -/
theorem readResponse_offered {hashers : Hashers} {codec : NarCodec} {blake3 : Blake3Hash}
    {header : NarResponseHeader} {headerBytes nar : Bytes} {recv : RecvStream}
    (decoded : codec.header.fromBytes headerBytes = .ok header)
    (fits : headerBytes.length < 2 ^ 32) (ends : recv.Ends (narResponse headerBytes nar)) :
    readResponse hashers codec blake3 recv = judge hashers blake3 headerBytes.length header nar := by
  simp only [narResponse, List.append_assoc] at ends
  obtain ⟨afterStatus, hstatus, ends⟩ := ends.readExact
  obtain ⟨afterLength, hlength, ends⟩ := ends.readExact
  obtain ⟨afterHeader, hheader, ends⟩ := ends.readExact
  rw [leBytes_length] at hlength
  have status : recv.readExact 1 = .ok ([1], afterStatus) := hstatus
  have announced : ofLeBytes (leBytes 4 headerBytes.length) = headerBytes.length :=
    ofLeBytes_leBytes fits
  have failure : ([1] : Bytes) ≠ [0] := by decide
  rw [readResponse, judge, protocolError_ok.mpr status]
  simp only [Bind.bind, Except.bind, if_neg failure, protocolError_ok.mpr hlength, announced]
  by_cases large : headerBytes.length > 64 * 1024
  · rw [if_pos large, if_pos large]
  rw [if_neg large, if_neg large]
  simp only [protocolError_ok.mpr hheader, protocolError_ok.mpr decoded]
  by_cases huge : header.size > maxNarSize
  · rw [if_pos huge, if_pos huge]
  rw [if_neg huge, if_neg huge]
  by_cases short : nar.length < header.size.toNat
  · rw [readNarData_short ends short (Nat.le_refl _), if_pos short]
  have whole : afterHeader.Holds (nar.take header.size.toNat ++ nar.drop header.size.toNat) := by
    rw [List.take_append_drop]
    exact ends.holds
  have size : (nar.take header.size.toNat).length = header.size.toNat := by
    rw [List.length_take]
    omega
  have read := readNarData_complete whole (Nat.le_of_eq size)
  rw [size] at read
  rw [read, if_neg short]
  simp only
  rfl

/-- What a requester can accept for a hash. -/
structure Acceptable (hashers : Hashers) (blake3 : Blake3Hash) (headerLen : Nat)
    (header : NarResponseHeader) (nar data : Bytes) : Prop where
  headerFits : headerLen ≤ 64 * 1024
  bounded : header.size ≤ maxNarSize
  enough : header.size.toNat ≤ nar.length
  announced : data = nar.take header.size.toNat
  hash : hashers.blake3 data = blake3.bytes

section Judging
variable {hashers : Hashers} {blake3 : Blake3Hash} {headerLen : Nat}
  {header : NarResponseHeader} {nar : Bytes}

theorem judge_ok {received : NarResponseHeader} {data : Bytes} :
    judge hashers blake3 headerLen header nar = .ok (received, data) ↔
      received = header ∧ Acceptable hashers blake3 headerLen header nar data := by
  unfold judge
  constructor
  · intro h
    split at h
    · cases h
    · rename_i fits
      split at h
      · cases h
      · rename_i bounded
        split at h
        · cases h
        · rename_i enough
          split at h
          · cases h
          · rename_i hash
            cases h
            exact ⟨rfl, Nat.not_lt.mp fits, UInt64.not_lt.mp bounded, Nat.not_lt.mp enough, rfl,
              Classical.not_not.mp hash⟩
  · intro h
    obtain ⟨rfl, fits, bounded, enough, rfl, hash⟩ := h
    rw [if_neg (Nat.not_lt.mpr fits), if_neg (UInt64.not_lt.mpr bounded),
      if_neg (Nat.not_lt.mpr enough), if_neg (Classical.not_not.mpr hash)]

/-- Only a NAR that ends before its announced size is worth another try. -/
theorem judge_retryable :
    (∃ e, judge hashers blake3 headerLen header nar = .error e ∧ isRetryable e = true) ↔
      headerLen ≤ 64 * 1024 ∧ header.size ≤ maxNarSize ∧ nar.length < header.size.toNat := by
  unfold judge
  constructor
  · intro h
    obtain ⟨e, h, retryable⟩ := h
    split at h
    · cases h
      have permanent : isRetryable (.protocol "header too large") = false := by decide +kernel
      rw [permanent] at retryable
      cases retryable
    · rename_i fits
      split at h
      · cases h
        rw [tooLarge_permanent] at retryable
        cases retryable
      · rename_i bounded
        split at h
        · rename_i short
          exact ⟨Nat.not_lt.mp fits, UInt64.not_lt.mp bounded, short⟩
        · split at h
          · cases h
            rw [mismatch_permanent] at retryable
            cases retryable
          · cases h
  · intro h
    obtain ⟨fits, bounded, short⟩ := h
    refine ⟨.protocol "unexpected end of stream", ?_, by decide +kernel⟩
    rw [if_neg (Nat.not_lt.mpr fits), if_neg (UInt64.not_lt.mpr bounded), if_pos short]

theorem judge_not_remote {message : String} :
    judge hashers blake3 headerLen header nar ≠ .error (.remote message) := by
  intro h
  unfold judge at h
  repeat' split at h
  all_goals cases h

end Judging

section Offered

/-- The header and NAR a node has for a hash: of the path indexed, as it is on disk, or from
a cache that has the NAR of that hash. -/
inductive Offers (hashers : Hashers) (env : ServeEnv) (index : HashIndex) (blake3 : Blake3Hash) :
    NarResponseHeader → Bytes → Prop where
  | onDisk (entry : HashEntry) (indexed : index.getByBlake3 blake3 = some entry)
      (there : env.files.pathExists entry.storePath = true) :
      Offers hashers env index blake3 ⟨entry.narSize, entry.sha256.bytes, entry.storePath⟩
        (servedNar hashers env.files entry.storePath)
  | cached (entry : HashEntry) (cache : HttpCacheClient) (result : FetchResult)
      (indexed : index.getByBlake3 blake3 = some entry)
      (missing : env.files.pathExists entry.storePath = false)
      (configured : env.httpCache = some cache)
      (fetched : cache.fetchByStorePath hashers entry.storePath = .ok result)
      (same : result.blake3 = blake3) :
      Offers hashers env index blake3 ⟨result.narSize, result.sha256.bytes, result.storePath⟩
        result.narData.val

/-- What a node says about a hash it has nothing for. -/
inductive Refuses (env : ServeEnv) (index : HashIndex) (blake3 : Blake3Hash) : String → Prop where
  | unknown (unindexed : index.getByBlake3 blake3 = none) :
      Refuses env index blake3 "hash not found in index"
  | missing (entry : HashEntry) (indexed : index.getByBlake3 blake3 = some entry)
      (missing : env.files.pathExists entry.storePath = false) (uncached : env.httpCache = none) :
      Refuses env index blake3 "store path not found on disk"

/-- The path indexed is not on disk, and its cache has not got that NAR: the node does not
answer. -/
inductive Silent (hashers : Hashers) (env : ServeEnv) (index : HashIndex) (blake3 : Blake3Hash) :
    Prop where
  | failed (entry : HashEntry) (cache : HttpCacheClient)
      (indexed : index.getByBlake3 blake3 = some entry)
      (missing : env.files.pathExists entry.storePath = false)
      (configured : env.httpCache = some cache)
      (other : ∀ result, cache.fetchByStorePath hashers entry.storePath = .ok result →
        result.blake3 ≠ blake3)

variable {hashers : Hashers} {env : ServeEnv} {index : HashIndex} {blake3 : Blake3Hash}

theorem offers_or (hashers : Hashers) (env : ServeEnv) (index : HashIndex) (blake3 : Blake3Hash) :
    (∃ header nar, Offers hashers env index blake3 header nar) ∨
      (∃ message, Refuses env index blake3 message) ∨ Silent hashers env index blake3 := by
  cases indexed : index.getByBlake3 blake3 with
  | none => exact .inr (.inl ⟨_, .unknown indexed⟩)
  | some entry =>
    cases there : env.files.pathExists entry.storePath with
    | true => exact .inl ⟨_, _, .onDisk entry indexed there⟩
    | false =>
      cases configured : env.httpCache with
      | none => exact .inr (.inl ⟨_, .missing entry indexed there configured⟩)
      | some cache =>
        by_cases had : ∃ result, cache.fetchByStorePath hashers entry.storePath = .ok result ∧
            result.blake3 = blake3
        · obtain ⟨result, fetched, same⟩ := had
          exact .inl ⟨_, _, .cached entry cache result indexed there configured fetched same⟩
        · exact .inr (.inr (.failed entry cache indexed there configured
            fun result fetched same => had ⟨result, fetched, same⟩))

/-- A header that is offered is of the path indexed. -/
theorem Offers.path {header : NarResponseHeader} {nar : Bytes}
    (offers : Offers hashers env index blake3 header nar) :
    requestedPath index (.byBlake3 blake3.bytes) = some header.storePath := by
  cases offers with
  | onDisk entry indexed => simp [requestedPath, indexed]
  | cached entry cache result indexed missing configured fetched =>
    simp [requestedPath, indexed, (fetchByStorePath_ok fetched).storePath]

theorem Offers.sent {header : NarResponseHeader} {nar headerBytes : Bytes}
    (offers : Offers hashers env index blake3 header nar)
    (writes : ∀ i, env.writeFails i = none)
    (encoded : env.codec.header.toAllocvec header = .ok headerBytes) :
    bytesSent (handleNarRequest hashers env index (.byBlake3 blake3.bytes)) =
      narResponse headerBytes nar := by
  cases offers with
  | onDisk entry indexed there =>
    simp only [handleNarRequest, handleNarByBlake3, indexed, there, if_true]
    exact bytesSent_stream writes encoded
  | cached entry cache result indexed missing configured fetched same =>
    simp only [handleNarRequest, handleNarByBlake3, indexed, missing, configured,
      Bool.false_eq_true, if_false]
    refine bytesSent_http writes fetched (fun expected he => ?_) encoded
    exact same.trans (Option.some.inj he)

theorem Refuses.sent {message : String} (refuses : Refuses env index blake3 message)
    (writes : ∀ i, env.writeFails i = none) :
    bytesSent (handleNarRequest hashers env index (.byBlake3 blake3.bytes)) =
      errorResponse message := by
  cases refuses with
  | unknown unindexed =>
    simp only [handleNarRequest, handleNarByBlake3, unindexed]
    exact bytesSent_error writes _
  | missing entry indexed missing uncached =>
    simp only [handleNarRequest, handleNarByBlake3, indexed, missing, uncached,
      Bool.false_eq_true, if_false]
    exact bytesSent_error writes _

theorem Silent.sent (silent : Silent hashers env index blake3) :
    bytesSent (handleNarRequest hashers env index (.byBlake3 blake3.bytes)) = [] := by
  obtain ⟨entry, cache, indexed, missing, configured, other⟩ := silent
  simp only [handleNarRequest, handleNarByBlake3, indexed, missing, configured,
    Bool.false_eq_true, if_false]
  exact bytesSent_http_failed fun result fetched => ⟨blake3, rfl, other result fetched⟩

/-- A refusal is short, and is not asked about again. -/
theorem Refuses.permanent {message : String} (refuses : Refuses env index blake3 message) :
    (utf8 message).length ≤ 1024 ∧ isRetryable (.remote message) = false := by
  cases refuses with
  | unknown => exact ⟨by decide +kernel, by decide +kernel⟩
  | missing => exact ⟨by decide +kernel, by decide +kernel⟩

end Offered

/-- The node's side of an exchange: what it answers from, and the stream that reaches it. -/
structure NarNode where
  env : ServeEnv
  index : HashIndex
  stream : RecvStream

/-- What either side sends reaches the other, in pieces of any size, and then the stream ends. -/
structure Exchanged (hashers : Hashers) (codec : NarCodec) (blake3 : Blake3Hash)
    (peer : NarExchange) (node : NarNode) : Prop where
  sameCodec : node.env.codec = codec
  writes : ∀ i, node.env.writeFails i = none
  headers : ∀ header : NarResponseHeader,
    requestedPath node.index (.byBlake3 blake3.bytes) = some header.storePath →
      Carried codec.header header
  connected : peer.connect = .ok ()
  opened : peer.openBi = .ok ()
  lengthWritten : peer.writeLength = .ok ()
  requestWritten : peer.writeRequest = .ok ()
  request : ∃ bytes, codec.request.toAllocvec (.byBlake3 blake3.bytes) = .ok bytes ∧
    node.stream.Ends (requestMessage bytes)
  response : peer.response.Ends
    (bytesSent (handleNarAccepted hashers node.env node.index (.ok node.stream)))
  finishedEarly : contains peer.response.finishedEarly "stream" = true

/-- An attempt at a fetch: no connection comes about, or an exchange. -/
inductive Attempted (hashers : Hashers) (codec : NarCodec) (blake3 : Blake3Hash) :
    NarExchange → Option NarNode → Prop where
  | unreachable (peer : NarExchange) (e : String) (failed : peer.connect = .error e) :
      Attempted hashers codec blake3 peer none
  | exchanged (peer : NarExchange) (node : NarNode)
      (exchanged : Exchanged hashers codec blake3 peer node) :
      Attempted hashers codec blake3 peer (some node)

/-- What a node offers for a hash is acceptable. -/
def Delivers (hashers : Hashers) (codec : NarCodec) (blake3 : Blake3Hash) (node : Option NarNode)
    (header : NarResponseHeader) (data : Bytes) : Prop :=
  ∃ n, node = some n ∧ ∃ nar headerBytes, Offers hashers n.env n.index blake3 header nar ∧
    codec.header.toAllocvec header = .ok headerBytes ∧
    Acceptable hashers blake3 headerBytes.length header nar data

/-- Why a node is asked again: it is not reached, does not answer, or its NAR ends before the
size it announced. -/
inductive Transient (hashers : Hashers) (codec : NarCodec) (blake3 : Blake3Hash) :
    Option NarNode → Prop where
  | unreachable : Transient hashers codec blake3 none
  | silent (node : NarNode) (silent : Silent hashers node.env node.index blake3) :
      Transient hashers codec blake3 (some node)
  | short (node : NarNode) (header : NarResponseHeader) (nar headerBytes : Bytes)
      (offers : Offers hashers node.env node.index blake3 header nar)
      (encoded : codec.header.toAllocvec header = .ok headerBytes)
      (headerFits : headerBytes.length ≤ 64 * 1024) (bounded : header.size ≤ maxNarSize)
      (short : nar.length < header.size.toNat) : Transient hashers codec blake3 (some node)

section Attempts
variable {hashers : Hashers} {codec : NarCodec} {blake3 : Blake3Hash} {peer : NarExchange}
  {node : NarNode}

/-- A request for a hash fits in what a node reads. -/
def Requestable (codec : NarCodec) (blake3 : Blake3Hash) : Prop :=
  ∃ bytes, codec.request.toAllocvec (.byBlake3 blake3.bytes) = .ok bytes ∧
    codec.request.fromBytes bytes = .ok (.byBlake3 blake3.bytes) ∧ bytes.length ≤ 1024

/-- The client reads what the node sends for that hash. -/
theorem Exchanged.reads (exchanged : Exchanged hashers codec blake3 peer node)
    (requestable : Requestable codec blake3) :
    fetchNarOnce hashers codec peer blake3 = readResponse hashers codec blake3 peer.response ∧
      peer.response.Ends
        (bytesSent (handleNarRequest hashers node.env node.index (.byBlake3 blake3.bytes))) := by
  obtain ⟨bytes, encoded, decoded, short⟩ := requestable
  obtain ⟨bytes', encoded', arrives⟩ := exchanged.request
  rw [encoded] at encoded'
  cases encoded'
  have same := exchanged.sameCodec
  have whole : node.stream.Holds (requestMessage bytes ++ []) := by
    rw [List.append_nil]
    exact arrives.holds
  have read : readNarRequest node.env.codec node.stream = .ok (.byBlake3 blake3.bytes) := by
    rw [same]
    exact readNarRequest_complete decoded short whole
  refine ⟨?_, handleNarAccepted_read read ▸ exchanged.response⟩
  simp only [fetchNarOnce, exchanged.connected, exchanged.opened, exchanged.lengthWritten,
    exchanged.requestWritten, encoded]
  rfl

theorem Exchanged.offered (exchanged : Exchanged hashers codec blake3 peer node)
    (requestable : Requestable codec blake3) {header : NarResponseHeader} {nar : Bytes}
    (offers : Offers hashers node.env node.index blake3 header nar) :
    ∃ headerBytes, codec.header.toAllocvec header = .ok headerBytes ∧
      fetchNarOnce hashers codec peer blake3 =
        judge hashers blake3 headerBytes.length header nar := by
  obtain ⟨fetched, ends⟩ := exchanged.reads requestable
  obtain ⟨headerBytes, encoded, decoded, fits⟩ := exchanged.headers header offers.path
  have same := exchanged.sameCodec
  rw [offers.sent exchanged.writes (same ▸ encoded)] at ends
  exact ⟨headerBytes, encoded, fetched.trans (readResponse_offered decoded fits ends)⟩

theorem Exchanged.refused (exchanged : Exchanged hashers codec blake3 peer node)
    (requestable : Requestable codec blake3) {message : String}
    (refuses : Refuses node.env node.index blake3 message) :
    fetchNarOnce hashers codec peer blake3 = .error (.remote message) := by
  obtain ⟨fetched, ends⟩ := exchanged.reads requestable
  rw [refuses.sent exchanged.writes, ← List.append_nil (errorResponse message)] at ends
  exact fetched.trans (readResponse_refused refuses.permanent.1 ends.holds)

/-- The end of an empty stream is an error that is retried. -/
theorem Exchanged.silent (exchanged : Exchanged hashers codec blake3 peer node)
    (requestable : Requestable codec blake3)
    (silent : Silent hashers node.env node.index blake3) :
    ∃ text, fetchNarOnce hashers codec peer blake3 = .error (.protocol text) ∧
      isRetryable (.protocol text) = true := by
  obtain ⟨fetched, ends⟩ := exchanged.reads requestable
  rw [silent.sent] at ends
  refine ⟨_, fetched.trans (readResponse_nothing ends), ?_⟩
  rw [isRetryable, contains_behind _ exchanged.finishedEarly]
  rfl

variable {attempted : Option NarNode}

theorem attempt_ok_iff (attempt : Attempted hashers codec blake3 peer attempted)
    (requestable : Requestable codec blake3) {header : NarResponseHeader} {data : Bytes} :
    fetchNarOnce hashers codec peer blake3 = .ok (header, data) ↔
      Delivers hashers codec blake3 attempted header data := by
  cases attempt with
  | unreachable e failed =>
    refine iff_of_false (fun h => ?_) fun h => ?_
    · rw [fetchNarOnce, failed] at h
      cases h
    · obtain ⟨_, h, _⟩ := h
      cases h
  | exchanged node exchanged =>
    constructor
    · intro h
      rcases offers_or hashers node.env node.index blake3 with offered | refused | silent
      · obtain ⟨offered, nar, offers⟩ := offered
        obtain ⟨headerBytes, encoded, outcome⟩ := exchanged.offered requestable offers
        rw [outcome] at h
        obtain ⟨rfl, acceptable⟩ := judge_ok.mp h
        exact ⟨node, rfl, nar, headerBytes, offers, encoded, acceptable⟩
      · obtain ⟨message, refuses⟩ := refused
        rw [exchanged.refused requestable refuses] at h
        cases h
      · obtain ⟨text, outcome, _⟩ := exchanged.silent requestable silent
        rw [outcome] at h
        cases h
    · intro h
      obtain ⟨_, same, nar, headerBytes, offers, encoded, acceptable⟩ := h
      cases same
      obtain ⟨headerBytes', encoded', outcome⟩ := exchanged.offered requestable offers
      rw [encoded] at encoded'
      cases encoded'
      exact outcome.trans (judge_ok.mpr ⟨rfl, acceptable⟩)

theorem attempt_retried_iff (attempt : Attempted hashers codec blake3 peer attempted)
    (requestable : Requestable codec blake3) :
    (∃ e, fetchNarOnce hashers codec peer blake3 = .error e ∧ isRetryable e = true) ↔
      Transient hashers codec blake3 attempted := by
  cases attempt with
  | unreachable e failed =>
    refine iff_of_true ⟨.connection e, ?_, rfl⟩ .unreachable
    rw [fetchNarOnce, failed]
    rfl
  | exchanged node exchanged =>
    constructor
    · intro h
      rcases offers_or hashers node.env node.index blake3 with offered | refused | silent
      · obtain ⟨header, nar, offers⟩ := offered
        obtain ⟨headerBytes, encoded, outcome⟩ := exchanged.offered requestable offers
        rw [outcome] at h
        obtain ⟨fits, bounded, short⟩ := judge_retryable.mp h
        exact .short node header nar headerBytes offers encoded fits bounded short
      · obtain ⟨message, refuses⟩ := refused
        obtain ⟨e, h, retryable⟩ := h
        rw [exchanged.refused requestable refuses] at h
        cases h
        rw [refuses.permanent.2] at retryable
        cases retryable
      · exact .silent node silent
    · intro h
      cases h with
      | silent _ silent =>
        obtain ⟨text, outcome, retryable⟩ := exchanged.silent requestable silent
        exact ⟨_, outcome, retryable⟩
      | short _ header nar headerBytes offers encoded fits bounded short =>
        obtain ⟨headerBytes', encoded', outcome⟩ := exchanged.offered requestable offers
        rw [encoded] at encoded'
        cases encoded'
        rw [outcome]
        exact judge_retryable.mpr ⟨fits, bounded, short⟩

theorem attempt_refused_iff (attempt : Attempted hashers codec blake3 peer attempted)
    (requestable : Requestable codec blake3) {message : String} :
    fetchNarOnce hashers codec peer blake3 = .error (.remote message) ↔
      ∃ n, attempted = some n ∧ Refuses n.env n.index blake3 message := by
  cases attempt with
  | unreachable e failed =>
    refine iff_of_false (fun h => ?_) fun h => ?_
    · rw [fetchNarOnce, failed] at h
      cases h
    · obtain ⟨_, h, _⟩ := h
      cases h
  | exchanged node exchanged =>
    constructor
    · intro h
      rcases offers_or hashers node.env node.index blake3 with offered | refused | silent
      · obtain ⟨header, nar, offers⟩ := offered
        obtain ⟨headerBytes, _, outcome⟩ := exchanged.offered requestable offers
        rw [outcome] at h
        exact absurd h judge_not_remote
      · obtain ⟨other, refuses⟩ := refused
        rw [exchanged.refused requestable refuses] at h
        cases h
        exact ⟨node, rfl, refuses⟩
      · obtain ⟨text, outcome, _⟩ := exchanged.silent requestable silent
        rw [outcome] at h
        cases h
    · intro h
      obtain ⟨_, same, refuses⟩ := h
      cases same
      exact exchanged.refused requestable refuses

/-- A fetch brings what the node delivers at the first attempt that is not worth another. -/
theorem fetch_ok_iff {config : RetryConfig} {peer : Nat → NarExchange} {node : Nat → Option NarNode}
    (requestable : Requestable codec blake3)
    (attempts : ∀ i, Attempted hashers codec blake3 (peer i) (node i))
    {header : NarResponseHeader} {data : Bytes} :
    fetchNarWithConfig hashers codec config peer blake3 = .ok (header, data) ↔
      ∃ k < config.maxRetries.toNat + 1, Delivers hashers codec blake3 (node k) header data ∧
        ∀ i < k, Transient hashers codec blake3 (node i) := by
  refine RetryLoop.withRetry_ok_iff.trans ?_
  simp only [RetryLoop.SucceedsWithin, attempt_retried_iff (attempts _) requestable,
    attempt_ok_iff (attempts _) requestable]

end Attempts

/-- A fetch from a node, whose state may change between the attempts: it brings what the node
delivers at the first attempt that is not worth another, and its error if the node refuses. -/
theorem nar_fetched_iff (hashers : Hashers) (codec : NarCodec) (config : RetryConfig)
    (blake3 : Blake3Hash) (peer : Nat → NarExchange) (node : Nat → Option NarNode)
    (requestable : Requestable codec blake3)
    (attempts : ∀ i, Attempted hashers codec blake3 (peer i) (node i)) :
    (∀ header data, fetchNarWithConfig hashers codec config peer blake3 = .ok (header, data) ↔
      ∃ k < config.maxRetries.toNat + 1, Delivers hashers codec blake3 (node k) header data ∧
        ∀ i < k, Transient hashers codec blake3 (node i)) ∧
    ∀ message, fetchNarWithConfig hashers codec config peer blake3 = .error (.remote message) ↔
      ∃ k < config.maxRetries.toNat + 1,
        (∃ n, node k = some n ∧ Refuses n.env n.index blake3 message) ∧
        ∀ i < k, Transient hashers codec blake3 (node i) := by
  constructor
  · intro header data
    exact fetch_ok_iff requestable attempts
  · intro message
    refine RetryLoop.withRetry_error_iff.trans ?_
    simp only [RetryLoop.FailsWithin, attempt_retried_iff (attempts _) requestable,
      attempt_refused_iff (attempts _) requestable]
    constructor
    · intro h
      obtain ⟨k, within, refused, _, before⟩ := h
      exact ⟨k, within, refused, before⟩
    · intro h
      obtain ⟨k, within, refused, before⟩ := h
      obtain ⟨n, served, refuses⟩ := refused
      exact ⟨k, within, ⟨n, served, refuses⟩, .inl refuses.permanent.2, before⟩

/-- A request as `postcard` writes it: its number among the variants, then its field. -/
def narRequestWire : Wire NarRequest where
  write
    | .byBlake3 hash => writeVarint 0 ++ (Wire.array .byte 32).write hash
    | .byStorePath storePath => writeVarint 1 ++ Wire.text.write storePath
  read bytes := do
    let (variant, rest) ← readVarint bytes
    match variant with
    | 0 => ((Wire.array .byte 32).read rest).map fun p => (.byBlake3 p.1, p.2)
    | 1 => (Wire.text.read rest).map fun p => (.byStorePath p.1, p.2)
    | _ => none
  read_write request rest := by
    cases request <;> simp [readVarint_writeVarint, Wire.read_write]

/-- `postcard`'s messages. -/
def wireCodec : NarCodec := ⟨.ofWire narRequestWire, .ofWire headerWire⟩

theorem wireCodec_requestable (blake3 : Blake3Hash) : Requestable wireCodec blake3 := by
  obtain ⟨bytes, encoded, decoded⟩ :=
    Postcard.ofWire_roundTrips narRequestWire (.byBlake3 blake3.bytes)
  refine ⟨bytes, encoded, decoded, ?_⟩
  have variant : (writeVarint 0).length ≤ 1 := writeVarint_length (by decide)
  have written : narRequestWire.write (.byBlake3 blake3.bytes) =
      writeVarint 0 ++ blake3.bytes.toList.flatMap Wire.byte.write := rfl
  cases encoded
  rw [written, Wire.flatMap_byte, List.length_append, Vector.length_toList]
  omega

/-- A node with one small file, and a row that gives it this size. -/
def sizedNode (narSize : UInt64) : NarNode where
  env := { oneFileEnv with codec := wireCodec }
  index := .insert .empty (sizedEntry narSize)
  stream := ⟨[requestMessage (narRequestWire.write (.byBlake3 zeroBytes32))], none, ""⟩

/-- What it meets who asks such a node for the file, or none. -/
def sizedExchange : Option NarNode → NarExchange
  | some node => .answering (bytesSent (handleNarAccepted zeroHashers node.env node.index
      (.ok node.stream)))
  | none => { NarExchange.answering [] with connect := .error "timed out" }

theorem sizedNode_offers (narSize : UInt64) :
    Offers zeroHashers (sizedNode narSize).env (sizedNode narSize).index ⟨zeroBytes32⟩
      ⟨narSize, zeroBytes32, "/nix/store/a"⟩
      (servedNar zeroHashers oneFileEnv.files "/nix/store/a") :=
  .onDisk (sizedEntry narSize) rfl rfl

theorem sizedNode_header (narSize : UInt64) :
    (headerWire.write ⟨narSize, zeroBytes32, "/nix/store/a"⟩).length ≤ 64 * 1024 := by
  have size : (writeVarint narSize.toNat).length ≤ 10 :=
    writeVarint_length (Nat.lt_of_lt_of_le narSize.toNat_lt (by decide))
  have path : (writeVarint (utf8 "/nix/store/a").length).length ≤ 1 :=
    writeVarint_length (by decide +kernel)
  have text : (utf8 "/nix/store/a").length = 12 := by decide +kernel
  have whole := headerWire_length ⟨narSize, zeroBytes32, "/nix/store/a"⟩
  simp only at whole
  omega

theorem sizedNode_exchanged (narSize : UInt64) : Exchanged zeroHashers wireCodec ⟨zeroBytes32⟩
    (sizedExchange (some (sizedNode narSize))) (sizedNode narSize) := by
  have arrives : (sizedNode narSize).stream.Ends
      (requestMessage (narRequestWire.write (.byBlake3 zeroBytes32))) := by
    refine ⟨⟨?_, List.flatten_singleton⟩, rfl⟩
    intro chunk hc
    rw [List.mem_singleton.mp hc]
    exact List.cons_ne_nil _ _
  have whole : (sizedNode narSize).stream.Holds
      (requestMessage (narRequestWire.write (.byBlake3 zeroBytes32)) ++ []) := by
    rw [List.append_nil]
    exact arrives.holds
  obtain ⟨bytes, encoded, decoded, short⟩ := wireCodec_requestable ⟨zeroBytes32⟩
  cases encoded
  have answered : bytesSent (handleNarAccepted zeroHashers (sizedNode narSize).env
      (sizedNode narSize).index (.ok (sizedNode narSize).stream)) = narResponse _ _ :=
    (congrArg bytesSent (handleNarAccepted_read (readNarRequest_complete decoded short whole))).trans
      ((sizedNode_offers narSize).sent (fun _ => rfl) rfl)
  have early : contains "stream finished early" "stream" = true := by decide +kernel
  refine ⟨rfl, fun _ => rfl, fun header asked => ?_, rfl, rfl, rfl, rfl, ⟨_, rfl, arrives⟩,
    ⟨⟨?_, List.flatten_singleton⟩, rfl⟩, early⟩
  · exact wireEnv_carries (Option.some.inj asked).symm
  · intro chunk hc
    rw [List.mem_singleton.mp hc, answered]
    exact List.cons_ne_nil _ _

/-- A node that is not reached at first, then has a row with another size, and then is asked
with a row that is right. -/
theorem fetched_at_last : ∃ header data, data.length = 120 ∧
    fetchNarWithConfig zeroHashers wireCodec .default
      (fun i => sizedExchange ([none, some (sizedNode 500)].getD i (some (sizedNode 120))))
      ⟨zeroBytes32⟩ = .ok (header, data) := by
  have attempts : ∀ i, Attempted zeroHashers wireCodec ⟨zeroBytes32⟩
      (sizedExchange ([none, some (sizedNode 500)].getD i (some (sizedNode 120))))
      ([none, some (sizedNode 500)].getD i (some (sizedNode 120))) := by
    intro i
    match i with
    | 0 => exact .unreachable _ "timed out" rfl
    | 1 => exact .exchanged _ _ (sizedNode_exchanged 500)
    | _ + 2 => exact .exchanged _ _ (sizedNode_exchanged 120)
  have size : (servedNar zeroHashers oneFileEnv.files "/nix/store/a").length = 120 := rfl
  refine ⟨⟨120, zeroBytes32, "/nix/store/a"⟩, _, size, ?_⟩
  have fetched := (nar_fetched_iff zeroHashers wireCodec .default ⟨zeroBytes32⟩ _ _
    (wireCodec_requestable _) attempts).1
  refine (fetched _ _).mpr ⟨2, by decide, ?_, fun i hi => ?_⟩
  · refine ⟨sizedNode 120, rfl, _, _, sizedNode_offers 120, rfl, sizedNode_header 120, by decide,
      Nat.le_of_eq size.symm, (List.take_of_length_le (Nat.le_of_eq size)).symm, rfl⟩
  · match i with
    | 0 => exact .unreachable
    | 1 =>
      refine .short _ _ _ _ (sizedNode_offers 500) rfl (sizedNode_header 500) (by decide) ?_
      rw [size]
      decide

end IrohNix.Transfer
