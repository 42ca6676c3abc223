import IrohNix.Builder.Handler
import IrohNix.Transfer.Fetch
import IrohNix.Transfer.Postcard

namespace IrohNix.Builder
open IrohNix.Lib IrohNix.Build IrohNix.Transfer Logged

/-- Maximum message size for build queue protocol: 1 MB. -/
def maxMessageSize : Nat := 1024 * 1024

/-- What is written to a `SendStream`, of which some writes fail. -/
abbrev Written := Logged Bytes Error Unit

def writePiece (writeFails : Nat → Option String) (i : Nat) (what : String) (data : Bytes) :
    Written :=
  match writeFails i with
  | some e => .fail (.protocol (what ++ e))
  | none => .perform data

/-- A message of this kind behind its length, whatever that is. -/
def sendMessage {α : Type} (kind : String) (codec : Postcard α) (writeFails : Nat → Option String)
    (message : α) : Written := do
  let bytes ← .lift (protocolError ("failed to encode " ++ kind ++ ": ")
    (codec.toAllocvec message))
  writePiece writeFails 0 ("failed to write " ++ kind ++ " length: ") (beBytes 4 bytes.length)
  writePiece writeFails 1 ("failed to write " ++ kind ++ ": ") bytes

/-- Send a build queue request. -/
def sendRequest (codec : Postcard BuildQueueRequest) (writeFails : Nat → Option String)
    (request : BuildQueueRequest) : Written := sendMessage "request" codec writeFails request

/-- The last part of answering a request. -/
def sendResponse (codec : Postcard BuildQueueResponse) (writeFails : Nat → Option String)
    (response : BuildQueueResponse) : Written := sendMessage "response" codec writeFails response

/-- What is read behind a length: as many bytes, if that is not too many. -/
def recvBody {α : Type} (noun kind : String) (codec : Postcard α) (lenBuf : Bytes)
    (recv : RecvStream) : Except Error (α × RecvStream) := do
  let msgLen := ofBeBytes lenBuf
  if msgLen > maxMessageSize then
    .error (.protocol (noun ++ " too large: " ++ toString msgLen ++ " bytes"))
  else do
    let (msgBuf, recv) ← protocolError ("failed to read " ++ noun ++ ": ") (recv.readExact msgLen)
    let message ← protocolError ("failed to decode " ++ kind ++ ": ") (codec.fromBytes msgBuf)
    pure (message, recv)

/-- Receive a build queue response. -/
def recvResponse (codec : Postcard BuildQueueResponse) (recv : RecvStream) :
    Except Error (BuildQueueResponse × RecvStream) := do
  let (lenBuf, recv) ← protocolError "failed to read response length: " (recv.readExact 4)
  recvBody "response" "response" codec lenBuf recv

/-- The first part of one turn of the accept loop: without a length the builder is taken
to have disconnected. -/
def recvRequest (codec : Postcard BuildQueueRequest) (recv : RecvStream) :
    Except Error (Option (BuildQueueRequest × RecvStream)) :=
  match recv.readExact 4 with
  | .error _ => .ok none
  | .ok (lenBuf, recv) => (recvBody "message" "request" codec lenBuf recv).map some

/-- A message whose encoding is of acceptable size. -/
def Fits {α : Type} (codec : Postcard α) (message : α) : Prop :=
  ∀ bytes, codec.toAllocvec message = .ok bytes → bytes.length ≤ maxMessageSize

section
variable {α : Type} {codec : Postcard α} {message : α} {bytes : Bytes}

/-- What the code calls a frame: nothing checks that the length fits in four bytes. -/
def frame (bytes : Bytes) : Bytes := beBytes 4 bytes.length ++ bytes

/-- All that is written of a message, if no write fails. -/
theorem sendMessage_effects {writeFails : Nat → Option String} (kind : String)
    (writes : ∀ i, writeFails i = none) (encoded : codec.toAllocvec message = .ok bytes) :
    (sendMessage kind codec writeFails message).effects.flatten = frame bytes := by
  have piece : ∀ i what data, Yields id (writePiece writeFails i what data) data := by
    intro i what data
    rw [writePiece, writes i]
    exact .perform data
  have lifted : protocolError ("failed to encode " ++ kind ++ ": ") (codec.toAllocvec message) =
      .ok bytes := protocolError_ok.mpr encoded
  have sent : Yields id (sendMessage kind codec writeFails message) (frame bytes) :=
    .after (x := []) lifted rfl ((piece 0 _ _).bind (piece 1 _ _))
  rw [← sent.2, List.flatMap_id]

theorem readExact_frame {recv : RecvStream} {extra : Bytes}
    (holds : recv.Holds (frame bytes ++ extra)) : ∃ after,
      recv.readExact 4 = .ok (beBytes 4 bytes.length, after) ∧ after.Holds (bytes ++ extra) := by
  rw [frame, List.append_assoc] at holds
  obtain ⟨after, read, left⟩ := holds.readExact
  rw [beBytes_length] at read
  exact ⟨after, read, left⟩

theorem map_some_ok {outcome : Except Error α} {a : α} :
    outcome.map some = .ok (some a) ↔ outcome = .ok a := by
  cases outcome <;> simp [Except.map]

theorem fits_iff (encoded : codec.toAllocvec message = .ok bytes) :
    Fits codec message ↔ bytes.length ≤ maxMessageSize := by
  constructor
  · intro fits
    exact fits bytes encoded
  · intro fits bytes' encoded'
    rw [encoded] at encoded'
    cases encoded'
    exact fits

/-- Of a frame the length is read, and the message behind it exactly if that fits. -/
theorem recvBody_iff (noun kind : String) {after : RecvStream} {extra : Bytes}
    (decoded : codec.fromBytes bytes = .ok message) (holds : after.Holds (bytes ++ extra)) :
    (∃ rest, recvBody noun kind codec (beBytes 4 bytes.length) after = .ok (message, rest) ∧
      rest.Holds extra) ↔ bytes.length ≤ maxMessageSize := by
  have msgLen : ofBeBytes (beBytes 4 bytes.length) = bytes.length % 256 ^ 4 :=
    ofBeBytes_beBytes 4 bytes.length
  simp only [recvBody, msgLen]
  generalize hn : bytes.length % 256 ^ 4 = n
  have le : n ≤ bytes.length := hn ▸ Nat.mod_le _ _
  have split : (bytes.take n ++ (bytes.drop n ++ extra)) = bytes ++ extra := by
    rw [← List.append_assoc, List.take_append_drop]
  obtain ⟨rest, read, left⟩ := RecvStream.Holds.readExact (split ▸ holds)
  rw [List.length_take_of_le le] at read
  rw [protocolError_ok.mpr read]
  constructor
  · intro received
    obtain ⟨rest', received, holds'⟩ := received
    by_cases large : n > maxMessageSize
    · rw [if_pos large] at received
      cases received
    · rw [if_neg large, except_ok_bind] at received
      obtain ⟨_, _, received⟩ := except_bind_ok.mp received
      -- a prefix of the message would leave the rest of it on the stream
      cases received
      have none_left := congrArg List.length (holds'.together.symm.trans left.together)
      rw [List.length_append, List.length_drop] at none_left
      omega
  · intro fits
    have whole : n = bytes.length := by
      rw [← hn]
      refine Nat.mod_eq_of_lt (Nat.lt_of_le_of_lt fits ?_)
      decide
    subst whole
    rw [List.drop_length, List.nil_append] at left
    rw [if_neg (Nat.not_lt.mpr fits), except_ok_bind, List.take_length,
      protocolError_ok.mpr decoded]
    exact ⟨rest, rfl, left⟩

end

/-- What is sent in either direction is read at the other end, as that message and up to
its end, exactly if its encoding is of acceptable size. -/
theorem messages_read_iff (requests : Postcard BuildQueueRequest)
    (responses : Postcard BuildQueueResponse) (requestsRead : requests.RoundTrips)
    (responsesRead : responses.RoundTrips) (writeFails : Nat → Option String)
    (writes : ∀ i, writeFails i = none) :
    (∀ (request : BuildQueueRequest) (recv : RecvStream) (extra : Bytes),
      recv.Holds ((sendRequest requests writeFails request).effects.flatten ++ extra) →
      ((∃ rest, recvRequest requests recv = .ok (some (request, rest)) ∧ rest.Holds extra) ↔
        Fits requests request)) ∧
    (∀ (response : BuildQueueResponse) (recv : RecvStream) (extra : Bytes),
      recv.Holds ((sendResponse responses writeFails response).effects.flatten ++ extra) →
      ((∃ rest, recvResponse responses recv = .ok (response, rest) ∧ rest.Holds extra) ↔
        Fits responses response)) := by
  constructor
  · intro request recv extra holds
    obtain ⟨bytes, encoded, decoded⟩ := requestsRead request
    rw [sendRequest, sendMessage_effects "request" writes encoded] at holds
    obtain ⟨after, read, left⟩ := readExact_frame holds
    rw [fits_iff encoded, ← recvBody_iff "message" "request" decoded left]
    simp only [recvRequest, read, map_some_ok]
  · intro response recv extra holds
    obtain ⟨bytes, encoded, decoded⟩ := responsesRead response
    rw [sendResponse, sendMessage_effects "response" writes encoded] at holds
    obtain ⟨after, read, left⟩ := readExact_frame holds
    rw [fits_iff encoded, ← recvBody_iff "response" "response" decoded left, recvResponse,
      protocolError_ok.mpr read, except_ok_bind]

def digestWire : Wire Bytes32 := .array .byte 32

def outputWire : Wire BuildOutputProto :=
  (Wire.text.pair (digestWire.pair (digestWire.pair .u64))).adapt
    (fun o => (o.storePath, o.blake3, o.sha256, o.narSize))
    (fun fields => some ⟨fields.1, fields.2.1, fields.2.2.1, fields.2.2.2⟩) fun _ => rfl

def inputWire : Wire InputPathProto :=
  (Wire.text.pair digestWire).adapt (fun ip => (ip.storePath, ip.blake3))
    (fun fields => some ⟨fields.1, fields.2⟩) fun _ => rfl

def pullWire : Wire (List String × Bool) := (Wire.list .text).pair .bool

def noteWire : Wire (UInt64 × String) := Wire.u64.pair .text

def logWire : Wire (UInt64 × Bytes × UInt8) := Wire.u64.pair ((Wire.list .byte).pair .byte)

def completeWire : Wire (UInt64 × List BuildOutputProto × Bytes32 × Bytes32) :=
  Wire.u64.pair ((Wire.list outputWire).pair (digestWire.pair digestWire))

def jobWire : Wire (UInt64 × Bytes32 × String × List String × List InputPathProto) :=
  Wire.u64.pair (digestWire.pair (Wire.text.pair ((Wire.list .text).pair (.list inputWire))))

/-- A request as `postcard` writes it: its number among the variants, then its fields. -/
def requestWire : Wire BuildQueueRequest where
  write
    | .pull features streamLogs => writeVarint 0 ++ pullWire.write (features, streamLogs)
    | .heartbeat jobId status => writeVarint 1 ++ noteWire.write (jobId, status)
    | .buildLog jobId data stream => writeVarint 2 ++ logWire.write (jobId, data, stream)
    | .complete jobId outputs r s => writeVarint 3 ++ completeWire.write (jobId, outputs, r, s)
    | .fail jobId error => writeVarint 4 ++ noteWire.write (jobId, error)
  read bytes := do
    let (variant, rest) ← readVarint bytes
    match variant with
    | 0 => (pullWire.read rest).map fun p => (.pull p.1.1 p.1.2, p.2)
    | 1 => (noteWire.read rest).map fun p => (.heartbeat p.1.1 p.1.2, p.2)
    | 2 => (logWire.read rest).map fun p => (.buildLog p.1.1 p.1.2.1 p.1.2.2, p.2)
    | 3 => (completeWire.read rest).map fun p =>
      (.complete p.1.1 p.1.2.1 p.1.2.2.1 p.1.2.2.2, p.2)
    | 4 => (noteWire.read rest).map fun p => (.fail p.1.1 p.1.2, p.2)
    | _ => none
  read_write request rest := by
    cases request <;> simp [readVarint_writeVarint, Wire.read_write]

def responseWire : Wire BuildQueueResponse where
  write
    | .job jobId drvHash drvPath outputs inputPaths =>
      writeVarint 0 ++ jobWire.write (jobId, drvHash, drvPath, outputs, inputPaths)
    | .noJob => writeVarint 1
    | .heartbeatAck => writeVarint 2
    | .completeAck => writeVarint 3
    | .failAck => writeVarint 4
    | .logAck => writeVarint 5
    | .error message => writeVarint 6 ++ Wire.text.write message
  read bytes := do
    let (variant, rest) ← readVarint bytes
    match variant with
    | 0 => (jobWire.read rest).map fun p =>
      (.job p.1.1 p.1.2.1 p.1.2.2.1 p.1.2.2.2.1 p.1.2.2.2.2, p.2)
    | 1 => some (.noJob, rest)
    | 2 => some (.heartbeatAck, rest)
    | 3 => some (.completeAck, rest)
    | 4 => some (.failAck, rest)
    | 5 => some (.logAck, rest)
    | 6 => (Wire.text.read rest).map fun p => (.error p.1, p.2)
    | _ => none
  read_write response rest := by
    cases response <;> simp [readVarint_writeVarint, Wire.read_write]

/-- A stream on which some bytes arrive at once. -/
def arriving (bytes : Bytes) : RecvStream := ⟨[bytes], none, "stream finished early"⟩

theorem arriving_frame (bytes : Bytes) : (arriving (frame bytes)).Holds (frame bytes ++ []) := by
  refine ⟨?_, by simp [arriving]⟩
  intro chunk hc empty
  have length := congrArg List.length empty
  rw [List.mem_singleton.mp hc, frame, List.length_append, beBytes_length] at length
  simp at length

/-- A line of the build's output. -/
def logLine (data : Bytes) : BuildQueueRequest := .buildLog 7 data 1

theorem logLine_length (data : Bytes) :
    data.length < (requestWire.write (logLine data)).length := by
  have written : requestWire.write (logLine data) = writeVarint 2 ++ (writeVarint 7 ++
      ((writeVarint data.length ++ data.flatMap Wire.byte.write) ++ [1])) := rfl
  rw [written, Wire.flatMap_byte]
  simp only [List.length_append, List.length_singleton]
  omega

/-- What is sent of a message in a format. -/
theorem sent_wire {α : Type} (kind : String) (format : Wire α) (message : α) :
    (sendMessage kind (.ofWire format) (fun _ => none) message).effects.flatten =
      frame (format.write message) :=
  sendMessage_effects kind (fun _ => rfl) rfl

theorem short_messages_read :
    (∃ rest, recvRequest (.ofWire requestWire) (arriving (frame (requestWire.write
      (logLine [104])))) = .ok (some (logLine [104], rest)) ∧ rest.Holds []) ∧
    ∃ rest, recvResponse (.ofWire responseWire) (arriving (frame (responseWire.write .noJob))) =
      .ok (.noJob, rest) ∧ rest.Holds [] := by
  have both := messages_read_iff (.ofWire requestWire) (.ofWire responseWire)
    (Postcard.ofWire_roundTrips _) (Postcard.ofWire_roundTrips _) (fun _ => none) fun _ => rfl
  simp only [sendRequest, sendResponse, sent_wire] at both
  constructor
  · exact (both.1 _ _ _ (arriving_frame _)).mpr ((fits_iff rfl).mpr (by decide +kernel))
  · exact (both.2 _ _ _ (arriving_frame _)).mpr ((fits_iff rfl).mpr (by decide +kernel))

/-- However it arrives, a message too large is not read. -/
theorem large_unread {request : BuildQueueRequest}
    (large : maxMessageSize < (requestWire.write request).length) :
    ¬ ∃ rest, recvRequest (.ofWire requestWire) (arriving (frame (requestWire.write request))) =
      .ok (some (request, rest)) ∧ rest.Holds [] := by
  obtain ⟨bytes, encoded, decoded⟩ := Postcard.ofWire_roundTrips requestWire request
  obtain rfl : requestWire.write request = bytes := Except.ok.inj encoded
  obtain ⟨after, read, left⟩ := readExact_frame (arriving_frame (requestWire.write request))
  simp only [recvRequest, read, map_some_ok]
  rw [recvBody_iff "message" "request" decoded left]
  exact Nat.not_le.mpr large

/-- A line of a megabyte is sent, and refused where it arrives. -/
theorem long_line_unread : ∃ (data : Bytes) (recv : RecvStream),
    data.length = maxMessageSize ∧
    recv.Holds ((sendRequest (.ofWire requestWire) (fun _ => none) (logLine data)).effects.flatten
      ++ []) ∧
    ¬ ∃ rest, recvRequest (.ofWire requestWire) recv = .ok (some (logLine data, rest)) ∧
      rest.Holds [] := by
  obtain ⟨data, size⟩ : ∃ data : Bytes, data.length = maxMessageSize :=
    ⟨List.replicate maxMessageSize 46, List.length_replicate⟩
  refine ⟨data, arriving (frame (requestWire.write (logLine data))), size, ?_,
    large_unread (size ▸ logLine_length data)⟩
  rw [sendRequest, sent_wire]
  exact arriving_frame _

end IrohNix.Builder
