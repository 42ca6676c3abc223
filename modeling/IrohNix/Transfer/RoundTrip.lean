import IrohNix.Transfer.Serve

namespace IrohNix.Transfer
open IrohNix.Lib IrohNix.Nar IrohNix.Nix IrohNix.Node Logged

/-- The bytes an effect puts on the stream. -/
def sentBytes : Effect → Bytes
  | .send data => data
  | _ => []

theorem writeAll_yields {env : ServeEnv} (writes : ∀ i, env.writeFails i = none) (i : Nat)
    (what : String) (data : Bytes) : Yields sentBytes (writeAll env i what data) data := by
  rw [writeAll, writes i]
  exact .perform _

theorem sendHeader_yields {env : ServeEnv} (writes : ∀ i, env.writeFails i = none)
    {header : NarResponseHeader} {bytes : Bytes}
    (encoded : env.codec.header.toAllocvec header = .ok bytes) :
    Yields sentBytes (sendHeader env header) ([1] ++ (leBytes 4 bytes.length ++ bytes)) := by
  have serialized : protocolError "failed to serialize header: "
      (env.codec.header.toAllocvec header) = .ok bytes := protocolError_ok.mpr encoded
  have sent := (writeAll_yields writes 0 "failed to write success marker: " [1]).bind
    ((writeAll_yields writes 1 "failed to write header length: " (leBytes 4 bytes.length)).bind
      (writeAll_yields writes 2 "failed to write header: " bytes))
  exact .after (x := []) serialized rfl sent

theorem sendNarData_yields {env : ServeEnv} (writes : ∀ i, env.writeFails i = none) (nar : Bytes) :
    Yields sentBytes (sendNarData env nar) nar := by
  have piece : ∀ chunk ∈ (nar.toChunks transferBufferSize).zipIdx, Yields sentBytes
      (writeAll env (3 + chunk.2) "failed to write NAR data: " chunk.1) chunk.1 := fun chunk _ =>
    writeAll_yields writes _ _ _
  have pieces := Yields.forEach piece
  rwa [List.flatMap_def, List.zipIdx_map_fst, flatten_toChunks] at pieces

/-- A response whose header says how long the NAR is that follows. -/
def narResponse (headerBytes nar : Bytes) : Bytes :=
  [1] ++ (leBytes 4 headerBytes.length ++ headerBytes) ++ nar

/-- What is sent for a path that serializes. -/
theorem streamNarFromPath_yields {hashers : Hashers} {env : ServeEnv} {storePath : String}
    {narSize : UInt64} {sha256 : Sha256Hash} {headerBytes nar : Bytes} {info : NarInfo}
    (writes : ∀ i, env.writeFails i = none)
    (encoded : env.codec.header.toAllocvec ⟨narSize, sha256.bytes, storePath⟩ = .ok headerBytes)
    (serialized : serializePath hashers storePath (env.files.node storePath) = .ok (nar, info)) :
    Yields sentBytes (streamNarFromPath hashers env storePath narSize sha256)
      (narResponse headerBytes nar) := by
  have body : Yields sentBytes (do
      let serialized ← serialize hashers env.files storePath
      sendNarData env serialized.1) nar := .after serialized rfl (sendNarData_yields writes nar)
  exact (sendHeader_yields writes encoded).bind body

/-- The loop reads the NAR and leaves what follows it. -/
theorem readNarData_complete {fuel : Nat} {nar extra : Bytes} {recv : RecvStream}
    (holds : recv.Holds (nar ++ extra)) (enough : nar.length ≤ fuel) :
    readNarData fuel nar.length recv = .ok nar := by
  induction fuel generalizing nar recv with
  | zero =>
    rw [List.length_eq_zero_iff.mp (Nat.le_zero.mp enough)]
    rfl
  | succ fuel ih =>
    unfold readNarData
    by_cases hzero : nar.length = 0
    · rw [if_pos hzero, List.length_eq_zero_iff.mp hzero]
    · rw [if_neg hzero]
      have hpos : 0 < min nar.length transferBufferSize := by
        simp only [transferBufferSize]
        omega
      have more : nar ++ extra ≠ [] := by
        intro h
        exact hzero (by simp [(List.append_eq_nil_iff.mp h).1])
      obtain ⟨buf, rest, bytes', hread, hbuf, hrest, hbytes⟩ := holds.read more hpos
      have hlen := RecvStream.read_length hread
      obtain ⟨nar', rfl⟩ : ∃ nar', nar = buf ++ nar' := by
        have := List.prefix_of_prefix_length_le (hbytes ▸ List.prefix_append buf bytes')
          (List.prefix_append nar extra) (by omega)
        exact ⟨_, this.choose_spec.symm⟩
      rw [List.append_assoc] at hbytes
      have hpos := List.length_pos_iff.mpr hbuf
      have fewer : nar'.length ≤ fuel := by
        rw [List.length_append] at enough
        omega
      have later := ih (List.append_cancel_left hbytes ▸ hrest) fewer
      have remaining : (buf ++ nar').length - buf.length = nar'.length := by simp
      rw [protocolError_ok.mpr hread]
      simp only [Bind.bind, Except.bind, List.isEmpty_eq_false_iff.mpr hbuf, remaining, later]
      rfl

/-- A response that fits is read back, whatever follows it. -/
theorem readResponse_complete {hashers : Hashers} {codec : NarCodec} {header : NarResponseHeader}
    {headerBytes nar extra : Bytes} {recv : RecvStream}
    (decoded : codec.header.fromBytes headerBytes = .ok header)
    (short : headerBytes.length ≤ 64 * 1024) (size : header.size.toNat = nar.length)
    (bounded : header.size ≤ maxNarSize)
    (holds : recv.Holds (narResponse headerBytes nar ++ extra)) :
    readResponse hashers codec ⟨hashers.blake3 nar⟩ recv = .ok (header, nar) := by
  simp only [narResponse, List.append_assoc] at holds
  obtain ⟨afterStatus, hstatus, holds⟩ := holds.readExact
  obtain ⟨afterLength, hlength, holds⟩ := holds.readExact
  obtain ⟨afterHeader, hheader, holds⟩ := holds.readExact
  rw [leBytes_length] at hlength
  have announced : ofLeBytes (leBytes 4 headerBytes.length) = headerBytes.length :=
    ofLeBytes_leBytes (by omega)
  have read := readNarData_complete holds (Nat.le_refl nar.length)
  unfold readResponse
  refine except_bind_ok.mpr ⟨_, protocolError_ok.mpr hstatus, ?_⟩
  dsimp only
  rw [if_neg (by decide)]
  refine except_bind_ok.mpr ⟨_, protocolError_ok.mpr hlength, ?_⟩
  simp only [announced]
  rw [if_neg (Nat.not_lt.mpr short)]
  refine except_bind_ok.mpr ⟨_, protocolError_ok.mpr hheader, ?_⟩
  refine except_bind_ok.mpr ⟨_, protocolError_ok.mpr decoded, ?_⟩
  rw [if_neg (UInt64.not_lt.mpr bounded), size]
  refine except_bind_ok.mpr ⟨_, read, ?_⟩
  rw [if_neg (Classical.not_not.mpr rfl)]
  rfl

/-- The exchange opens, and the answer comes in pieces that together start with the
bytes sent. -/
structure NarExchange.Carries (peer : NarExchange) (sent : Bytes) : Prop where
  connected : peer.connect = .ok ()
  opened : peer.openBi = .ok ()
  lengthWritten : peer.writeLength = .ok ()
  requestWritten : peer.writeRequest = .ok ()
  response : ∃ extra, peer.response.Holds (sent ++ extra)

/-- A path that can be served: it serializes to a NAR of acceptable size, the messages
about it have encodings, that of the header of acceptable size, and no write fails. -/
structure Servable (hashers : Hashers) (env : ServeEnv) (storePath : String) (sha256 : Sha256Hash)
    (nar : Bytes) : Prop where
  serializes : ∃ info, serializePath hashers storePath (env.files.node storePath) = .ok (nar, info)
  bounded : nar.length ≤ maxNarSize.toNat
  request : ∃ bytes, env.codec.request.toAllocvec (.byBlake3 (hashers.blake3 nar)) = .ok bytes
  header : ∃ bytes, bytes.length ≤ 64 * 1024 ∧
    env.codec.header.toAllocvec ⟨.ofNat nar.length, sha256.bytes, storePath⟩ = .ok bytes ∧
    env.codec.header.fromBytes bytes = .ok ⟨.ofNat nar.length, sha256.bytes, storePath⟩
  writes : ∀ i, env.writeFails i = none

/-- What a fetch returns is what was announced and asked for; and a fetch of what is
streamed from a path returns it, in whatever pieces it comes. -/
theorem transfer_round_trip (hashers : Hashers) :
    (∀ codec peer blake3 header data,
      fetchNarOnce hashers codec peer blake3 = .ok (header, data) →
        data.length = header.size.toNat ∧ header.size ≤ maxNarSize ∧
          hashers.blake3 data = blake3.bytes) ∧
    ∀ (env : ServeEnv) (storePath : String) (sha256 : Sha256Hash) (nar : Bytes),
      Servable hashers env storePath sha256 nar →
      (streamNarFromPath hashers env storePath (.ofNat nar.length) sha256).result = .ok () ∧
      ∀ peer : NarExchange,
        peer.Carries ((streamNarFromPath hashers env storePath (.ofNat nar.length)
          sha256).effects.flatMap sentBytes) →
        fetchNarOnce hashers env.codec peer ⟨hashers.blake3 nar⟩ =
          .ok (⟨.ofNat nar.length, sha256.bytes, storePath⟩, nar) := by
  constructor
  · intro codec peer blake3 header data h
    have received := fetchNarOnce_ok h
    exact ⟨received.size, received.bounded, received.hash⟩
  · intro env storePath sha256 nar servable
    obtain ⟨info, serialized⟩ := servable.serializes
    obtain ⟨requestBytes, requested⟩ := servable.request
    obtain ⟨headerBytes, short, encoded, decoded⟩ := servable.header
    obtain ⟨ok, sent⟩ := streamNarFromPath_yields servable.writes encoded serialized
    refine ⟨ok, fun peer carries => ?_⟩
    obtain ⟨extra, holds⟩ := carries.response
    rw [sent] at holds
    have fits : nar.length < 2 ^ 64 := Nat.lt_of_le_of_lt servable.bounded maxNarSize.toNat_lt
    have size : (UInt64.ofNat nar.length).toNat = nar.length := UInt64.toNat_ofNat_of_lt fits
    have bounded : UInt64.ofNat nar.length ≤ maxNarSize := by
      rw [UInt64.le_iff_toNat_le, size]
      exact servable.bounded
    have read : readResponse hashers env.codec ⟨hashers.blake3 nar⟩ peer.response = .ok (_, nar) :=
      readResponse_complete decoded short size bounded holds
    simp only [fetchNarOnce, carries.connected, carries.opened, carries.lengthWritten,
      carries.requestWritten, requested]
    exact read

/-- A node with one small file at every path. -/
def oneFileEnv : ServeEnv where
  files := ⟨fun _ => true, fun _ => .ok (.regular false [7])⟩
  nix := emptyDatabase
  httpCache := none
  codec := shortCodec
  writeFails := fun _ => none

theorem transfer_round_trip_file : ∃ nar : Bytes, nar.length = 120 ∧
    fetchNarOnce zeroHashers shortCodec
      (.answering ((streamNarFromPath zeroHashers oneFileEnv "/nix/store/a" (.ofNat nar.length)
        ⟨zeroBytes32⟩).effects.flatMap sentBytes)) ⟨zeroBytes32⟩ =
      .ok (⟨.ofNat nar.length, zeroBytes32, "/nix/store/a"⟩, nar) := by
  obtain ⟨nar, info, serialized, size⟩ : ∃ nar info, serializePath zeroHashers "/nix/store/a"
      (.ok (.regular false [7])) = .ok (nar, info) ∧ nar.length = 120 := ⟨_, _, rfl, rfl⟩
  have servable : Servable zeroHashers oneFileEnv "/nix/store/a" ⟨zeroBytes32⟩ nar := by
    refine ⟨⟨info, serialized⟩, by rw [size]; decide, ⟨_, rfl⟩, ?_, fun _ => rfl⟩
    rw [size]
    exact ⟨_, by decide, rfl, by decide +kernel⟩
  obtain ⟨_, fetched⟩ := (transfer_round_trip zeroHashers).2 oneFileEnv _ _ nar servable
  refine ⟨nar, size, fetched _ ⟨rfl, rfl, rfl, rfl, [], ?_, ?_⟩⟩
  · intro chunk hc
    obtain ⟨_, _, encoded, _⟩ := servable.header
    rw [List.mem_singleton.mp hc, (streamNarFromPath_yields servable.writes encoded serialized).2]
    simp [narResponse]
  · simp [NarExchange.answering]

end IrohNix.Transfer
