import IrohNix.Lib.Runs
import IrohNix.Nar.Calls

namespace IrohNix.Nar.Hashing
open IrohNix.Lib IrohNix.Nar.Calls

/-- A digest computed from a stream, as the `sha2` and `blake3` crates do. -/
structure Hasher where
  State : Type
  new : State
  update : State → Bytes → State
  finalize : State → Bytes32

/-- Feeding a buffer in parts comes to the same as feeding it whole. -/
structure Hasher.Homomorphic (h : Hasher) : Prop where
  nil : ∀ s, h.update s [] = s
  append : ∀ s a b, h.update s (a ++ b) = h.update (h.update s a) b

def Hasher.digest (h : Hasher) (bytes : Bytes) : Bytes32 := h.finalize (h.update h.new bytes)

structure StreamHashers where
  sha256 : Hasher
  blake3 : Hasher

structure StreamHashers.Homomorphic (hashers : StreamHashers) : Prop where
  sha256 : hashers.sha256.Homomorphic
  blake3 : hashers.blake3.Homomorphic

/-- A writer that computes both hashes while writing. -/
structure HashingWriter (hashers : StreamHashers) where
  inner : Sink
  sha256 : hashers.sha256.State
  blake3 : hashers.blake3.State
  bytesWritten : UInt64

variable {hashers : StreamHashers}

namespace HashingWriter

def new (inner : Sink) : HashingWriter hashers := ⟨inner, hashers.sha256.new, hashers.blake3.new, 0⟩

/-- Only what the inner writer took is hashed and counted. -/
def write (w : HashingWriter hashers) (buf : Bytes) : WriteOutcome × HashingWriter hashers :=
  match w.inner.write buf with
  | (.accept n, inner) => (.accept n,
      ⟨inner, hashers.sha256.update w.sha256 (buf.take n),
        hashers.blake3.update w.blake3 (buf.take n), w.bytesWritten + .ofNat n⟩)
  | (.interrupted, inner) => (.interrupted, { w with inner })
  | (.error e, inner) => (.error e, { w with inner })

/-- `write_all` as `Write` provides it. Two more turns than the inner writer has outcomes
to come are enough. -/
def writeLoop : Nat → HashingWriter hashers → Bytes → Except String Unit × HashingWriter hashers
  | 0, w, _ => (.ok (), w)
  | fuel + 1, w, buf =>
    if buf = [] then (.ok (), w)
    else match w.write buf with
      | (.accept 0, w) => (.error "failed to write whole buffer", w)
      | (.accept n, w) => writeLoop fuel w (buf.drop n)
      | (.interrupted, w) => writeLoop fuel w buf
      | (.error e, w) => (.error e, w)

def writeAll (w : HashingWriter hashers) (buf : Bytes) :
    Except String Unit × HashingWriter hashers :=
  writeLoop (w.inner.outcomes.length + 2) w buf

def finish (w : HashingWriter hashers) : Sink × NarInfo :=
  (w.inner, ⟨⟨hashers.blake3.finalize w.blake3⟩, ⟨hashers.sha256.finalize w.sha256⟩,
    w.bytesWritten⟩)

end HashingWriter

/-- The size and the hashes of these bytes. -/
def describe (hashers : StreamHashers) (nar : Bytes) : NarInfo :=
  ⟨⟨hashers.blake3.digest nar⟩, ⟨hashers.sha256.digest nar⟩, .ofNat nar.length⟩

/-- The calls of a `NarWriter`, up to the first that fails. -/
def writeCalls : List (String × Bytes) → HashingWriter hashers →
    Except Error Unit × HashingWriter hashers
  | [], w => (.ok (), w)
  | (what, buf) :: rest, w =>
    match w.writeAll buf with
    | (.error e, w) => (.error (.nar ("failed to write " ++ what ++ ": " ++ e)), w)
    | (.ok (), w) => writeCalls rest w

/-- `NarWriter::write_path` onto a hashing writer. -/
def writePath (path : String) (tree : DiskTree) (w : HashingWriter hashers) :
    Except Error Unit × HashingWriter hashers :=
  match writeCalls (Calls.writePath path tree).effects w with
  | (.error e, w) => (.error e, w)
  | (.ok (), w) => ((Calls.writePath path tree).result, w)

/-- Serialize a path to NAR format, writing to a writer and computing hashes. -/
def serializePathToWriter (hashers : StreamHashers) (path : String) (tree : DiskTree)
    (writer : Sink) : Except Error NarInfo × Sink :=
  match writePath path tree (HashingWriter.new writer : HashingWriter hashers) with
  | (.error e, w) => (.error e, w.inner)
  | (.ok (), w) => (.ok w.finish.2, w.finish.1)

/-- Serialize a path to NAR format into a vector, which takes each buffer whole. -/
def serializePath (hashers : StreamHashers) (path : String) (tree : DiskTree) :
    Except Error (Bytes × NarInfo) :=
  match serializePathToWriter hashers path tree ⟨[], []⟩ with
  | (.error e, _) => .error e
  | (.ok info, buffer) => .ok (buffer.written, info)

/-- The inner writer has taken these bytes since the hashing writer was put around it, and
they are what was hashed and counted. -/
structure HashingWriter.Took (w : HashingWriter hashers) (before taken : Bytes) : Prop where
  written : w.inner.written = before ++ taken
  sha256 : w.sha256 = hashers.sha256.update hashers.sha256.new taken
  blake3 : w.blake3 = hashers.blake3.update hashers.blake3.new taken
  counted : w.bytesWritten = .ofNat taken.length

theorem new_took (hom : hashers.Homomorphic) (inner : Sink) :
    (HashingWriter.new inner : HashingWriter hashers).Took inner.written [] where
  written := (List.append_nil _).symm
  sha256 := (hom.sha256.nil _).symm
  blake3 := (hom.blake3.nil _).symm
  counted := rfl

theorem HashingWriter.Took.finish {w : HashingWriter hashers} {before taken : Bytes}
    (h : w.Took before taken) : w.finish.2 = describe hashers taken := by
  simp [HashingWriter.finish, describe, Hasher.digest, h.sha256, h.blake3, h.counted]

theorem write_took (hom : hashers.Homomorphic) {w : HashingWriter hashers} {before taken : Bytes}
    (h : w.Took before taken) (buf : Bytes) :
    ∃ part, (w.write buf).2.Took before (taken ++ part) := by
  have unchanged : ∀ inner : Sink, inner.written = w.inner.written ++ [] →
      ({ w with inner } : HashingWriter hashers).Took before (taken ++ []) := by
    intro inner written
    rw [List.append_nil] at written ⊢
    exact ⟨written.trans h.written, h.sha256, h.blake3, h.counted⟩
  unfold HashingWriter.write
  cases hw : w.inner.write buf with
  | mk outcome inner =>
    have written := Sink.write_written hw
    cases outcome with
    | accept n =>
      have hlen : (buf.take n).length = n := List.length_take_of_le (Sink.write_le hw)
      refine ⟨buf.take n, ?_, ?_, ?_, ?_⟩
      · rw [written, h.written, List.append_assoc]
      · rw [hom.sha256.append, ← h.sha256]
      · rw [hom.blake3.append, ← h.blake3]
      · rw [List.length_append, hlen, UInt64.ofNat_add, ← h.counted]
    | interrupted => exact ⟨[], unchanged inner written⟩
    | error e => exact ⟨[], unchanged inner written⟩

theorem writeLoop_took (hom : hashers.Homomorphic) {before : Bytes} {fuel : Nat}
    {w : HashingWriter hashers} {taken : Bytes} (h : w.Took before taken) (buf : Bytes) :
    ∃ taken', (HashingWriter.writeLoop fuel w buf).2.Took before taken' := by
  induction fuel generalizing w taken buf with
  | zero => exact ⟨taken, h⟩
  | succ fuel ih =>
    unfold HashingWriter.writeLoop
    by_cases hbuf : buf = []
    · rw [if_pos hbuf]
      exact ⟨taken, h⟩
    · rw [if_neg hbuf]
      obtain ⟨part, hpart⟩ := write_took hom h buf
      split <;> rename_i hw <;> rw [hw] at hpart
      · exact ⟨_, hpart⟩
      · exact ih hpart _
      · exact ih hpart _
      · exact ⟨_, hpart⟩

theorem writeCalls_took (hom : hashers.Homomorphic) {before : Bytes}
    (calls : List (String × Bytes)) {w : HashingWriter hashers} {taken : Bytes}
    (h : w.Took before taken) : ∃ taken', (writeCalls calls w).2.Took before taken' := by
  induction calls generalizing w taken with
  | nil => exact ⟨taken, h⟩
  | cons call rest ih =>
    unfold writeCalls
    obtain ⟨taken', h'⟩ : ∃ taken', (w.writeAll call.2).2.Took before taken' :=
      writeLoop_took hom h call.2
    split <;> rename_i hw <;> rw [hw] at h'
    · exact ⟨_, h'⟩
    · exact ih h'

theorem write_inner (w : HashingWriter hashers) (buf : Bytes) :
    (w.write buf).1 = (w.inner.write buf).1 ∧ (w.write buf).2.inner = (w.inner.write buf).2 := by
  unfold HashingWriter.write
  split <;> rename_i hw <;> rw [hw] <;> exact ⟨rfl, rfl⟩

/-- The loop asks of the inner writer what `write_all` on it would. -/
theorem writeLoop_inner {fuel : Nat} {w : HashingWriter hashers} {buf : Bytes}
    (enough : w.inner.outcomes.length + 2 ≤ fuel ∨ buf = [] ∧ 1 ≤ fuel) :
    (HashingWriter.writeLoop fuel w buf).1 = (offerAll w.inner.outcomes w.inner.written buf).1 ∧
      (HashingWriter.writeLoop fuel w buf).2.inner =
        (offerAll w.inner.outcomes w.inner.written buf).2 := by
  induction fuel generalizing w buf with
  | zero => omega
  | succ fuel ih =>
    unfold HashingWriter.writeLoop
    by_cases hbuf : buf = []
    · rw [if_pos hbuf, hbuf, offerAll_nil]
      exact ⟨rfl, rfl⟩
    · rw [if_neg hbuf, offerAll_write hbuf]
      obtain ⟨houtcome, hinner⟩ := write_inner w buf
      cases hw : w.write buf with
      | mk outcome w' =>
        rw [hw] at houtcome hinner
        have hs : w.inner.write buf = (outcome, w'.inner) := Prod.ext houtcome.symm hinner.symm
        have used := Sink.write_outcomes hs
        have room := enough.resolve_right fun h => hbuf h.1
        rw [hs]
        cases outcome with
        | accept n =>
          cases n with
          | zero => exact ⟨rfl, rfl⟩
          | succ n =>
            apply ih
            rcases used with used | whole
            · exact .inl (by omega)
            · have whole : n + 1 = buf.length := by simpa using whole
              exact .inr ⟨whole ▸ List.drop_length, by omega⟩
        | interrupted =>
          apply ih
          rcases used with used | whole
          · exact .inl (by omega)
          · cases whole
        | error e => exact ⟨rfl, rfl⟩

theorem writeAll_inner (w : HashingWriter hashers) (buf : Bytes) :
    (w.writeAll buf).1 = (offerAll w.inner.outcomes w.inner.written buf).1 ∧
      (w.writeAll buf).2.inner = (offerAll w.inner.outcomes w.inner.written buf).2 :=
  writeLoop_inner (.inl (Nat.le_refl _))

theorem writeCalls_inner (calls : List (String × Bytes)) (w : HashingWriter hashers) :
    (calls.forM fun call => streamBytes call.1 call.2).on w.inner =
      ((writeCalls calls w).1, (writeCalls calls w).2.inner) := by
  induction calls generalizing w with
  | nil => rfl
  | cons call rest ih =>
    obtain ⟨houtcome, hinner⟩ := writeAll_inner w call.2
    rw [List.forM_eq_forM, List.forM_cons, Writing.on_bind, streamBytes, Writing.on_writeAll,
      ← houtcome, ← hinner]
    unfold writeCalls
    cases hw : w.writeAll call.2 with
    | mk outcome w' =>
      cases outcome with
      | error e => rfl
      | ok _ => exact ih w'

/-- The inner writer is asked what the `NarWriter` would ask of it directly. -/
theorem writePath_inner (path : String) (tree : DiskTree) (w : HashingWriter hashers) :
    (streamPath path tree).on w.inner = ((writePath path tree w).1, (writePath path tree w).2.inner) := by
  rw [← onSink_path, onSink, Writing.on_bind, writeCalls_inner, writePath]
  cases hw : writeCalls (Calls.writePath path tree).effects w with
  | mk outcome w' =>
    cases outcome with
    | error e => rfl
    | ok _ => cases hr : (Calls.writePath path tree).result <;> rfl

theorem writePath_took (hom : hashers.Homomorphic) (path : String) (tree : DiskTree) (s : Sink) :
    ∃ taken, (writePath path tree (HashingWriter.new s : HashingWriter hashers)).2.Took
      s.written taken := by
  obtain ⟨taken, h⟩ := writeCalls_took hom (Calls.writePath path tree).effects (new_took hom s)
  refine ⟨taken, ?_⟩
  unfold writePath
  split <;> rename_i hw <;> rw [hw] at h <;> exact h

/-- The info is there exactly if the tree was written, and describes what was. -/
theorem toWriter_ok (hom : hashers.Homomorphic) {path : String} {tree : DiskTree} {s t : Sink}
    {info : NarInfo} : serializePathToWriter hashers path tree s = (.ok info, t) ↔
      (streamPath path tree).on s = (.ok (), t) ∧
        ∃ taken, t.written = s.written ++ taken ∧ info = describe hashers taken := by
  obtain ⟨taken, took⟩ := writePath_took hom path tree s
  have same := writePath_inner path tree (HashingWriter.new s : HashingWriter hashers)
  have hinner : (HashingWriter.new s : HashingWriter hashers).inner = s := rfl
  rw [hinner] at same
  unfold serializePathToWriter
  rw [same]
  cases hw : writePath path tree (HashingWriter.new s : HashingWriter hashers) with
  | mk outcome w =>
    rw [hw] at took
    cases outcome with
    | error e => simp
    | ok _ =>
      simp only [Prod.mk.injEq, Except.ok.injEq, true_and, took.finish]
      change describe hashers taken = info ∧ w.inner = t ↔ w.inner = t ∧ _
      constructor
      · intro h
        obtain ⟨rfl, rfl⟩ := h
        exact ⟨rfl, taken, took.written, rfl⟩
      · intro h
        obtain ⟨rfl, taken', hwritten, rfl⟩ := h
        obtain rfl := List.append_cancel_left (took.written.symm.trans hwritten)
        exact ⟨rfl, rfl⟩

theorem serializePath_ok {path : String} {tree : DiskTree} {nar : Bytes} {info : NarInfo} :
    serializePath hashers path tree = .ok (nar, info) ↔
      ∃ t, serializePathToWriter hashers path tree ⟨[], []⟩ = (.ok info, t) ∧ t.written = nar := by
  unfold serializePath
  cases h : serializePathToWriter hashers path tree ⟨[], []⟩ with
  | mk outcome t => cases outcome <;> simp [and_comm]

/-- Nothing but the listing and the reading of the tree differs. -/
def Unchanged (tree tree' : DiskTree) : Prop :=
  tree' = tree ∨ ∃ n : Node, n.Distinct ∧ tree.Holds n ∧ tree'.Holds n

theorem Unchanged.canonical {tree tree' : DiskTree} {n : Node} (h : Unchanged tree tree')
    (hn : tree.node = some n) : ∃ n', tree'.node = some n' ∧ n'.canonical = n.canonical := by
  rcases h with rfl | ⟨m, distinct, ⟨a, ha, first⟩, b, hb, second⟩
  · exact ⟨n, hn, rfl⟩
  · obtain rfl : a = n := Option.some.inj (ha.symm.trans hn)
    refine ⟨b, hb, ?_⟩
    rw [← canonical_eq_of_relisted distinct first, canonical_eq_of_relisted distinct second]

/-- The hashes and the size are always those of what the inner writer took. So a tree
serialized to a buffer has the info of that buffer, and it has the same info serialized to
any other writer, in which it leaves the same bytes. -/
theorem hashes_delivered (hashers : StreamHashers) (hom : hashers.Homomorphic) :
    (∀ (inner : Sink) (bufs : List Bytes),
      let w : HashingWriter hashers := bufs.foldl (fun w buf => (w.write buf).2) (.new inner)
      ∃ taken, w.finish.1.written = inner.written ++ taken ∧
        w.finish.2 = describe hashers taken) ∧
    (∀ path tree n, tree.node = some n → ∃ nar info,
      serializePath hashers path tree = .ok (nar, info)) ∧
    ∀ path tree nar info, serializePath hashers path tree = .ok (nar, info) →
      info = describe hashers nar ∧ ∀ path' tree', Unchanged tree tree' →
        (∀ s t info', serializePathToWriter hashers path' tree' s = (.ok info', t) →
          info' = info ∧ t.written = s.written ++ nar) ∧
        ∀ s, s.Accepting → ∃ t, serializePathToWriter hashers path' tree' s = (.ok info, t) := by
  refine ⟨fun inner bufs => ?_, fun path tree n hn => ?_, fun path tree nar info h => ?_⟩
  · obtain ⟨taken, took⟩ := foldl_invariant
      (fun w : HashingWriter hashers => ∃ taken, w.Took inner.written taken)
      (fun w buf h => (write_took hom h.choose_spec buf).imp' _ fun _ => id)
      ⟨[], new_took hom inner⟩ bufs
    exact ⟨taken, took.written, took.finish⟩
  · obtain ⟨t, ht, _⟩ := (streamPath_emits path tree).succeeds ⟨[], []⟩ (by simp [Sink.Accepting])
      (by simp [hn])
    exact ⟨_, _, serializePath_ok.mpr ⟨t, (toWriter_ok hom).mpr ⟨ht, t.written, rfl, rfl⟩, rfl⟩⟩
  · obtain ⟨t, hrun, rfl⟩ := serializePath_ok.mp h
    obtain ⟨hstream, taken, hwritten, rfl⟩ := (toWriter_ok hom).mp hrun
    obtain ⟨b, hb, hb'⟩ := (streamPath_emits path tree).exactly _ _ hstream
    obtain ⟨n, hn, rfl⟩ := Option.map_eq_some_iff.mp hb
    simp only [List.nil_append] at hwritten hb'
    obtain rfl : taken = n.canonical := hwritten.symm.trans hb'
    refine ⟨by rw [hwritten], fun path' tree' same => ?_⟩
    obtain ⟨n', hn', hcanonical⟩ := same.canonical hn
    have emits := streamPath_emits path' tree'
    rw [hn', Option.map_some, hcanonical] at emits
    constructor
    · intro s t' info' h'
      obtain ⟨hstream', taken', hwritten', rfl⟩ := (toWriter_ok hom).mp h'
      obtain ⟨b, hb, hb'⟩ := emits.exactly s t' hstream'
      cases hb
      obtain rfl := List.append_cancel_left (hwritten'.symm.trans hb')
      exact ⟨rfl, by rw [hwritten', hwritten]⟩
    · intro s hs
      obtain ⟨t', ht', _⟩ := emits.succeeds s hs rfl
      obtain ⟨b, hb, hb'⟩ := emits.exactly s t' ht'
      cases hb
      exact ⟨t', (toWriter_ok hom).mpr ⟨ht', n.canonical, hb', rfl⟩⟩

/-- A hasher that collects its input, and has the digest of one input. -/
def knownHasher (input : Bytes) (digest : Bytes32) : Hasher :=
  ⟨Bytes, [], (· ++ ·), fun bytes => if bytes = input then digest else zeroBytes32⟩

theorem knownHasher_homomorphic (input : Bytes) (digest : Bytes32) :
    (knownHasher input digest).Homomorphic where
  nil := List.append_nil
  append := fun s a b => (List.append_assoc s a b).symm

/-- The crates' digests of the NAR of an empty file. -/
def emptyFileHashers : StreamHashers :=
  ⟨knownHasher (Node.canonical (.regular false []))
      ⟨#[0x77, 0xac, 0x62, 0xe2, 0x62, 0x9d, 0x8e, 0x45, 0xf6, 0x24, 0x58, 0x9c, 0x0c, 0x8b, 0xf9,
        0x9e, 0x24, 0xb3, 0xa7, 0x22, 0x34, 0x9b, 0xf1, 0xe7, 0x9b, 0xc1, 0x86, 0x00, 0x85, 0x34,
        0xe2, 0x46], rfl⟩,
    knownHasher (Node.canonical (.regular false []))
      ⟨#[0x5b, 0xba, 0x54, 0xa7, 0xd4, 0x49, 0x79, 0x34, 0xa9, 0xf8, 0x4c, 0xaf, 0x53, 0x80, 0x82,
        0xaf, 0x61, 0x00, 0x66, 0x7a, 0x99, 0x63, 0x84, 0xb2, 0xc9, 0x70, 0xf8, 0x1b, 0x2c, 0xfd,
        0xae, 0xc4], rfl⟩⟩

/-- An empty file, once to a buffer and once to a writer that takes three bytes first. -/
theorem hashes_delivered_empty_file : ∃ nar info t,
    serializePath emptyFileHashers "/nix/store/a" (.regular 0o644 0 (.ok ⟨[], none⟩)) =
      .ok (nar, info) ∧
    serializePathToWriter emptyFileHashers "/nix/store/a" (.regular 0o644 0 (.ok ⟨[], none⟩))
      ⟨[.accept 3], []⟩ = (.ok info, t) := by
  obtain ⟨_, reads, same⟩ := hashes_delivered emptyFileHashers
    ⟨knownHasher_homomorphic _ _, knownHasher_homomorphic _ _⟩
  obtain ⟨nar, info, h⟩ := reads "/nix/store/a" (.regular 0o644 0 (.ok ⟨[], none⟩))
    (.regular false []) rfl
  obtain ⟨t, ht⟩ := ((same _ _ _ _ h).2 "/nix/store/a" _ (.inl rfl)).2 ⟨[.accept 3], []⟩
    (by simp [Sink.Accepting])
  exact ⟨nar, info, t, h, ht⟩

end IrohNix.Nar.Hashing
