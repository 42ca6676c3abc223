import IrohNix.Lib.Collect
import IrohNix.Lib.Sink
import IrohNix.Nar.Decodable

namespace IrohNix.Nar
open IrohNix.Lib

/-- An open file: the pieces in which its bytes come, each of which a `read` may
return at once, then its end, or an error. -/
structure OpenFile where
  chunks : List Bytes
  broken : Option String

/-- At most so many bytes; none are the end of the file. -/
def OpenFile.read (file : OpenFile) (max : Nat) : Except String (Bytes × OpenFile) :=
  match file.chunks with
  | [] => match file.broken with
    | none => .ok ([], file)
    | some e => .error e
  | chunk :: rest =>
    if chunk.length ≤ max then .ok (chunk, { file with chunks := rest })
    else .ok (chunk.take max, { file with chunks := chunk.drop max :: rest })

/-- What can be read before the first read that returns nothing. -/
def OpenFile.contents (file : OpenFile) : Bytes := (file.chunks.takeWhile (· ≠ [])).flatten

/-- How the listing of a directory may fail. -/
inductive ListingError where
  | readDir (e : String)
  | entry (e : String)

/-- What the file system holds at a path, as far as the writer asks: the metadata,
and what opening, following or listing it gives. -/
inductive DiskTree where
  | unreadable (e : String)
  | regular (mode : UInt32) (size : UInt64) (opened : Except String OpenFile)
  | symlink (target : Except String OsString)
  | directory (entries : List (OsString × DiskTree)) (failure : Option ListingError)
  | unsupported

abbrev StreamWrite := Writing Error Unit

def streamBytes (what : String) (buf : Bytes) : StreamWrite :=
  Writing.writeAll (fun e => .nar ("failed to write " ++ what ++ ": " ++ e)) buf

def streamU64 (n : UInt64) : StreamWrite := streamBytes "u64" (leBytes 8 n.toNat)

/-- Zero bytes up to a multiple of 8. -/
def streamPadding (size : Nat) : StreamWrite :=
  let padding := (8 - size % 8) % 8
  if padding > 0 then streamBytes "padding" (List.replicate padding 0) else pure ()

def streamString (s : Bytes) : StreamWrite := do
  streamU64 (.ofNat s.length)
  streamBytes "string" s
  streamPadding s.length

def streamText (s : String) : StreamWrite := streamString (utf8 s)

/-- A file's contents, a buffer at a time. Each turn takes at least one byte, so as
much fuel as there are bytes is enough. -/
def streamContents (path : String) : Nat → Nat → OpenFile → StreamWrite
  | 0, _, _ => pure ()
  | fuel + 1, remaining, file =>
    if remaining = 0 then pure ()
    else match file.read (min remaining 65536) with
      | .error e => throw (.nar ("failed to read file " ++ path ++ ": " ++ e))
      | .ok (buf, file) =>
        if buf = [] then throw (.nar ("unexpected EOF reading " ++ path))
        else do
          streamBytes "NAR data" buf
          streamContents path fuel (remaining - buf.length) file

def streamFile (path : String) (mode : UInt32) (size : UInt64) (opened : Except String OpenFile) :
    StreamWrite := do
  streamText "type"
  streamText "regular"
  if mode &&& 0o111 ≠ 0 then
    streamText "executable"
    streamText ""
  streamText "contents"
  streamU64 size
  match opened with
  | .error e => throw (.nar ("failed to open file " ++ path ++ ": " ++ e))
  | .ok file => do
    streamContents path size.toNat size.toNat file
    streamPadding size.toNat

def streamSymlink (path : String) : Except String OsString → StreamWrite
  | .error e => throw (.nar ("failed to read symlink " ++ path ++ ": " ++ e))
  | .ok target => do
    streamText "type"
    streamText "symlink"
    streamText "target"
    match target with
    | .utf8 text => streamText text
    | .other _ => throw (.nar "symlink target is not valid UTF-8")

/-- One entry of a directory, around the writing of what it names. -/
def streamDirEntry (name : OsString) (node : StreamWrite) : StreamWrite :=
  match name with
  | .utf8 text => do
    streamText "entry"
    streamText "("
    streamText "name"
    streamText text
    streamText "node"
    node
    streamText ")"
  | .other _ => throw (.nar "filename is not valid UTF-8")

def listingFailure (path : String) : Option ListingError → StreamWrite
  | none => pure ()
  | some (.readDir e) => throw (.nar ("failed to read directory " ++ path ++ ": " ++ e))
  | some (.entry e) => throw (.nar ("failed to read directory entry: " ++ e))

mutual
def streamEntry (path : String) : DiskTree → StreamWrite
  | .unreadable e => throw (.nar ("failed to read metadata for " ++ path ++ ": " ++ e))
  | .symlink target => do
    streamText "("
    streamSymlink path target
    streamText ")"
  | .directory entries failure => do
    streamText "("
    streamText "type"
    streamText "directory"
    listingFailure path failure
    -- Nix requires sorted order
    ((streamChildren path entries).insertionSort fun a b => a.1.asBytes ≤ b.1.asBytes).forM
      fun child => streamDirEntry child.1 child.2
    streamText ")"
  | .regular mode size opened => do
    streamText "("
    streamFile path mode size opened
    streamText ")"
  | .unsupported => do
    streamText "("
    throw (.nar ("unsupported file type: " ++ path))

/-- Each name in a directory, with the writing of what it names. -/
def streamChildren (path : String) : List (OsString × DiskTree) → List (OsString × StreamWrite)
  | [] => []
  | (name, node) :: rest =>
    (name, streamEntry (match name with
      | .utf8 text => joinPath path text
      | .other _ => path) node) :: streamChildren path rest
end

/-- `NarWriter::write_path` onto a writer that may take buffers in pieces. -/
def streamPath (path : String) (tree : DiskTree) : StreamWrite := do
  streamText "nix-archive-1"
  streamEntry path tree

/-- As much of a file as its recorded size, if there is so much. -/
def sizedContents (size : UInt64) : Except String OpenFile → Option Bytes
  | .error _ => none
  | .ok file =>
    if size.toNat ≤ file.contents.length then some (file.contents.take size.toNat) else none

mutual
/-- The tree that can be read off: nothing if part of it is missing or cannot stand
in a NAR. -/
def DiskTree.node : DiskTree → Option Node
  | .regular mode size opened =>
    (sizedContents size opened).map fun contents => .regular (mode &&& 0o111 ≠ 0) contents
  | .symlink (.ok (.utf8 target)) => some (.symlink target)
  | .directory entries none => (entryNodes entries).map .directory
  | _ => none

def entryNodes : List (OsString × DiskTree) → Option (List (String × Node))
  | [] => some []
  | (.utf8 name, tree) :: rest =>
    match tree.node, entryNodes rest with
    | some node, some nodes => some ((name, node) :: nodes)
    | _, _ => none
  | (.other _, _) :: _ => none
end

theorem DiskTree.induction {P : DiskTree → Prop} (unreadable : ∀ e, P (.unreadable e))
    (regular : ∀ mode size opened, P (.regular mode size opened))
    (symlink : ∀ target, P (.symlink target))
    (directory : ∀ entries failure, (∀ e ∈ entries, P e.2) → P (.directory entries failure))
    (unsupported : P .unsupported) : ∀ tree, P tree
  | .unreadable e => unreadable e
  | .regular mode size opened => regular mode size opened
  | .symlink target => symlink target
  | .directory entries failure => directory entries failure (inside entries)
  | .unsupported => unsupported
where
  inside : ∀ (entries : List (OsString × DiskTree)) (e : OsString × DiskTree), e ∈ entries → P e.2
    | (_, tree) :: rest, e, he => by
      rcases List.mem_cons.mp he with rfl | he
      · exact DiskTree.induction unreadable regular symlink directory unsupported tree
      · exact inside rest e he

def entryNode (e : OsString × DiskTree) : Option (String × Node) :=
  match e.1 with
  | .utf8 name => e.2.node.map fun node => (name, node)
  | .other _ => none

theorem entryNode_name {e : OsString × DiskTree} {d : String × Node}
    (h : entryNode e = some d) : e.1 = .utf8 d.1 := by
  obtain ⟨name, tree⟩ := e
  cases name with
  | other bytes => cases h
  | utf8 text =>
    obtain ⟨node, _, rfl⟩ := Option.map_eq_some_iff.mp h
    rfl

theorem entryNodes_eq_mapM (entries : List (OsString × DiskTree)) :
    entryNodes entries = entries.mapM entryNode := by
  induction entries with
  | nil => rfl
  | cons e rest ih =>
    obtain ⟨name, tree⟩ := e
    rw [List.mapM_cons, ← ih]
    cases name with
    | other bytes => rfl
    | utf8 text => cases hn : tree.node <;> cases hr : entryNodes rest <;>
        simp [entryNodes, entryNode, hn, hr]

/-- A read that returns something returns the next bytes of the contents. -/
theorem OpenFile.read_some {file rest : OpenFile} {max : Nat} {buf : Bytes}
    (h : file.read max = .ok (buf, rest)) (hbuf : buf ≠ []) :
    buf.length ≤ max ∧ file.contents = buf ++ rest.contents := by
  obtain ⟨chunks, broken⟩ := file
  unfold OpenFile.read at h
  cases chunks with
  | nil =>
    cases broken with
    | none => simp_all
    | some e => simp at h
  | cons chunk chunks =>
    simp only at h
    by_cases hfits : chunk.length ≤ max
    · rw [if_pos hfits] at h
      cases h
      exact ⟨hfits, by simp [OpenFile.contents, hbuf]⟩
    · rw [if_neg hfits] at h
      cases h
      have hrest : chunk.drop max ≠ [] := by simp; omega
      have hchunk : chunk ≠ [] := fun hc => hfits (by simp [hc])
      refine ⟨List.length_take_le _ _, ?_⟩
      simp [OpenFile.contents, hrest, hchunk, ← List.append_assoc]

/-- A read that returns nothing, or fails, is at the end of the contents. -/
theorem OpenFile.contents_end {file : OpenFile} {max : Nat} (hmax : 0 < max)
    (h : ∀ buf rest, file.read max = .ok (buf, rest) → buf = []) : file.contents = [] := by
  obtain ⟨chunks, broken⟩ := file
  cases chunks with
  | nil => rfl
  | cons chunk chunks =>
    have hchunk : chunk = [] := by
      unfold OpenFile.read at h
      by_cases hfits : chunk.length ≤ max
      · exact h _ _ (if_pos hfits)
      · have := h _ _ (if_neg hfits)
        exact (List.take_eq_nil_iff.mp this).resolve_left (by omega)
    simp [OpenFile.contents, hchunk]

theorem streamBytes_emits (what : String) (buf : Bytes) : Emits (streamBytes what buf) (some buf) :=
  .writeAll _ buf

theorem streamPadding_emits (size : Nat) :
    Emits (streamPadding size) (some (List.replicate ((8 - size % 8) % 8) 0)) := by
  unfold streamPadding
  by_cases hp : (8 - size % 8) % 8 > 0
  · rw [if_pos hp]
    exact streamBytes_emits _ _
  · rw [if_neg hp, Nat.eq_zero_of_not_pos hp]
    exact .nothing

theorem streamU64_emits (n : UInt64) : Emits (streamU64 n) (some (leBytes 8 n.toNat)) :=
  streamBytes_emits "u64" _

theorem streamString_emits (s : Bytes) : Emits (streamString s) (some (word s)) := by
  have h := (streamU64_emits (.ofNat s.length)).bind
    ((streamBytes_emits "string" s).bind (streamPadding_emits s.length))
  rw [leBytes_u64] at h
  simpa [word, streamString] using h

theorem streamText_emits (s : String) : Emits (streamText s) (some (word (utf8 s))) :=
  streamString_emits (utf8 s)

/-- The loop passes on exactly as many bytes as it is told to, and fails on a file
that has fewer. -/
theorem streamContents_emits (path : String) {fuel remaining : Nat} (file : OpenFile)
    (enough : remaining ≤ fuel) : Emits (streamContents path fuel remaining file)
      (if remaining ≤ file.contents.length then some (file.contents.take remaining) else none) := by
  induction fuel generalizing remaining file with
  | zero =>
    rw [Nat.le_zero.mp enough]
    exact .nothing
  | succ fuel ih =>
    unfold streamContents
    by_cases hzero : remaining = 0
    · rw [if_pos hzero, hzero]
      exact .nothing
    · rw [if_neg hzero]
      have hmax : 0 < min remaining 65536 := by omega
      cases hread : file.read (min remaining 65536) with
      | error e =>
        have hend := OpenFile.contents_end hmax fun buf rest h => by rw [hread] at h; cases h
        rw [hend, if_neg (by simpa using hzero)]
        exact .fail _
      | ok piece =>
        obtain ⟨buf, rest⟩ := piece
        by_cases hbuf : buf = []
        · have hend := OpenFile.contents_end hmax fun _ _ h => by
            rw [hread] at h
            cases h
            exact hbuf
          simp only [if_pos hbuf]
          rw [hend, if_neg (by simpa using hzero)]
          exact .fail _
        · obtain ⟨hlen, hcontents⟩ := OpenFile.read_some hread hbuf
          have hpos := List.length_pos_iff.mpr hbuf
          have later := ih rest (by omega : remaining - buf.length ≤ fuel)
          have both := (streamBytes_emits "NAR data" buf).bind later
          simp only [if_neg hbuf]
          rw [hcontents, List.length_append, List.take_append]
          by_cases hall : remaining ≤ buf.length + rest.contents.length
          · rw [if_pos hall, List.take_of_length_le (by omega)]
            simpa [show remaining - buf.length ≤ rest.contents.length by omega] using both
          · rw [if_neg hall]
            simpa [show ¬ remaining - buf.length ≤ rest.contents.length by omega] using both

theorem streamFile_emits (path : String) (mode : UInt32) (size : UInt64)
    (opened : Except String OpenFile) : Emits (streamFile path mode size opened)
      ((sizedContents size opened).map fun contents =>
        ([utf8 "type", utf8 "regular"] ++
          (if mode &&& 0o111 ≠ 0 then [utf8 "executable", utf8 ""] else []) ++
          [utf8 "contents", contents]).flatMap word) := by
  have body : Emits (do
      streamText "contents"
      streamU64 size
      match opened with
      | .error e => throw (.nar ("failed to open file " ++ path ++ ": " ++ e))
      | .ok file => do
        streamContents path size.toNat size.toNat file
        streamPadding size.toNat)
      ((sizedContents size opened).map fun contents =>
        [utf8 "contents", contents].flatMap word) := by
    cases opened with
    | error e =>
      exact (streamText_emits "contents").bind ((streamU64_emits size).bind (.fail _))
    | ok file =>
      have read := streamContents_emits path file (Nat.le_refl size.toNat)
      have written := (streamText_emits "contents").bind ((streamU64_emits size).bind
        (read.bind (streamPadding_emits size.toNat)))
      by_cases henough : size.toNat ≤ file.contents.length
      · simpa [sizedContents, henough, word] using written
      · simpa [sizedContents, henough] using written
  unfold streamFile
  by_cases hmode : mode &&& 0o111 ≠ 0
  · have written := (streamText_emits "type").bind ((streamText_emits "regular").bind
      ((streamText_emits "executable").bind ((streamText_emits "").bind body)))
    simp only [if_pos hmode]
    cases hc : sizedContents size opened <;> simpa [hc] using written
  · have written := (streamText_emits "type").bind ((streamText_emits "regular").bind body)
    simp only [if_neg hmode]
    cases hc : sizedContents size opened <;> simpa [hc] using written

theorem streamDirEntry_emits {e : OsString × DiskTree} {node : StreamWrite}
    (h : Emits node (e.2.node.map fun n => n.sorted.encode)) : Emits (streamDirEntry e.1 node)
      ((entryNode e).map fun d => (entryTokens [(d.1, d.2.sorted)]).flatMap word) := by
  obtain ⟨name, tree⟩ := e
  cases name with
  | other bytes => exact .fail _
  | utf8 text =>
    have written := (streamText_emits "entry").bind ((streamText_emits "(").bind
      ((streamText_emits "name").bind ((streamText_emits text).bind
      ((streamText_emits "node").bind (h.bind (streamText_emits ")"))))))
    cases hn : tree.node with
    | none => simpa [streamDirEntry, entryNode, hn] using written
    | some n => simpa [streamDirEntry, entryNode, entryTokens, Node.encode, hn] using written

theorem streamChildren_eq_map (path : String) (entries : List (OsString × DiskTree)) :
    streamChildren path entries =
      entries.map fun e => (e.1, streamEntry (match e.1 with
        | .utf8 text => joinPath path text
        | .other _ => path) e.2) := by
  induction entries with
  | nil => rfl
  | cons e rest ih => simp [streamChildren, ih]

/-- The entries of a directory are put out in the order of their names. -/
theorem streamEntries_emits (path : String) (entries : List (OsString × DiskTree))
    (inside : ∀ e ∈ entries, ∀ path,
      Emits (streamEntry path e.2) (e.2.node.map fun n => n.sorted.encode)) :
    Emits (((streamChildren path entries).insertionSort fun a b => a.1.asBytes ≤ b.1.asBytes).forM
        fun child => streamDirEntry child.1 child.2)
      ((entryNodes entries).map fun nodes =>
        (entryTokens ((sortByName nodes).map fun e => (e.1, e.2.sorted))).flatMap word) := by
  let byName := fun a b : OsString × DiskTree => a.1.asBytes ≤ b.1.asBytes
  let write := fun e : OsString × DiskTree => (e.1, streamEntry (match e.1 with
    | .utf8 text => joinPath path text
    | .other _ => path) e.2)
  have children : (streamChildren path entries).insertionSort
      (fun a b => a.1.asBytes ≤ b.1.asBytes) = (entries.insertionSort byName).map write := by
    rw [streamChildren_eq_map]
    exact (List.map_insertionSort byName _ write entries fun _ _ _ _ => Iff.rfl).symm
  have alike : ∀ x y a b, entryNode x = some a → entryNode y = some b →
      (byName x y ↔ utf8 a.1 ≤ utf8 b.1) := by
    intro x y a b hx hy
    simp only [byName, entryNode_name hx, entryNode_name hy, OsString.asBytes]
  have each : ∀ e ∈ entries.insertionSort byName, Emits (streamDirEntry e.1 (write e).2)
      ((entryNode e).map fun d => (entryTokens [(d.1, d.2.sorted)]).flatMap word) := fun e he =>
    streamDirEntry_emits (inside e ((List.mem_insertionSort byName).mp he) _)
  have loop := Emits.forM each
  rw [mapM_map_some, mapM_insertionSort alike, ← entryNodes_eq_mapM] at loop
  rw [children]
  have same : ∀ xs : List (OsString × DiskTree),
      ((xs.map write).forM fun child => streamDirEntry child.1 child.2) =
        xs.forM fun e => streamDirEntry e.1 (write e).2 := fun xs => List.forM_map
  have bytes : ∀ nodes : List (String × Node),
      (nodes.map fun d => (entryTokens [(d.1, d.2.sorted)]).flatMap word).flatten =
        (entryTokens (nodes.map fun e => (e.1, e.2.sorted))).flatMap word := by
    intro nodes
    simp only [entryTokens_eq_flatMap, List.flatMap_map, List.flatMap_assoc, ← List.flatMap_def,
      List.flatMap_singleton]
  rw [same]
  simpa [Option.map_map, Function.comp_def, bytes, sortByName] using loop

/-- What the writer puts out for a tree is the encoding of what can be read off it. -/
theorem streamEntry_emits (tree : DiskTree) (path : String) :
    Emits (streamEntry path tree) (tree.node.map fun n => n.sorted.encode) := by
  induction tree using DiskTree.induction generalizing path with
  | unreadable e => exact .fail _
  | unsupported => exact (streamText_emits "(").bind (.fail _)
  | regular mode size opened =>
    have written := (streamText_emits "(").bind
      ((streamFile_emits path mode size opened).bind (streamText_emits ")"))
    cases hc : sizedContents size opened with
    | none => simpa [streamEntry, DiskTree.node, hc] using written
    | some contents =>
      simpa [streamEntry, DiskTree.node, hc, Node.sorted, Node.encode, Node.tokens] using written
  | symlink target =>
    cases target with
    | error e => exact (streamText_emits "(").bind (.bind (.fail _) (streamText_emits ")"))
    | ok target =>
      cases target with
      | other bytes =>
        exact (streamText_emits "(").bind (.bind ((streamText_emits "type").bind
          ((streamText_emits "symlink").bind ((streamText_emits "target").bind (.fail _))))
          (streamText_emits ")"))
      | utf8 text =>
        have inner := (streamText_emits "type").bind ((streamText_emits "symlink").bind
          ((streamText_emits "target").bind (streamText_emits text)))
        have written := (streamText_emits "(").bind (inner.bind (streamText_emits ")"))
        simpa [streamEntry, streamSymlink, DiskTree.node, Node.sorted, Node.encode,
          Node.tokens] using written
  | directory entries failure ih =>
    have opening : ∀ {k : StreamWrite} {bytes}, Emits k bytes → Emits (do
        streamText "("
        streamText "type"
        streamText "directory"
        k) (bytes.map ([utf8 "(", utf8 "type", utf8 "directory"].flatMap word ++ ·)) := by
      intro k bytes hk
      have h := (streamText_emits "(").bind ((streamText_emits "type").bind
        ((streamText_emits "directory").bind hk))
      cases bytes <;> simpa using h
    cases failure with
    | some e => cases e <;> exact opening (.bind (.fail _) (.nothing))
    | none =>
      have inside := streamEntries_emits path entries fun e he p => ih e he p
      have written := opening (inside.bind (streamText_emits ")"))
      cases hn : entryNodes entries with
      | none => simpa [streamEntry, DiskTree.node, listingFailure, hn] using written
      | some nodes =>
        simpa [streamEntry, DiskTree.node, listingFailure, hn, sorted_directory, Node.encode,
          Node.tokens] using written

theorem streamPath_emits (path : String) (tree : DiskTree) :
    Emits (streamPath path tree) (tree.node.map Node.canonical) := by
  have written := (streamText_emits "nix-archive-1").bind (streamEntry_emits tree path)
  cases hn : tree.node <;> simpa [streamPath, Node.canonical, hn] using written

/-- Taking buffers in pieces comes to the same as taking them whole. -/
theorem streamPath_written {path : String} {tree : DiskTree} {n : Node} {s t : Sink}
    (hn : tree.node = some n) (h : (streamPath path tree).on s = (.ok (), t)) :
    t.written = s.written ++ narBytes path n := by
  obtain ⟨b, hb, hw⟩ := (streamPath_emits path tree).exactly s t h
  rw [hn] at hb
  rw [hw, ← Option.some.inj hb, narBytes_eq]

/-- Somewhere in the tree a file has fewer bytes than recorded. -/
inductive DiskTree.Short : DiskTree → Prop where
  | file {mode : UInt32} {size : UInt64} {file : OpenFile}
      (fewer : file.contents.length < size.toNat) : Short (.regular mode size (.ok file))
  | inside {entries : List (OsString × DiskTree)} {failure : Option ListingError}
      {e : OsString × DiskTree} (listed : e ∈ entries) (short : e.2.Short) :
      Short (.directory entries failure)

theorem DiskTree.Short.no_node {tree : DiskTree} (h : tree.Short) : tree.node = none := by
  induction h with
  | file fewer => simp [DiskTree.node, sizedContents, Nat.not_le.mpr fewer]
  | @inside entries failure e listed _ ih =>
    cases failure with
    | some _ => rfl
    | none =>
      have missing : entryNode e = none := by
        obtain ⟨name, tree⟩ := e
        cases name with
        | utf8 text => exact Option.map_eq_none_iff.mpr ih
        | other bytes => rfl
      have : entryNodes entries = none := by
        rw [entryNodes_eq_mapM]
        exact mapM_eq_none.mpr ⟨e, listed, missing⟩
      simp [DiskTree.node, this]

/-- The disk holds the tree, listed in any order and read in any pieces. -/
def DiskTree.Holds (tree : DiskTree) (n : Node) : Prop := ∃ m, tree.node = some m ∧ Relisted n m

/-- A tree has one encoding, of its entries in ascending order, and that is what a
writer that succeeds has been given, however the tree is listed and read and however
the writer takes it. It succeeds if no write fails, and not if a file is short. -/
theorem stream_canonical :
    (∀ path tree s t, (streamPath path tree).on s = (.ok (), t) →
      ¬ tree.Short ∧ ∃ n, tree.Holds n) ∧
    ∀ n : Node, n.Distinct → ∃ m, Relisted n m ∧ m.Ascending ∧
      ∀ path tree, tree.Holds n →
        (∀ s t, (streamPath path tree).on s = (.ok (), t) →
          t.written = s.written ++ (word (utf8 "nix-archive-1") ++ m.encode)) ∧
        ∀ s, s.Accepting → ∃ t, (streamPath path tree).on s = (.ok (), t) := by
  constructor
  · intro path tree s t h
    obtain ⟨b, hb, _⟩ := (streamPath_emits path tree).exactly s t h
    obtain ⟨n, hn, _⟩ := Option.map_eq_some_iff.mp hb
    exact ⟨fun short => by simp [short.no_node] at hn, n, n, hn, .refl n⟩
  · intro n distinct
    refine ⟨n.sorted, relisted_sorted n, distinct.sorted_ascending, ?_⟩
    intro path tree holds
    obtain ⟨m, hm, relisted⟩ := holds
    have emits := streamPath_emits path tree
    rw [hm] at emits
    constructor
    · intro s t h
      obtain ⟨b, hb, hw⟩ := emits.exactly s t h
      rw [hw, ← Option.some.inj hb, ← canonical_eq_of_relisted distinct relisted, Node.canonical]
    · intro s hs
      obtain ⟨t, ht, _⟩ := emits.succeeds s hs rfl
      exact ⟨t, ht⟩

/-- Read and written in pieces, and listed in descending order. -/
theorem stream_canonical_pieces : ∃ (t : Sink) (m : Node),
    (streamPath "/nix/store/a" (.directory [(.utf8 "lib", .symlink (.ok (.utf8 "."))),
      (.utf8 "bin", .regular 0o755 3 (.ok ⟨[[7], [8, 9]], none⟩))] none)).on
        ⟨[.accept 3, .interrupted], []⟩ = (.ok (), t) ∧
    m.Ascending ∧ t.written = word (utf8 "nix-archive-1") ++ m.encode := by
  let n : Node := .directory [("lib", .symlink "."), ("bin", .regular true [7, 8, 9])]
  have distinct : n.Distinct :=
    .directory (by decide) (by simp [Node.Distinct.symlink, Node.Distinct.regular])
  obtain ⟨m, _, ascending, runs⟩ := stream_canonical.2 n distinct
  obtain ⟨exactly, succeeds⟩ := runs "/nix/store/a" (.directory
    [(.utf8 "lib", .symlink (.ok (.utf8 "."))),
      (.utf8 "bin", .regular 0o755 3 (.ok ⟨[[7], [8, 9]], none⟩))] none) ⟨n, rfl, .refl n⟩
  obtain ⟨t, ht⟩ := succeeds ⟨[.accept 3, .interrupted], []⟩ (by simp [Sink.Accepting])
  exact ⟨t, m, ht, ascending, exactly _ _ ht⟩

end IrohNix.Nar
