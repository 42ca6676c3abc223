import IrohNix.Nar.Streaming

namespace IrohNix.Nar.Calls
open IrohNix.Lib

/-- What a `NarWriter` asks of the writer it is given: its calls of `write_all`, each with
the words its error message has for the buffer. -/
abbrev NarCalls := Logged (String × Bytes) Error

def writeBytes (what : String) (buf : Bytes) : NarCalls Unit := .perform (what, buf)

def writeU64 (n : UInt64) : NarCalls Unit := writeBytes "u64" (leBytes 8 n.toNat)

def writePadding (size : Nat) : NarCalls Unit :=
  let padding := (8 - size % 8) % 8
  if padding > 0 then writeBytes "padding" (List.replicate padding 0) else pure ()

def writeString (s : Bytes) : NarCalls Unit := do
  writeU64 (.ofNat s.length)
  writeBytes "string" s
  writePadding s.length

def writeText (s : String) : NarCalls Unit := writeString (utf8 s)

def writeContents (path : String) : Nat → Nat → OpenFile → NarCalls Unit
  | 0, _, _ => pure ()
  | fuel + 1, remaining, file =>
    if remaining = 0 then pure ()
    else match file.read (min remaining 65536) with
      | .error e => .fail (.nar ("failed to read file " ++ path ++ ": " ++ e))
      | .ok (buf, file) =>
        if buf = [] then .fail (.nar ("unexpected EOF reading " ++ path))
        else do
          writeBytes "NAR data" buf
          writeContents path fuel (remaining - buf.length) file

def writeFile (path : String) (mode : UInt32) (size : UInt64) (opened : Except String OpenFile) :
    NarCalls Unit := do
  writeText "type"
  writeText "regular"
  if mode &&& 0o111 ≠ 0 then
    writeText "executable"
    writeText ""
  writeText "contents"
  writeU64 size
  match opened with
  | .error e => .fail (.nar ("failed to open file " ++ path ++ ": " ++ e))
  | .ok file => do
    writeContents path size.toNat size.toNat file
    writePadding size.toNat

def writeSymlink (path : String) : Except String OsString → NarCalls Unit
  | .error e => .fail (.nar ("failed to read symlink " ++ path ++ ": " ++ e))
  | .ok target => do
    writeText "type"
    writeText "symlink"
    writeText "target"
    match target with
    | .utf8 text => writeText text
    | .other _ => .fail (.nar "symlink target is not valid UTF-8")

def writeDirEntry (name : OsString) (node : NarCalls Unit) : NarCalls Unit :=
  match name with
  | .utf8 text => do
    writeText "entry"
    writeText "("
    writeText "name"
    writeText text
    writeText "node"
    node
    writeText ")"
  | .other _ => .fail (.nar "filename is not valid UTF-8")

def listingFailure (path : String) : Option ListingError → NarCalls Unit
  | none => pure ()
  | some (.readDir e) => .fail (.nar ("failed to read directory " ++ path ++ ": " ++ e))
  | some (.entry e) => .fail (.nar ("failed to read directory entry: " ++ e))

mutual
def writeEntry (path : String) : DiskTree → NarCalls Unit
  | .unreadable e => .fail (.nar ("failed to read metadata for " ++ path ++ ": " ++ e))
  | .symlink target => do
    writeText "("
    writeSymlink path target
    writeText ")"
  | .directory entries failure => do
    writeText "("
    writeText "type"
    writeText "directory"
    listingFailure path failure
    .forEach (fun child => writeDirEntry child.1 child.2)
      ((writeChildren path entries).insertionSort fun a b => a.1.asBytes ≤ b.1.asBytes)
    writeText ")"
  | .regular mode size opened => do
    writeText "("
    writeFile path mode size opened
    writeText ")"
  | .unsupported => do
    writeText "("
    .fail (.nar ("unsupported file type: " ++ path))

def writeChildren (path : String) : List (OsString × DiskTree) → List (OsString × NarCalls Unit)
  | [] => []
  | (name, node) :: rest =>
    (name, writeEntry (match name with
      | .utf8 text => joinPath path text
      | .other _ => path) node) :: writeChildren path rest
end

def writePath (path : String) (tree : DiskTree) : NarCalls Unit := do
  writeText "nix-archive-1"
  writeEntry path tree

/-- The calls made on a sink, up to the first that fails. -/
def onSink {α : Type} (m : NarCalls α) : Writing Error α := do
  m.effects.forM fun call => streamBytes call.1 call.2
  liftExcept m.result
where
  liftExcept : Except Error α → Writing Error α
    | .ok a => pure a
    | .error e => throw e

@[simp] theorem onSink_fail {α : Type} (e : Error) :
    onSink (.fail e : NarCalls α) = throw e := rfl

@[simp] theorem onSink_pure {α : Type} (a : α) : onSink (pure a : NarCalls α) = pure a := rfl

@[simp] theorem onSink_bytes (what : String) (buf : Bytes) :
    onSink (writeBytes what buf) = streamBytes what buf := by
  simp [onSink, writeBytes, onSink.liftExcept]

theorem throw_bind {α β : Type} (e : Error) (f : α → Writing Error β) :
    (throw e >>= f : Writing Error β) = throw e := rfl

@[simp] theorem onSink_bind {α β : Type} (m : NarCalls α) (f : α → NarCalls β) :
    onSink (m >>= f) = onSink m >>= fun a => onSink (f a) := by
  obtain ⟨effects, result⟩ := m
  cases result with
  | ok a =>
    have both : (⟨effects, .ok a⟩ >>= f : NarCalls β) =
      ⟨effects ++ (f a).effects, (f a).result⟩ := rfl
    simp only [both, onSink, onSink.liftExcept, List.forM_eq_forM, List.forM_append, bind_assoc,
      pure_bind]
  | error e =>
    have stopped : (⟨effects, .error e⟩ >>= f : NarCalls β) = ⟨effects, .error e⟩ := rfl
    simp only [stopped, onSink, onSink.liftExcept, bind_assoc, throw_bind]

theorem onSink_forEach {α : Type} (f : α → NarCalls Unit) (xs : List α) :
    onSink (.forEach f xs) = xs.forM fun x => onSink (f x) := by
  have each : ∀ xs : List α, ∀ k : Writing Error Unit,
      (onSink (.mapEach f xs) >>= fun _ => k) = (xs.forM fun x => onSink (f x)) >>= fun _ => k := by
    intro xs
    induction xs with
    | nil => intro k; simp [Logged.mapEach]
    | cons x xs ih =>
      intro k
      simp only [Logged.mapEach, onSink_bind, onSink_pure, bind_assoc, pure_bind, ih,
        List.forM_eq_forM, List.forM_cons]
  rw [Logged.forEach, onSink_bind]
  simp only [onSink_pure, each, bind_pure_unit]

@[simp] theorem onSink_u64 (n : UInt64) : onSink (writeU64 n) = streamU64 n := onSink_bytes _ _

@[simp] theorem onSink_padding (size : Nat) : onSink (writePadding size) = streamPadding size := by
  unfold writePadding streamPadding
  by_cases h : (8 - size % 8) % 8 > 0 <;> simp [h]

@[simp] theorem onSink_text (s : String) : onSink (writeText s) = streamText s := by
  simp [writeText, writeString, streamText, streamString]

@[simp] theorem onSink_contents (path : String) (fuel remaining : Nat) (file : OpenFile) :
    onSink (writeContents path fuel remaining file) =
      streamContents path fuel remaining file := by
  induction fuel generalizing remaining file with
  | zero => rfl
  | succ fuel ih =>
    unfold writeContents streamContents
    by_cases hzero : remaining = 0
    · simp [hzero]
    · simp only [if_neg hzero]
      cases file.read (min remaining 65536) with
      | error e => rfl
      | ok piece =>
        by_cases hbuf : piece.1 = []
        · simp [hbuf]
        · simp [hbuf, ih]

@[simp] theorem onSink_file (path : String) (mode : UInt32) (size : UInt64)
    (opened : Except String OpenFile) :
    onSink (writeFile path mode size opened) = streamFile path mode size opened := by
  unfold writeFile streamFile
  cases opened <;> by_cases h : mode &&& 0o111 ≠ 0 <;> simp [h]

@[simp] theorem onSink_symlink (path : String) (target : Except String OsString) :
    onSink (writeSymlink path target) = streamSymlink path target := by
  rcases target with e | target
  · rfl
  · cases target <;> simp [writeSymlink, streamSymlink]

@[simp] theorem onSink_dirEntry (name : OsString) (node : NarCalls Unit) :
    onSink (writeDirEntry name node) = streamDirEntry name (onSink node) := by
  cases name <;> simp [writeDirEntry, streamDirEntry]

@[simp] theorem onSink_listing (path : String) (failure : Option ListingError) :
    onSink (listingFailure path failure) = Nar.listingFailure path failure := by
  rcases failure with _ | e
  · rfl
  · cases e <;> rfl

/-- The calls on a sink are the writing of the tree to it. -/
theorem onSink_entry (tree : DiskTree) (path : String) :
    onSink (writeEntry path tree) = streamEntry path tree := by
  induction tree using DiskTree.induction generalizing path with
  | unreadable e => rfl
  | unsupported => simp [writeEntry, streamEntry]
  | regular mode size opened => simp [writeEntry, streamEntry]
  | symlink target => simp [writeEntry, streamEntry]
  | directory entries failure ih =>
    have children : ∀ es : List (OsString × DiskTree), es ⊆ entries →
        (writeChildren path es).map (fun child => (child.1, onSink child.2)) =
          streamChildren path es := by
      intro es
      induction es with
      | nil => exact fun _ => rfl
      | cons e rest ihs =>
        intro hsub
        obtain ⟨he, hrest⟩ := List.cons_subset.mp hsub
        obtain ⟨name, node⟩ := e
        refine congrArg₂ List.cons ?_ (ihs hrest)
        exact congrArg (Prod.mk name) (ih (name, node) he _)
    have sorted : ((writeChildren path entries).insertionSort
        fun a b => a.1.asBytes ≤ b.1.asBytes).map (fun child => (child.1, onSink child.2)) =
          (streamChildren path entries).insertionSort fun a b => a.1.asBytes ≤ b.1.asBytes := by
      rw [← children entries (List.Subset.refl _)]
      exact List.map_insertionSort _ _ _ _ fun _ _ _ _ => Iff.rfl
    have loop : ((writeChildren path entries).insertionSort
        fun a b => a.1.asBytes ≤ b.1.asBytes).forM
          (fun child => streamDirEntry child.1 (onSink child.2)) =
        ((streamChildren path entries).insertionSort
          fun a b => a.1.asBytes ≤ b.1.asBytes).forM
            fun child => streamDirEntry child.1 child.2 := by
      rw [← sorted]
      simp only [List.forM_eq_forM, List.forM_map]
    simp only [writeEntry, streamEntry, onSink_bind, onSink_text, onSink_listing, onSink_forEach,
      onSink_dirEntry, loop]

theorem onSink_path (path : String) (tree : DiskTree) :
    onSink (writePath path tree) = streamPath path tree := by
  simp [writePath, streamPath, onSink_entry]

end IrohNix.Nar.Calls
