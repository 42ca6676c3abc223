import IrohNix.Nar.Encoding

namespace IrohNix.Nar
open IrohNix.Lib Logged

theorem writeU64_yields (n : Nat) : Yields id (writeU64 (.ofNat n)) (leBytes 8 n) := by
  unfold writeU64
  rw [leBytes_u64]
  exact .perform _

theorem writePadding_yields (size : Nat) :
    Yields id (writePadding size) (List.replicate ((8 - size % 8) % 8) 0) := by
  unfold writePadding
  by_cases hp : (8 - size % 8) % 8 > 0
  · rw [if_pos hp]
    exact .perform _
  · rw [if_neg hp, Nat.eq_zero_of_not_pos hp]
    exact .pure

theorem writeString_yields (s : Bytes) : Yields id (writeString s) (word s) := by
  have h := (writeU64_yields s.length).bind ((Yields.perform s).bind (writePadding_yields s.length))
  rwa [← List.append_assoc] at h

theorem writeText_yields (s : String) : Yields id (writeText s) (word (utf8 s)) :=
  writeString_yields (utf8 s)

theorem writeFile_yields (executable : Bool) (contents : Bytes) :
    Yields id (writeFile executable contents)
      (([utf8 "type", utf8 "regular"] ++
        (if executable then [utf8 "executable", utf8 ""] else []) ++
        [utf8 "contents", contents]).flatMap word) := by
  have chunks : Yields id (.forEach .perform (contents.toChunks 65536) : NarWrite Unit) contents := by
    have pieces : ∀ x ∈ contents.toChunks 65536, Yields id (.perform x : NarWrite Unit) (id x) :=
      fun x _ => .perform x
    have h := Yields.forEach pieces
    rwa [List.flatMap_id, flatten_toChunks] at h
  have body := (writeText_yields "contents").bind ((writeU64_yields contents.length).bind
    (chunks.bind (writePadding_yields contents.length)))
  cases executable with
  | false =>
    have h := (writeText_yields "type").bind ((writeText_yields "regular").bind body)
    simpa [writeFile, word, List.append_assoc] using h
  | true =>
    have h := (writeText_yields "type").bind ((writeText_yields "regular").bind
      ((writeText_yields "executable").bind ((writeText_yields "").bind body)))
    simpa [writeFile, word, List.append_assoc] using h

theorem writeDirEntry_yields {name : String} {n : Node} {node : NarWrite Unit}
    (h : Yields id node n.encode) : Yields id (writeDirEntry (.utf8 name) node)
      (([utf8 "entry", utf8 "(", utf8 "name", utf8 name, utf8 "node"] ++ n.tokens ++
        [utf8 ")"]).flatMap word) := by
  have written := (writeText_yields "entry").bind ((writeText_yields "(").bind
    ((writeText_yields "name").bind ((writeText_yields name).bind
    ((writeText_yields "node").bind (h.bind (writeText_yields ")"))))))
  simpa [writeDirEntry, Node.encode] using written

theorem writeChildren_eq_map (path : String) (entries : List (String × Node)) :
    writeChildren path (entryTrees entries) =
      entries.map fun e => (.utf8 e.1, writeEntry (joinPath path e.1) e.2.tree) := by
  induction entries with
  | nil => rfl
  | cons e rest ih => simp [entryTrees, writeChildren, ih]

/-- What the writer puts out for a node, wherever in the file system it is. -/
theorem writeEntry_yields (n : Node) (path : String) :
    Yields id (writeEntry path n.tree) n.sorted.encode := by
  induction n using Node.induction generalizing path with
  | regular executable contents =>
    have h := (writeText_yields "(").bind
      ((writeFile_yields executable contents).bind (writeText_yields ")"))
    simpa [Node.tree, writeEntry, Node.sorted, Node.encode, Node.tokens] using h
  | symlink target =>
    have target := (writeText_yields "type").bind ((writeText_yields "symlink").bind
      ((writeText_yields "target").bind (writeText_yields target)))
    have h := (writeText_yields "(").bind (target.bind (writeText_yields ")"))
    simpa [Node.tree, writeEntry, Node.sorted, Node.encode, Node.tokens, writeSymlink] using h
  | directory entries ih =>
    let write := fun e : String × Node => (OsString.utf8 e.1, writeEntry (joinPath path e.1) e.2.tree)
    have children : (writeChildren path (entryTrees entries)).insertionSort
        (fun a b => a.1.asBytes ≤ b.1.asBytes) = (sortByName entries).map write := by
      rw [writeChildren_eq_map]
      exact (List.map_insertionSort _ _ write entries fun _ _ _ _ => Iff.rfl).symm
    have inside : Yields id (.forEach (fun child => writeDirEntry child.1 child.2)
        ((sortByName entries).map write))
        ((entryTokens ((sortByName entries).map fun e => (e.1, e.2.sorted))).flatMap word) := by
      rw [forEach_map, entryTokens_eq_flatMap, List.flatMap_map, List.flatMap_assoc]
      refine .forEach fun e he => ?_
      exact writeDirEntry_yields (ih e ((sortByName_perm entries).mem_iff.mp he) _)
    have h := (writeText_yields "(").bind ((writeText_yields "type").bind
      ((writeText_yields "directory").bind (inside.bind (writeText_yields ")"))))
    rw [← children] at h
    rw [sorted_directory]
    simpa [Node.tree, writeEntry, Node.encode, Node.tokens] using h

theorem writePath_yields (n : Node) (path : String) :
    Yields id (writePath path (.ok n.tree)) n.canonical :=
  (writeText_yields "nix-archive-1").bind (writeEntry_yields n path)

/-- The bytes written for a tree found at a path. -/
def narBytes (path : String) (n : Node) : Bytes := (writePath path (.ok n.tree)).effects.flatten

theorem narBytes_eq (n : Node) (path : String) : narBytes path n = n.canonical := by
  rw [narBytes, ← List.flatMap_id, (writePath_yields n path).2]

/-- A NAR says which tree it is of, but not in which order its directories were listed,
and it says where it ends. -/
theorem nar_decodable (path path' : String) (a b : Node) (ha : a.WellFormed) (hb : b.WellFormed) :
    (writePath path (.ok a.tree)).result = .ok () ∧
      (narBytes path a = narBytes path' b ↔ Relisted a b) ∧
      (narBytes path a <+: narBytes path' b → narBytes path a = narBytes path' b) := by
  have bytes := narBytes_eq a path
  have bytes' := narBytes_eq b path'
  have written := (writePath_yields a path).1
  rw [bytes, bytes']
  refine ⟨written, ⟨fun h => ?_, canonical_eq_of_relisted ha.distinct⟩, fun h => ?_⟩
  · exact relisted_of_canonical ha hb (h ▸ List.prefix_refl _)
  · exact canonical_eq_of_relisted ha.distinct (relisted_of_canonical ha hb h)

theorem nar_decodable_listings :
    narBytes "/nix/store/a" (.directory [("lib", .symlink "."), ("bin", .regular true [7])]) =
      narBytes "/tmp/a" (.directory [("bin", .regular true [7]), ("lib", .symlink ".")]) := by
  have first : Node.WellFormed (.directory [("lib", .symlink "."), ("bin", .regular true [7])]) :=
    ⟨.directory (by decide) (by simp [Node.Distinct.symlink, Node.Distinct.regular]), by decide⟩
  have second : Node.WellFormed (.directory [("bin", .regular true [7]), ("lib", .symlink ".")]) :=
    ⟨.directory (by decide) (by simp [Node.Distinct.symlink, Node.Distinct.regular]), by decide⟩
  exact ((nar_decodable _ "/tmp/a" _ _ first second).2.1).mpr (.order (.swap _ _ []))

end IrohNix.Nar
