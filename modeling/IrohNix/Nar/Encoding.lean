import IrohNix.Lib.PrefixCode
import IrohNix.Nar.Writer

namespace IrohNix.Nar
open IrohNix.Lib

/-- What a NAR can hold: a file tree whose names and targets are UTF-8. A directory's
entries stand in the order they are listed. -/
inductive Node where
  | regular (executable : Bool) (contents : Bytes)
  | symlink (target : String)
  | directory (entries : List (String × Node))

mutual
def Node.tree : Node → FileTree
  | .regular executable contents => .regular executable contents
  | .symlink target => .symlink (.utf8 target)
  | .directory entries => .directory (entryTrees entries)

def entryTrees : List (String × Node) → List (OsString × FileTree)
  | [] => []
  | (name, node) :: rest => (.utf8 name, node.tree) :: entryTrees rest
end

theorem Node.induction {P : Node → Prop}
    (regular : ∀ executable contents, P (.regular executable contents))
    (symlink : ∀ target, P (.symlink target))
    (directory : ∀ entries, (∀ e ∈ entries, P e.2) → P (.directory entries)) :
    ∀ node, P node
  | .regular executable contents => regular executable contents
  | .symlink target => symlink target
  | .directory entries => directory entries (inside entries)
where
  inside : ∀ (entries : List (String × Node)) (e : String × Node), e ∈ entries → P e.2
    | (_, node) :: rest, e, he => by
      rcases List.mem_cons.mp he with rfl | he
      · exact Node.induction regular symlink directory node
      · exact inside rest e he

/-- A string of a NAR: its length, its bytes, and zeros up to a multiple of 8. -/
def word (s : Bytes) : Bytes :=
  leBytes 8 s.length ++ s ++ List.replicate ((8 - s.length % 8) % 8) 0

mutual
/-- The strings a NAR consists of. -/
def Node.tokens : Node → List Bytes
  | .regular executable contents =>
    [utf8 "(", utf8 "type", utf8 "regular"] ++
      (if executable then [utf8 "executable", utf8 ""] else []) ++
      [utf8 "contents", contents, utf8 ")"]
  | .symlink target =>
    [utf8 "(", utf8 "type", utf8 "symlink", utf8 "target", utf8 target, utf8 ")"]
  | .directory entries =>
    [utf8 "(", utf8 "type", utf8 "directory"] ++ entryTokens entries ++ [utf8 ")"]

def entryTokens : List (String × Node) → List Bytes
  | [] => []
  | (name, node) :: rest =>
    [utf8 "entry", utf8 "(", utf8 "name", utf8 name, utf8 "node"] ++ node.tokens ++
      [utf8 ")"] ++ entryTokens rest
end

theorem entryTokens_eq_flatMap (entries : List (String × Node)) :
    entryTokens entries = entries.flatMap fun e =>
      [utf8 "entry", utf8 "(", utf8 "name", utf8 e.1, utf8 "node"] ++ e.2.tokens ++ [utf8 ")"] := by
  induction entries with
  | nil => rfl
  | cons e rest ih => simp [entryTokens, ih]

def Node.encode (n : Node) : Bytes := n.tokens.flatMap word

/-- Entries in the order of the bytes of their names. -/
def sortByName {α : Type} (entries : List (String × α)) : List (String × α) :=
  entries.insertionSort fun a b => utf8 a.1 ≤ utf8 b.1

theorem sortByName_perm {α : Type} (entries : List (String × α)) :
    (sortByName entries).Perm entries := List.perm_insertionSort _ entries

/-- Sorting by name does not look at what is named. -/
theorem sortByName_map {α β : Type} (f : α → β) (entries : List (String × α)) :
    sortByName (entries.map fun e => (e.1, f e.2)) =
      (sortByName entries).map fun e => (e.1, f e.2) :=
  (List.map_insertionSort (fun a b : String × α => utf8 a.1 ≤ utf8 b.1)
    (fun a b : String × β => utf8 a.1 ≤ utf8 b.1) _ entries fun _ _ _ _ => Iff.rfl).symm

/-- Distinct names come out in strictly ascending order. -/
theorem sortByName_ascending {α : Type} {entries : List (String × α)}
    (distinct : (entries.map Prod.fst).Nodup) :
    (sortByName entries).Pairwise fun a b => utf8 a.1 < utf8 b.1 := by
  have names : ((sortByName entries).map Prod.fst).Nodup :=
    ((sortByName_perm entries).map Prod.fst).nodup_iff.mpr distinct
  have differ : (sortByName entries).Pairwise fun a b => a.1 ≠ b.1 := List.pairwise_map.mp names
  have total : Std.Total fun a b : String × α => utf8 a.1 ≤ utf8 b.1 :=
    ⟨fun a b => Std.Total.total (utf8 a.1) (utf8 b.1)⟩
  have transitive : IsTrans (String × α) fun a b => utf8 a.1 ≤ utf8 b.1 :=
    ⟨fun a b c => List.le_trans⟩
  have ordered := List.pairwise_insertionSort (fun a b : String × α => utf8 a.1 ≤ utf8 b.1) entries
  refine (ordered.and differ).imp fun {a b} h => ?_
  exact Std.lt_of_le_of_ne h.1 fun he => h.2 (utf8_inj.mp he)

/-- The order in which distinct names are listed makes no difference. -/
theorem sortByName_eq_of_perm {α : Type} {entries entries' : List (String × α)}
    (hp : entries.Perm entries') (distinct : (entries.map Prod.fst).Nodup) :
    sortByName entries = sortByName entries' := by
  have distinct' := (hp.map Prod.fst).nodup_iff.mp distinct
  have perm := (sortByName_perm entries).trans (hp.trans (sortByName_perm entries').symm)
  refine perm.eq_of_pairwise (fun a b _ _ hab hba => ?_) (sortByName_ascending distinct)
    (sortByName_ascending distinct')
  exact absurd hab (List.lt_asymm hba)

mutual
/-- The same tree with the entries of every directory in the order of their names. -/
def Node.sorted : Node → Node
  | .regular executable contents => .regular executable contents
  | .symlink target => .symlink target
  | .directory entries => .directory (sortByName (sortedInside entries))

def sortedInside : List (String × Node) → List (String × Node)
  | [] => []
  | (name, node) :: rest => (name, node.sorted) :: sortedInside rest
end

theorem sortedInside_eq_map (entries : List (String × Node)) :
    sortedInside entries = entries.map fun e => (e.1, e.2.sorted) := by
  induction entries with
  | nil => rfl
  | cons e rest ih => simp [sortedInside, ih]

theorem sorted_directory (entries : List (String × Node)) :
    (Node.directory entries).sorted =
      .directory ((sortByName entries).map fun e => (e.1, e.2.sorted)) := by
  rw [Node.sorted, sortedInside_eq_map, sortByName_map]

/-- The encoding of a tree, whatever order its directories are listed in. -/
def Node.canonical (n : Node) : Bytes := word (utf8 "nix-archive-1") ++ n.sorted.encode

/-- The same tree, with its directories listed in another order. -/
inductive Relisted : Node → Node → Prop where
  | refl (n : Node) : Relisted n n
  | trans {a b c : Node} : Relisted a b → Relisted b c → Relisted a c
  | order {entries entries' : List (String × Node)} :
      entries.Perm entries' → Relisted (.directory entries) (.directory entries')
  | inside {a b : Node} (before after : List (String × Node)) (name : String) : Relisted a b →
      Relisted (.directory (before ++ (name, a) :: after))
        (.directory (before ++ (name, b) :: after))

theorem Relisted.symm {a b : Node} (h : Relisted a b) : Relisted b a := by
  induction h with
  | refl n => exact .refl n
  | trans _ _ ih₁ ih₂ => exact ih₂.trans ih₁
  | order hp => exact .order hp.symm
  | inside before after name _ ih => exact .inside before after name ih

/-- Each entry of a directory may be relisted on its own. -/
theorem Relisted.map {f : Node → Node} (before : List (String × Node))
    {entries : List (String × Node)} (h : ∀ e ∈ entries, Relisted e.2 (f e.2)) :
    Relisted (.directory (before ++ entries))
      (.directory (before ++ entries.map fun e => (e.1, f e.2))) := by
  induction entries generalizing before with
  | nil => exact .refl _
  | cons e rest ih =>
    obtain ⟨name, node⟩ := e
    have first := Relisted.inside before rest name (h (name, node) (by simp))
    have later := ih (before ++ [(name, f node)]) fun e he => h e (by simp [he])
    refine first.trans ?_
    simpa using later

theorem relisted_sorted (n : Node) : Relisted n n.sorted := by
  induction n using Node.induction with
  | regular executable contents => exact .refl _
  | symlink target => exact .refl _
  | directory entries ih =>
    rw [sorted_directory]
    refine Relisted.trans (.order (sortByName_perm entries).symm) ?_
    refine Relisted.map [] fun e he => ih e ?_
    exact (sortByName_perm entries).mem_iff.mp he

/-- No directory lists a name twice. -/
inductive Node.Distinct : Node → Prop where
  | regular (executable : Bool) (contents : Bytes) : Distinct (.regular executable contents)
  | symlink (target : String) : Distinct (.symlink target)
  | directory {entries : List (String × Node)} (names : (entries.map Prod.fst).Nodup)
      (inside : ∀ e ∈ entries, e.2.Distinct) : Distinct (.directory entries)

/-- The entries of every directory stand in strictly ascending order of their names. -/
inductive Node.Ascending : Node → Prop where
  | regular (executable : Bool) (contents : Bytes) : Ascending (.regular executable contents)
  | symlink (target : String) : Ascending (.symlink target)
  | directory {entries : List (String × Node)}
      (names : entries.Pairwise fun a b => utf8 a.1 < utf8 b.1)
      (inside : ∀ e ∈ entries, e.2.Ascending) : Ascending (.directory entries)

theorem Node.Distinct.sorted_ascending {n : Node} (h : n.Distinct) : n.sorted.Ascending := by
  induction h with
  | regular executable contents => exact .regular executable contents
  | symlink target => exact .symlink target
  | @directory entries names _ ih =>
    rw [sorted_directory]
    refine .directory (List.pairwise_map.mpr (sortByName_ascending names)) fun e he => ?_
    obtain ⟨d, hd, rfl⟩ := List.mem_map.mp he
    exact ih d ((sortByName_perm entries).mem_iff.mp hd)

theorem Node.Distinct.relisted {a b : Node} (h : Relisted a b) (ha : a.Distinct) :
    b.Distinct := by
  induction h with
  | refl n => exact ha
  | trans _ _ ih₁ ih₂ => exact ih₂ (ih₁ ha)
  | order hp =>
    cases ha with
    | directory names inside =>
      refine .directory ((hp.map Prod.fst).nodup_iff.mp names) fun e he => ?_
      exact inside e (hp.mem_iff.mpr he)
  | @inside a b before after name _ ih =>
    cases ha with
    | directory names inside =>
      refine .directory (by simpa using names) fun e he => ?_
      rcases (by simpa using he : e ∈ before ∨ e = (name, b) ∨ e ∈ after) with he | rfl | he
      · exact inside e (by simp [he])
      · exact ih (inside (name, a) (by simp))
      · exact inside e (by simp [he])

/-- Sorting forgets how the directories were listed, and nothing else. -/
theorem sorted_eq_iff {a b : Node} (ha : a.Distinct) : a.sorted = b.sorted ↔ Relisted a b := by
  constructor
  · intro h
    exact (relisted_sorted a).trans (h ▸ (relisted_sorted b).symm)
  · intro h
    induction h with
    | refl n => rfl
    | trans h₁ _ ih₁ ih₂ => exact (ih₁ ha).trans (ih₂ (ha.relisted h₁))
    | order hp =>
      cases ha with
      | directory names _ => rw [sorted_directory, sorted_directory, sortByName_eq_of_perm hp names]
    | @inside a b before after name _ ih =>
      cases ha with
      | directory _ inside =>
        have same := ih (inside (name, a) (by simp))
        simp only [Node.sorted, sortedInside_eq_map, List.map_append, List.map_cons, same]

theorem canonical_eq_of_relisted {a b : Node} (ha : a.Distinct) (h : Relisted a b) :
    a.canonical = b.canonical := by
  rw [Node.canonical, Node.canonical, (sorted_eq_iff ha).mpr h]

theorem Relisted.mem_tokens {a b : Node} (h : Relisted a b) (w : Bytes) :
    w ∈ a.tokens ↔ w ∈ b.tokens := by
  induction h with
  | refl n => rfl
  | trans _ _ ih₁ ih₂ => exact ih₁.trans ih₂
  | order hp => simp [Node.tokens, entryTokens_eq_flatMap, hp.mem_iff]
  | inside before after name _ ih => simp [Node.tokens, entryTokens_eq_flatMap, ih]

/-- What a file system can hold: no name twice in a directory, and no length beyond
64 bits. -/
structure Node.WellFormed (n : Node) : Prop where
  distinct : n.Distinct
  sizes : ∀ w ∈ n.tokens, w.length < 2 ^ 64

theorem Node.WellFormed.sorted {n : Node} (h : n.WellFormed) : n.sorted.WellFormed where
  distinct := h.distinct.relisted (relisted_sorted n)
  sizes := fun w hw => h.sizes w (((relisted_sorted n).mem_tokens w).mpr hw)

theorem leBytes_prefix {n m : Nat} {r s : Bytes} (hn : n < 2 ^ 64) (hm : m < 2 ^ 64)
    (h : leBytes 8 n ++ r = leBytes 8 m ++ s) : n = m ∧ r = s := by
  obtain ⟨hnm, hrs⟩ := List.append_inj h (by simp)
  exact ⟨leBytes_inj hn hm hnm, hrs⟩

/-- The length in front says how long a string and its padding are. -/
theorem word_prefixFree : PrefixFree {s : Bytes | s.length < 2 ^ 64} word := by
  apply PrefixFree.of_cancel
  intro a ha b hb r s h
  simp only [word, List.append_assoc] at h
  obtain ⟨hlen, hrest⟩ := leBytes_prefix ha hb h
  exact (List.append_inj hrest hlen).1

theorem word_ne_nil (s : Bytes) : word s ≠ [] := by simp [word, leBytes]

/-- Entries up to the closing parenthesis of their directory are determined, if the
nodes in them are. -/
theorem entryTokens_cancel {entries entries' : List (String × Node)} {r s : List Bytes}
    (inside : ∀ e ∈ entries, ∀ (n : Node) (r s : List Bytes),
      e.2.tokens ++ r = n.tokens ++ s → e.2 = n ∧ r = s)
    (h : entryTokens entries ++ utf8 ")" :: r = entryTokens entries' ++ utf8 ")" :: s) :
    entries = entries' ∧ r = s := by
  induction entries generalizing entries' with
  | nil =>
    cases entries' with
    | nil => simpa [entryTokens] using h
    | cons e rest => simp [entryTokens, utf8_inj] at h
  | cons e rest ih =>
    cases entries' with
    | nil => simp [entryTokens, utf8_inj] at h
    | cons e' rest' =>
      simp only [entryTokens, List.cons_append, List.nil_append, List.append_assoc,
        List.cons.injEq, true_and, utf8_inj] at h
      obtain ⟨hname, hnode⟩ := h
      obtain ⟨hnode, hrest⟩ := inside e (by simp) _ _ _ hnode
      simp only [List.cons.injEq, true_and] at hrest
      obtain ⟨hrest, hrs⟩ := ih (fun d hd => inside d (by simp [hd])) hrest
      exact ⟨by rw [Prod.ext hname hnode, hrest], hrs⟩

/-- The keywords tell the kinds of nodes apart and where each ends. -/
theorem tokens_cancel (m n : Node) (r s : List Bytes) (h : m.tokens ++ r = n.tokens ++ s) :
    m = n ∧ r = s := by
  induction m using Node.induction generalizing n r s with
  | regular executable contents =>
    cases n with
    | regular executable' contents' =>
      cases executable <;> cases executable' <;> simp_all [Node.tokens, utf8_inj]
    | symlink target => simp [Node.tokens, utf8_inj] at h
    | directory entries => simp [Node.tokens, utf8_inj] at h
  | symlink target =>
    cases n with
    | regular executable contents => simp [Node.tokens, utf8_inj] at h
    | symlink target' => simpa [Node.tokens, utf8_inj] using h
    | directory entries => simp [Node.tokens, utf8_inj] at h
  | directory entries ih =>
    cases n with
    | regular executable contents => simp [Node.tokens, utf8_inj] at h
    | symlink target => simp [Node.tokens, utf8_inj] at h
    | directory entries' =>
      simp only [Node.tokens, List.cons_append, List.nil_append, List.append_assoc,
        List.cons.injEq, true_and] at h
      obtain ⟨hentries, hrs⟩ := entryTokens_cancel ih h
      exact ⟨by rw [hentries], hrs⟩

theorem tokens_prefixFree : PrefixFree Set.univ Node.tokens :=
  .of_cancel fun a _ b _ r s h => (tokens_cancel a b r s h).1

/-- No well-formed tree's encoding begins another's. -/
theorem encode_prefixFree : PrefixFree {n : Node | n.WellFormed} Node.encode := by
  have spelled : PrefixFree {n : Node | n.WellFormed} fun n => n.tokens.flatMap word := by
    refine PrefixFree.spelled (fun a _ b _ h => tokens_prefixFree a trivial b trivial h)
      word_prefixFree (fun s _ => word_ne_nil s) fun n hn => ?_
    exact hn.sizes
  exact spelled

/-- A canonical encoding says which tree it is of, up to the order of listings, and
where it ends. -/
theorem relisted_of_canonical {a b : Node} (ha : a.WellFormed) (hb : b.WellFormed)
    (h : a.canonical <+: b.canonical) : Relisted a b := by
  have inside := (List.prefix_append_right_inj _).mp h
  exact (sorted_eq_iff ha.distinct).mp (encode_prefixFree _ ha.sorted _ hb.sorted inside)

end IrohNix.Nar
