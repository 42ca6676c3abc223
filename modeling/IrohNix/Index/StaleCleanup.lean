import IrohNix.Index.HashIndex

namespace IrohNix.Index
open IrohNix.Lib

/-- What goes on while the cleanup visits one listed entry: what other tasks insert before
it locks the index again, and which paths exist when it looks and when it deletes. -/
structure Visit where
  inserted : List HashEntry
  checked : String → Bool
  present : String → Bool

/-- A row that a delete took away, and whether its store path existed at that moment. -/
structure Deletion where
  row : Row
  present : Bool
deriving DecidableEq

structure Cleanup where
  index : HashIndex
  removed : Nat
  deletions : List Deletion

/-- The rows that `delete_by_blake3` takes away. -/
def rowsUnder (index : HashIndex) (blake3 : Bytes32) : List Row :=
  index.rows.filter fun row => row.blake3 = blake3

/-- The body of the loop over the listed entries. What the delete returns is not looked at. -/
def visitEntry (visit : Visit) (s : Cleanup) (entry : HashEntry) : Cleanup :=
  let index := visit.inserted.foldl HashIndex.insert s.index
  if visit.checked entry.storePath then { s with index }
  else
    { index := (index.deleteByBlake3 entry.blake3).1
      removed := s.removed + 1
      deletions := s.deletions ++
        (rowsUnder index entry.blake3.bytes).map fun row => ⟨row, visit.present row.storePath⟩ }

def visitEntries (during : Nat → Visit) : Nat → List HashEntry → Cleanup → Cleanup
  | _, [], s => s
  | n, entry :: entries, s =>
    visitEntries during (n + 1) entries (visitEntry (during n) s entry)

def runStaleCleanup (index : HashIndex) (during : Nat → Visit) : Cleanup :=
  visitEntries during 0 index.listAll ⟨index, 0, []⟩

/-- The row under a BLAKE3 hash. -/
def rowUnder (index : HashIndex) (blake3 : Bytes32) : Option Row :=
  index.find? fun row => row.blake3 = blake3

theorem rowUnder_eq_some {index : HashIndex} {blake3 : Bytes32} {row : Row} :
    rowUnder index blake3 = some row ↔ row ∈ index.rows ∧ row.blake3 = blake3 := by
  constructor
  · intro h
    obtain ⟨hr, hb⟩ := Table.find_mem h
    exact ⟨hr, of_decide_eq_true hb⟩
  · intro h
    obtain ⟨hr, hb⟩ := h
    refine Table.find_of_only hr (decide_eq_true hb) fun other ho hsame => ?_
    by_contra hne
    have apart := schema_clash_false.mp (index.apart ho hr hne)
    exact apart.1 ((of_decide_eq_true hsame).trans hb.symm)

theorem rowsUnder_eq (index : HashIndex) (blake3 : Bytes32) :
    rowsUnder index blake3 = (rowUnder index blake3).toList := by
  have apart : index.rows.Pairwise fun a b => a.blake3 ≠ b.blake3 :=
    index.distinct.imp fun h => (schema_clash_false.mp h).1
  rw [rowsUnder, rowUnder, Table.find?]
  generalize index.rows = rows at apart ⊢
  induction rows with
  | nil => rfl
  | cons row rows ih =>
    obtain ⟨hrow, hrest⟩ := List.pairwise_cons.mp apart
    by_cases hb : row.blake3 = blake3
    · have others : rows.filter (fun row => row.blake3 = blake3) = [] := by
        refine List.filter_eq_nil_iff.mpr fun other ho => ?_
        simpa [← hb] using Ne.symm (hrow other ho)
      simp [hb, others]
    · simpa [hb] using ih hrest

/-- The row under a BLAKE3 hash after an insert: replaced by the new one if that has the
hash, and gone if the new one has its SHA-256 or its path. -/
def rowAfter (blake3 : Bytes32) (row : Option Row) (entry : HashEntry) : Option Row :=
  if entry.toRow.blake3 = blake3 then some entry.toRow
  else row.filter fun row => !schema.clash entry.toRow row

theorem rowUnder_insert (index : HashIndex) (blake3 : Bytes32) (entry : HashEntry) :
    rowUnder (index.insert entry) blake3 = rowAfter blake3 (rowUnder index blake3) entry := by
  apply Option.ext
  intro row
  rw [rowUnder_eq_some, HashIndex.insert, Table.mem_insertOrReplace, rowAfter]
  by_cases hb : entry.toRow.blake3 = blake3
  · rw [if_pos hb, Option.some.injEq]
    constructor
    · intro h
      obtain ⟨⟨_, apart⟩ | rfl, hrow⟩ := h
      · exact absurd (hb.trans hrow.symm) (schema_clash_false.mp apart).1
      · rfl
    · intro h
      rw [← h]
      exact ⟨.inr rfl, hb⟩
  · rw [if_neg hb, Option.filter_eq_some_iff, rowUnder_eq_some]
    constructor
    · intro h
      obtain ⟨⟨hr, apart⟩ | rfl, hrow⟩ := h
      · exact ⟨⟨hr, hrow⟩, by simpa using apart⟩
      · exact absurd hrow hb
    · intro h
      obtain ⟨⟨hr, hrow⟩, apart⟩ := h
      exact ⟨.inl ⟨hr, by simpa using apart⟩, hrow⟩

theorem rowUnder_inserts (index : HashIndex) (blake3 : Bytes32) (entries : List HashEntry) :
    rowUnder (entries.foldl HashIndex.insert index) blake3 =
      entries.foldl (rowAfter blake3) (rowUnder index blake3) := by
  induction entries generalizing index with
  | nil => rfl
  | cons entry entries ih => rw [List.foldl_cons, List.foldl_cons, ih, rowUnder_insert]

theorem rowUnder_delete (index : HashIndex) {blake3 : Bytes32} {deleted : Blake3Hash}
    (other : blake3 ≠ deleted.bytes) :
    rowUnder (index.deleteByBlake3 deleted).1 blake3 = rowUnder index blake3 := by
  apply Option.ext
  intro row
  rw [rowUnder_eq_some, rowUnder_eq_some, HashIndex.mem_deleteByBlake3]
  constructor
  · intro h
    exact ⟨h.1.1, h.2⟩
  · intro h
    exact ⟨⟨h.1, h.2 ▸ other⟩, h.2⟩

theorem rowUnder_visit (visit : Visit) (s : Cleanup) {entry : HashEntry} {blake3 : Bytes32}
    (other : blake3 ≠ entry.blake3.bytes) :
    rowUnder (visitEntry visit s entry).index blake3 =
      visit.inserted.foldl (rowAfter blake3) (rowUnder s.index blake3) := by
  unfold visitEntry
  split
  · exact rowUnder_inserts ..
  · exact (rowUnder_delete _ other).trans (rowUnder_inserts ..)

/-- Only rows are gone whose path was too, and they have been counted. -/
structure Clean (s : Cleanup) : Prop where
  stale : ∀ d ∈ s.deletions, d.present = false
  counted : s.removed = s.deletions.length

/-- What the delete of a visit finds, if it comes to one, is one row whose path is gone. -/
def FindsStale (visit : Visit) (row : Option Row) (storePath : String) : Prop :=
  visit.checked storePath = false →
    ∃ found, row = some found ∧ visit.present found.storePath = false

/-- A visit counts a row, and takes away at most one. -/
theorem visitEntry_clean (visit : Visit) {s : Cleanup} (entry : HashEntry)
    (most : s.deletions.length ≤ s.removed) :
    (visitEntry visit s entry).deletions.length ≤ (visitEntry visit s entry).removed ∧
      (Clean (visitEntry visit s entry) ↔ Clean s ∧
        FindsStale visit (visit.inserted.foldl (rowAfter entry.blake3.bytes)
          (rowUnder s.index entry.blake3.bytes)) entry.storePath) := by
  unfold visitEntry FindsStale
  cases hc : visit.checked entry.storePath with
  | true =>
    refine ⟨by simpa using most, ?_⟩
    simp only [if_true, reduceCtorEq, false_implies, and_true]
    exact ⟨fun h => ⟨h.stale, h.counted⟩, fun h => ⟨h.stale, h.counted⟩⟩
  | false =>
    simp only [Bool.false_eq_true, if_false, true_implies, rowsUnder_eq]
    rw [← rowUnder_inserts]
    cases rowUnder (visit.inserted.foldl HashIndex.insert s.index) entry.blake3.bytes with
    | none =>
      refine ⟨by simp; omega, iff_of_false (fun h => ?_) (by simp)⟩
      have := h.counted
      simp at this
      omega
    | some row =>
      refine ⟨by simpa using most, ?_⟩
      constructor
      · intro h
        have := h.counted
        have stale := h.stale
        simp only [Option.toList_some, List.map_cons, List.map_nil, List.mem_append,
          List.mem_singleton, List.length_append, List.length_singleton] at this stale
        exact ⟨⟨fun d hd => stale d (.inl hd), by omega⟩, row, rfl, stale _ (.inr rfl)⟩
      · intro h
        obtain ⟨clean, found, he, hgone⟩ := h
        cases he
        refine ⟨fun d hd => ?_, by simp [clean.counted]⟩
        rcases List.mem_append.mp hd with hd | hd
        · exact clean.stale d hd
        · rw [List.mem_singleton.mp hd]
          exact hgone

/-- What is inserted in the visits from one number on, up to another. -/
def insertedBetween (during : Nat → Visit) (first count : Nat) : List HashEntry :=
  (List.range' first count).flatMap fun n => (during n).inserted

theorem visitEntries_clean (during : Nat → Visit) (n : Nat) (entries : List HashEntry)
    (distinct : entries.Pairwise fun a b => a.blake3 ≠ b.blake3) {s : Cleanup}
    (most : s.deletions.length ≤ s.removed) :
    Clean (visitEntries during n entries s) ↔ Clean s ∧
      ∀ i entry, entries[i]? = some entry →
        FindsStale (during (n + i))
          ((insertedBetween during n (i + 1)).foldl (rowAfter entry.blake3.bytes)
            (rowUnder s.index entry.blake3.bytes)) entry.storePath := by
  induction entries generalizing n s with
  | nil => simp [visitEntries]
  | cons entry entries ih =>
    obtain ⟨hnew, hrest⟩ := List.pairwise_cons.mp distinct
    obtain ⟨most', step⟩ := visitEntry_clean (during n) entry most
    have first : insertedBetween during n 1 = (during n).inserted := by simp [insertedBetween]
    have more : ∀ i, insertedBetween during n (i + 1 + 1) =
        (during n).inserted ++ insertedBetween during (n + 1) (i + 1) := fun i => rfl
    have shift : ∀ i, n + 1 + i = n + (i + 1) := fun i => by omega
    rw [visitEntries, ih (n + 1) hrest most', step, and_assoc]
    refine and_congr_right fun _ => ?_
    constructor
    · intro h i e he
      cases i with
      | zero =>
        cases he
        simpa [first] using h.1
      | succ i =>
        have later := h.2 i e he
        have other : e.blake3.bytes ≠ entry.blake3.bytes := fun hs =>
          hnew e (List.mem_of_getElem? he) (Blake3Hash.ext hs.symm)
        rwa [rowUnder_visit _ _ other, ← List.foldl_append, ← more, shift] at later
    · intro h
      refine ⟨by simpa [first] using h 0 entry rfl, fun i e he => ?_⟩
      have other : e.blake3.bytes ≠ entry.blake3.bytes := fun hs =>
        hnew e (List.mem_of_getElem? he) (Blake3Hash.ext hs.symm)
      rw [rowUnder_visit _ _ other, ← List.foldl_append, ← more, shift]
      exact h (i + 1) e he

/-- Nothing interleaves, and the same paths exist throughout. -/
def Quiet (during : Nat → Visit) (onDisk : String → Bool) : Prop :=
  ∀ n, during n = ⟨[], onDisk, onDisk⟩

theorem mem_visitEntries {during : Nat → Visit} {onDisk : String → Bool}
    (quiet : Quiet during onDisk) (n : Nat) (entries : List HashEntry) (s : Cleanup) (row : Row) :
    row ∈ (visitEntries during n entries s).index.rows ↔ row ∈ s.index.rows ∧
      ∀ entry ∈ entries, onDisk entry.storePath = false → row.blake3 ≠ entry.blake3.bytes := by
  induction entries generalizing n s with
  | nil => simp [visitEntries]
  | cons entry entries ih =>
    have visited : row ∈ (visitEntry (during n) s entry).index.rows ↔ row ∈ s.index.rows ∧
        (onDisk entry.storePath = false → row.blake3 ≠ entry.blake3.bytes) := by
      unfold visitEntry
      rw [quiet n]
      cases hdisk : onDisk entry.storePath with
      | true => simp [hdisk]
      | false => simp [hdisk, HashIndex.mem_deleteByBlake3]
    rw [visitEntries, ih, visited, List.forall_mem_cons, and_assoc]

/-- What is left of an index is every row whose path exists. -/
theorem left_quiet (index : HashIndex) {during : Nat → Visit} {onDisk : String → Bool}
    (quiet : Quiet during onDisk) (row : Row) :
    row ∈ (runStaleCleanup index during).index.rows ↔
      row ∈ index.rows ∧ onDisk row.storePath = true := by
  rw [runStaleCleanup, mem_visitEntries quiet]
  refine and_congr_right fun hr => ?_
  simp only [HashIndex.listAll, List.forall_mem_map]
  constructor
  · intro h
    by_contra hgone
    exact h row hr (Bool.eq_false_iff.mpr hgone) rfl
  · intro h other ho hgone hsame
    have one : other = row := by
      by_contra hne
      exact (schema_clash_false.mp (index.apart ho hr hne)).1 hsame.symm
    rw [one] at hgone
    exact absurd (hgone.symm.trans h) Bool.false_ne_true

/-- The cleanup removes only rows whose path does not exist at that moment, returns how
many they are, and leaves alone exactly the others if nothing interleaves. -/
structure CleansUp (index : HashIndex) (during : Nat → Visit) : Prop where
  stale : ∀ d ∈ (runStaleCleanup index during).deletions, d.present = false
  counted : (runStaleCleanup index during).removed =
    (runStaleCleanup index during).deletions.length
  left : ∀ onDisk, Quiet during onDisk → ∀ row,
    row ∈ (runStaleCleanup index during).index.rows ↔
      row ∈ index.rows ∧ onDisk row.storePath = true

theorem listAll_distinct (index : HashIndex) :
    index.listAll.Pairwise fun a b => a.blake3 ≠ b.blake3 := by
  rw [HashIndex.listAll, List.pairwise_map]
  refine index.distinct.imp fun apart same => ?_
  exact (schema_clash_false.mp apart).1 (congrArg Blake3Hash.bytes same)

/-- It does exactly if of every row that is listed and whose path is found missing, the
inserts since the listing leave a row under its BLAKE3 hash whose path is missing too. -/
theorem cleans_up_iff (index : HashIndex) (during : Nat → Visit) :
    CleansUp index during ↔
      ∀ i row, index.rows[i]? = some row → (during i).checked row.storePath = false →
        ∃ found, (insertedBetween during 0 (i + 1)).foldl (rowAfter row.blake3) (some row) =
          some found ∧ (during i).present found.storePath = false := by
  have clean := visitEntries_clean during 0 index.listAll (listAll_distinct index)
    (s := ⟨index, 0, []⟩) (Nat.le_refl 0)
  have start : Clean ⟨index, 0, []⟩ := ⟨by simp, rfl⟩
  have visits : Clean (runStaleCleanup index during) ↔
      ∀ i row, index.rows[i]? = some row →
        FindsStale (during i) ((insertedBetween during 0 (i + 1)).foldl (rowAfter row.blake3)
          (some row)) row.storePath := by
    rw [runStaleCleanup, clean, and_iff_right start]
    simp only [Nat.zero_add, HashIndex.listAll, List.getElem?_map, Option.map_eq_some_iff,
      forall_exists_index, and_imp, forall_apply_eq_imp_iff₂]
    refine forall₃_congr fun i row hrow => ?_
    have held : rowUnder index row.blake3 = some row :=
      rowUnder_eq_some.mpr ⟨List.mem_of_getElem? hrow, rfl⟩
    simp only [Row.toEntry, held]
  constructor
  · intro h
    exact visits.mp ⟨h.stale, h.counted⟩
  · intro h
    have all := visits.mpr h
    exact ⟨all.stale, all.counted, fun onDisk quiet row => left_quiet index quiet row⟩

section Replaced

/-- One content, first at a path that is gone and then at one that is there. -/
def contentAt (storePath : String) : HashEntry where
  blake3 := ⟨zeroBytes32⟩
  sha256 := ⟨zeroBytes32⟩
  storePath
  narSize := 1024
  references := []
  deriver := none

/-- The content is indexed again, at its new path, before the delete. -/
theorem replaced_row_deleted :
    let there := fun path => decide (path = "/nix/store/here")
    let visit : Visit := ⟨[contentAt "/nix/store/here"], there, there⟩
    let cleanup := runStaleCleanup (HashIndex.insert Table.empty (contentAt "/nix/store/gone"))
      fun _ => visit
    cleanup.deletions = [⟨(contentAt "/nix/store/here").toRow, true⟩] ∧
      cleanup.index.rows = [] := by
  decide +kernel

end Replaced

end IrohNix.Index
