import IrohNix.Index.Migration

namespace IrohNix.Index
open IrohNix.Lib

namespace Database

/-- A database of an older version: `store_hash` came first, `references` and
`deriver` after it and together. -/
def older (storeHash references : Bool) (indexes : List String) (rows : Table stored) :
    Database where
  columns := [.blake3, .sha256, .storePath, .narSize] ++ (if storeHash then [.storeHash] else []) ++
    (if references then [.references, .deriver] else [])
  indexes := indexes
  rows := rows

/-- What a migration owes to the rows it found. -/
structure Migrated (old new : Database) : Prop where
  listed : ∃ entries, new.listAll = .ok entries ∧ ∀ row ∈ old.rows.rows, ∃ entry ∈ entries,
    entry.blake3.bytes = row.blake3 ∧ entry.sha256.bytes = row.sha256 ∧
    entry.storePath = row.storePath ∧ entry.narSize = row.narSize.toUInt64
  filled : Filled new.rows.rows
  found : ∀ row ∈ old.rows.rows, ∀ hash, extractStoreHash row.storePath = some hash →
    ∃ entry, new.getByStoreHash hash = .ok (some entry) ∧
      ((∀ other ∈ new.rows.rows, other.storeHash = some hash → other.storePath = row.storePath) →
        entry.storePath = row.storePath)

/-- The next `open`, after the process stopped with `k` statements done. -/
def reopen (old : Database) (k : Nat) : Except Error Database :=
  (sqlite.stoppedAfter old old.initSchema k).initSchema.result

/-- The next `open` migrates all the same. -/
def Survives (old : Database) (k : Nat) : Prop := ∃ new, old.reopen k = .ok new ∧ old.Migrated new

/-- The number of the statement that adds `references`, when that column is missing. -/
def referencesAt (db : Database) : Nat :=
  if db.hasColumn .storeHash then 4 else 6 + db.toFill.length

/-- The process does not stop from when `store_hash` is there until its last row
is filled, nor between the two columns that come together. -/
def SafeStop (db : Database) (k : Nat) : Prop :=
  (if db.hasColumn .storeHash then Filled db.rows.rows
    else k ≤ 3 ∨ db.toFill.length ≤ k - 5) ∧
  (db.hasColumn .references = false → k ≠ db.referencesAt)

theorem prepare_ok {db : Database} {columns : List Column} :
    db.prepare columns = .ok () ↔ ∀ column ∈ columns, column ∈ db.columns := by
  rw [prepare]
  cases hf : columns.find? fun column => column ∉ db.columns with
  | none =>
    have := List.find?_eq_none.mp hf
    simpa using this
  | some column =>
    obtain ⟨hc, hmem⟩ := And.intro (List.find?_some hf) (List.mem_of_find?_eq_some hf)
    simp only [reduceCtorEq, false_iff, not_forall]
    exact ⟨column, hmem, of_decide_eq_true hc⟩

theorem listAll_ok {db : Database} {entries : List HashEntry} (h : db.listAll = .ok entries) :
    .deriver ∈ db.columns := by
  obtain ⟨_, prepared, _⟩ := except_bind_ok.mp h
  exact prepare_ok.mp prepared .deriver (by simp [entryColumns])

/-- With all its columns, a table is read as the index it stands for. -/
theorem read_whole {db : Database} (h : db.Usable) (storeHash : .storeHash ∈ db.columns)
    (references : .references ∈ db.columns) (deriver : .deriver ∈ db.columns) :
    db.listAll = .ok db.index.listAll ∧
      ∀ hash, db.getByStoreHash hash = .ok (db.index.getByStoreHash hash) := by
  have every : ∀ column, column ∈ db.columns := by
    intro column
    cases column with
    | blake3 => exact h.blake3
    | sha256 => exact h.sha256
    | storePath => exact h.storePath
    | narSize => exact h.narSize
    | storeHash => exact storeHash
    | references => exact references
    | deriver => exact deriver
  refine ⟨?_, fun hash => ?_⟩
  · rw [listAll, prepare_ok.mpr fun column _ => every column]
    rfl
  · rw [getByStoreHash, prepare_ok.mpr fun column _ => every column]
    rfl

/-- A filled row is found by the store hash of its path, unless a row of another
path has the same one. -/
theorem found_by_storeHash {db : Database} {row : StoredRow} (hr : row ∈ db.rows.rows)
    {hash : String} (hh : row.storeHash = some hash) :
    ∃ entry, db.index.getByStoreHash hash = some entry ∧
      ((∀ other ∈ db.rows.rows, other.storeHash = some hash → other.storePath = row.storePath) →
        entry.storePath = row.storePath) := by
  have some_row : (db.index.find? fun r => r.storeHash = some hash).isSome := by
    rw [Table.find?, List.find?_isSome]
    exact ⟨row.toRow, List.mem_map.mpr ⟨row, hr, rfl⟩, by simpa using hh⟩
  obtain ⟨first, hf⟩ := Option.isSome_iff_exists.mp some_row
  obtain ⟨hmem, hfirst⟩ := Table.find_mem hf
  obtain ⟨other, ho, rfl⟩ := List.mem_map.mp hmem
  refine ⟨other.toRow.toEntry, ?_, fun unshared => unshared other ho (of_decide_eq_true hfirst)⟩
  rw [HashIndex.getByStoreHash, hf, Option.map_some]

theorem migrated_iff {old new : Database} (h : new.Usable) (kept : old.KeepsRows new)
    (storeHash : .storeHash ∈ new.columns) (references : .references ∈ new.columns) :
    old.Migrated new ↔ Filled new.rows.rows ∧ .deriver ∈ new.columns := by
  constructor
  · intro migrated
    obtain ⟨entries, listed, _⟩ := migrated.listed
    exact ⟨migrated.filled, listAll_ok listed⟩
  · intro whole
    obtain ⟨filled, deriver⟩ := whole
    obtain ⟨hlist, hfind⟩ := read_whole h storeHash references deriver
    obtain ⟨f, same, hrows⟩ := kept
    have there (row : StoredRow) (hr : row ∈ old.rows.rows) : f row ∈ new.rows.rows := by
      rw [hrows]
      exact List.mem_map_of_mem hr
    refine ⟨⟨_, hlist, fun row hr => ?_⟩, filled, fun row hr hash hhash => ?_⟩
    · refine ⟨(f row).toRow.toEntry, ?_, (same row).blake3, (same row).sha256,
        (same row).storePath, ?_⟩
      · exact List.mem_map_of_mem (List.mem_map_of_mem (there row hr))
      · rw [← (same row).narSize]
        rfl
    · rw [← (same row).storePath] at hhash ⊢
      obtain ⟨entry, he, hpath⟩ :=
        found_by_storeHash (there row hr) (filled _ (there row hr) hash hhash)
      exact ⟨entry, by rw [hfind, he], hpath⟩

theorem older_usable (storeHash references : Bool) (indexes : List String) (rows : Table stored) :
    (older storeHash references indexes rows).Usable := by
  constructor <;> cases storeHash <;> cases references <;> simp [older]

theorem older_deriver (storeHash references : Bool) (indexes : List String) (rows : Table stored) :
    .deriver ∈ (older storeHash references indexes rows).columns ↔
      .references ∈ (older storeHash references indexes rows).columns := by
  cases storeHash <;> cases references <;> simp [older]

theorem referencesAt_eq (db : Database) : db.referencesAt = 4 + db.addStoreHash.length := by
  rw [referencesAt, addStoreHash_length]
  split <;> omega

/-- What the first window leaves behind: a column that the next run takes for filled. -/
theorem stopped_filled_iff {db : Database} (h : db.Usable) (k : Nat) :
    (.storeHash ∈ (sqlite.stoppedAfter db db.initSchema k).columns →
      Filled (sqlite.stoppedAfter db db.initSchema k).rows.rows) ↔
      if db.hasColumn .storeHash then Filled db.rows.rows
      else k ≤ 3 ∨ db.toFill.length ≤ k - 5 := by
  have columns := stopped_columns h k .storeHash
  by_cases present : .storeHash ∈ db.columns
  · have there := columns.mpr (.inl present)
    simp [stopped_filled h there, hasColumn, present, there]
  · have since : .storeHash ∈ (sqlite.stoppedAfter db db.initSchema k).columns ↔ 4 ≤ k := by
      simp [columns, present]
    simp only [hasColumn, present, decide_false, Bool.false_eq_true, if_false]
    by_cases hk : 4 ≤ k
    · have there := since.mpr hk
      have early : ¬ k ≤ 3 := by omega
      simp [stopped_filled h there, hasColumn, present, there, early]
    · simp only [since, hk, false_imp_iff, true_iff]
      exact .inl (by omega)

/-- And the second: `references` without `deriver`, which the next run takes for both. -/
theorem stopped_deriver_iff {db : Database} (h : db.Usable)
    (together : .deriver ∈ db.columns ↔ .references ∈ db.columns) (k : Nat) :
    (.deriver ∈ (sqlite.stoppedAfter db db.initSchema k).columns ∨
      .references ∉ (sqlite.stoppedAfter db db.initSchema k).columns) ↔
      (db.hasColumn .references = false → k ≠ db.referencesAt) := by
  rw [stopped_columns h, stopped_columns h, together, referencesAt_eq]
  by_cases present : .references ∈ db.columns
  · simp [hasColumn, present]
  · simp [hasColumn, present]
    omega

/-- A migration that stops is made good by the next one in exactly these places. -/
theorem survives_iff (storeHash references : Bool) (indexes : List String) (rows : Table stored)
    (k : Nat) : (older storeHash references indexes rows).Survives k ↔
      (older storeHash references indexes rows).SafeStop k := by
  have usable := older_usable storeHash references indexes rows
  have together := older_deriver storeHash references indexes rows
  generalize older storeHash references indexes rows = db at usable together
  obtain ⟨new, ok, kept, husable, hhash, hreferences, hderiver, hfilled⟩ :=
    initSchema_ok (stopped_usable usable k)
  have migrated := migrated_iff husable ((stopped_keepsRows usable k).trans kept) hhash hreferences
  have survives : db.Survives k ↔ db.Migrated new := by
    simp only [Survives, reopen, ok, Except.ok.injEq, exists_eq_left']
  rw [survives, migrated, hfilled, hderiver, SafeStop]
  exact and_congr (stopped_filled_iff usable k) (stopped_deriver_iff usable together k)

/-- A table of one row, whose path has a store hash. -/
def oneRow : Table stored where
  rows := [{
    rowid := 1
    blake3 := zeroBytes32
    sha256 := zeroBytes32
    storePath := "/nix/store/abc-x"
    narSize := 0
    storeHash := none
    references := ""
    deriver := none }]
  distinct := List.pairwise_singleton _ _

/-- The process stops right after the column of the store hashes is there, or
between the last two columns. -/
theorem migration_torn : ¬ (older false false [] oneRow).Survives 4 ∧
    ¬ (older true false [] Table.empty).Survives 4 := by
  constructor
  · intro h
    obtain ⟨new, ok, migrated⟩ := h
    have missing : ((older false false [] oneRow).reopen 4).toOption.map (fun d =>
        d.rows.rows.map fun row => (extractStoreHash row.storePath, row.storeHash)) =
        some [(some "abc", none)] := by decide +kernel
    simp only [ok, Except.toOption, Option.map_some, Option.some.injEq] at missing
    obtain ⟨row, rest, hrows, hrow, _⟩ := List.map_eq_cons_iff.mp missing
    simp only [Prod.mk.injEq] at hrow
    have filled := migrated.filled row (by simp [hrows]) "abc" hrow.1
    rw [hrow.2] at filled
    contradiction
  · intro h
    obtain ⟨new, ok, migrated⟩ := h
    obtain ⟨entries, listed, _⟩ := migrated.listed
    have absent : ((older true false [] Table.empty).reopen 4).toOption.map (fun d =>
        d.columns.contains .deriver) = some false := by decide +kernel
    simp only [ok, Except.toOption, Option.map_some, Option.some.injEq] at absent
    have present := List.contains_iff_mem.mpr (listAll_ok listed)
    rw [absent] at present
    contradiction

end Database

end IrohNix.Index
