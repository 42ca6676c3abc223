import IrohNix.Index.Database
import Mathlib.Data.List.Perm.Subperm

namespace IrohNix.Index
open IrohNix.Lib

namespace Database

theorem apply_createTable {db : Database} (table : db.columns ≠ []) :
    sqlite.apply db .createTable = db := by
  simp [Statements.apply, sqlite, Statement.run, table]

theorem apply_createIndex (db : Database) (name : String) (column : Column) :
    (sqlite.apply db (.createIndex name column)).columns = db.columns ∧
      (sqlite.apply db (.createIndex name column)).rows = db.rows := by
  simp only [Statements.apply, sqlite, Statement.run]
  split
  · rename_i hrun
    split at hrun
    · cases hrun
      exact ⟨rfl, rfl⟩
    · split at hrun
      · cases hrun
        exact ⟨rfl, rfl⟩
      · cases hrun
  · exact ⟨rfl, rfl⟩

theorem apply_addColumn {db : Database} {column : Column} (table : db.columns ≠ [])
    (absent : column ∉ db.columns) :
    sqlite.apply db (.addColumn column) = ⟨db.columns ++ [column], db.indexes,
      db.rows.update column.fill (clash_of_sameKeys column.fill_sameKeys)⟩ := by
  simp [Statements.apply, sqlite, Statement.run, table, absent]

theorem apply_addColumn_present {db : Database} {column : Column}
    (present : column ∈ db.columns) : sqlite.apply db (.addColumn column) = db := by
  have table : db.columns ≠ [] := List.ne_nil_of_mem present
  simp [Statements.apply, sqlite, Statement.run, table, present]

theorem apply_setStoreHash {db : Database} (column : .storeHash ∈ db.columns) (storeHash : String)
    (rowid : Int64) : sqlite.apply db (.setStoreHash storeHash rowid) =
      ⟨db.columns, db.indexes, db.rows.update (writeStoreHash storeHash rowid)
        (clash_of_sameKeys (writeStoreHash_sameKeys storeHash rowid))⟩ := by
  simp [Statements.apply, sqlite, Statement.run, column]

theorem apply_setStoreHash_absent {db : Database} (column : .storeHash ∉ db.columns)
    (storeHash : String) (rowid : Int64) :
    sqlite.apply db (.setStoreHash storeHash rowid) = db := by
  simp [Statements.apply, sqlite, Statement.run, column]

/-- Columns come by `ALTER TABLE` alone. -/
theorem mem_columns_apply {db : Database} (table : db.columns ≠ []) (st : Statement)
    (column : Column) :
    column ∈ (sqlite.apply db st).columns ↔ column ∈ db.columns ∨ st = .addColumn column := by
  cases st with
  | createTable => simp [apply_createTable table]
  | createIndex name other => simp [(apply_createIndex db name other).1]
  | addColumn other =>
    by_cases present : other ∈ db.columns
    · rw [apply_addColumn_present present, Statement.addColumn.injEq]
      constructor
      · exact .inl
      · intro h
        rcases h with h | rfl
        · exact h
        · exact present
    · simp [apply_addColumn table present, eq_comm]
  | setStoreHash storeHash rowid =>
    by_cases present : .storeHash ∈ db.columns
    · simp [apply_setStoreHash present]
    · simp [apply_setStoreHash_absent present]

theorem table_apply {db : Database} (table : db.columns ≠ []) (st : Statement) :
    (sqlite.apply db st).columns ≠ [] := by
  obtain ⟨first, hf⟩ := List.exists_mem_of_ne_nil _ table
  exact List.ne_nil_of_mem ((mem_columns_apply table st first).mpr (.inl hf))

theorem table_foldl {db : Database} (table : db.columns ≠ []) (script : List Statement) :
    (script.foldl sqlite.apply db).columns ≠ [] :=
  Statements.keeps_of_apply (P := fun d : Database => d.columns ≠ [])
    (fun _ st h => table_apply h st) script table

theorem mem_columns_foldl {db : Database} (table : db.columns ≠ []) (script : List Statement)
    (column : Column) : column ∈ (script.foldl sqlite.apply db).columns ↔
      column ∈ db.columns ∨ .addColumn column ∈ script := by
  induction script generalizing db with
  | nil => simp
  | cons st script ih =>
    rw [List.foldl_cons, ih (table_apply table st), mem_columns_apply table, List.mem_cons,
      or_assoc, eq_comm]

/-- Row by row, nothing has changed but what no key speaks of. -/
def KeepsRows (old new : Database) : Prop :=
  ∃ f, (∀ row, SameKeys row (f row)) ∧ new.rows.rows = old.rows.rows.map f

theorem KeepsRows.refl (db : Database) : db.KeepsRows db :=
  ⟨id, fun _ => ⟨rfl, rfl, rfl, rfl, rfl⟩, by simp⟩

theorem KeepsRows.trans {a b c : Database} (hab : a.KeepsRows b) (hbc : b.KeepsRows c) :
    a.KeepsRows c := by
  obtain ⟨f, hf, hb⟩ := hab
  obtain ⟨g, hg, hc⟩ := hbc
  refine ⟨g ∘ f, fun row => ?_, by rw [hc, hb, List.map_map]⟩
  obtain ⟨rowid, blake3, sha256, storePath, narSize⟩ := hf row
  obtain ⟨rowid', blake3', sha256', storePath', narSize'⟩ := hg (f row)
  exact ⟨rowid'.trans rowid, blake3'.trans blake3, sha256'.trans sha256,
    storePath'.trans storePath, narSize'.trans narSize⟩

theorem keepsRows_apply {db : Database} (table : db.columns ≠ []) (st : Statement) :
    db.KeepsRows (sqlite.apply db st) := by
  cases st with
  | createTable =>
    rw [apply_createTable table]
    exact .refl db
  | createIndex name column =>
    have same := (apply_createIndex db name column).2
    exact ⟨id, fun _ => ⟨rfl, rfl, rfl, rfl, rfl⟩, by simp [same]⟩
  | addColumn column =>
    by_cases present : column ∈ db.columns
    · rw [apply_addColumn_present present]
      exact .refl db
    · rw [apply_addColumn table present]
      exact ⟨column.fill, column.fill_sameKeys, rfl⟩
  | setStoreHash storeHash rowid =>
    by_cases present : .storeHash ∈ db.columns
    · rw [apply_setStoreHash present]
      exact ⟨_, writeStoreHash_sameKeys storeHash rowid, rfl⟩
    · rw [apply_setStoreHash_absent present]
      exact .refl db

theorem keepsRows_foldl {db : Database} (table : db.columns ≠ []) (script : List Statement) :
    db.KeepsRows (script.foldl sqlite.apply db) := by
  refine (Statements.keeps_of_apply (P := fun d => d.columns ≠ [] ∧ db.KeepsRows d) ?_ script
    ⟨table, .refl db⟩).2
  intro d st h
  obtain ⟨htable, hkept⟩ := h
  exact ⟨table_apply htable st, hkept.trans (keepsRows_apply htable st)⟩

/-- The store hashes are those of the paths, for every row that has one to have. -/
def Filled (rows : List StoredRow) : Prop :=
  ∀ row ∈ rows, ∀ hash, extractStoreHash row.storePath = some hash → row.storeHash = some hash

/-- The rows the backfill has to write, and what it has to write there. -/
def toFill (db : Database) : List (Int64 × String) :=
  db.rows.rows.filterMap fun row =>
    (extractStoreHash row.storePath).map fun hash => (row.rowid, hash)

def updates (db : Database) : List Statement :=
  db.toFill.map fun target => .setStoreHash target.2 target.1

/-- The statements `init_schema` starts with, and those `migrate` goes on with. -/
def preamble : List Statement :=
  [.createTable, .createIndex "idx_sha256" .sha256, .createIndex "idx_store_path" .storePath]

def addStoreHash (db : Database) : List Statement :=
  if db.hasColumn .storeHash then []
  else .addColumn .storeHash :: .createIndex "idx_store_hash" .storeHash :: db.updates

def addReferences (db : Database) : List Statement :=
  if db.hasColumn .references then [] else [.addColumn .references, .addColumn .deriver]

/-- A table of some version, perhaps one that a migration has left halfway. -/
structure Usable (db : Database) : Prop where
  blake3 : .blake3 ∈ db.columns
  sha256 : .sha256 ∈ db.columns
  storePath : .storePath ∈ db.columns
  narSize : .narSize ∈ db.columns
  deriver : .deriver ∈ db.columns → .references ∈ db.columns

theorem Usable.table {db : Database} (h : db.Usable) : db.columns ≠ [] :=
  List.ne_nil_of_mem h.sha256

/-- What the queries of `migrate` depend on. -/
def SameTable (a b : Database) : Prop := b.columns = a.columns ∧ b.rows = a.rows

theorem preamble_sameTable {db : Database} (table : db.columns ≠ []) :
    db.SameTable (preamble.foldl sqlite.apply db) := by
  simp only [preamble, List.foldl_cons, List.foldl_nil, apply_createTable table]
  obtain ⟨hcolumns, hrows⟩ := apply_createIndex db "idx_sha256" .sha256
  obtain ⟨hcolumns', hrows'⟩ := apply_createIndex
    (sqlite.apply db (.createIndex "idx_sha256" .sha256)) "idx_store_path" .storePath
  exact ⟨hcolumns'.trans hcolumns, hrows'.trans hrows⟩

/-- Right after the column is added every row lacks its store hash. -/
theorem withoutStoreHash_new {db : Database} (table : db.columns ≠ [])
    (absent : .storeHash ∉ db.columns) (name : String) (column : Column) :
    (sqlite.apply (sqlite.apply db (.addColumn .storeHash))
      (.createIndex name column)).withoutStoreHash =
      db.rows.rows.map fun row => (row.rowid, row.storePath) := by
  rw [withoutStoreHash, (apply_createIndex _ name column).2, apply_addColumn table absent]
  simp only [Table.update, Column.fill, List.filter_map, List.map_map]
  simp [Function.comp_def]

/-- The backfill writes the store hash of each row that has one. -/
theorem backfill_commits (rows : List (Int64 × String)) {db : Database}
    (column : .storeHash ∈ db.columns) :
    sqlite.Commits db (backfill rows db) (rows.flatMap fun row =>
      ((extractStoreHash row.2).map fun hash => Statement.setStoreHash hash row.1).toList) := by
  refine Statements.Commits.foldlM (P := fun d => .storeHash ∈ d.columns) ?_ ?_ rows column
  · intro d st hd
    exact (mem_columns_apply (List.ne_nil_of_mem hd) st .storeHash).mpr (.inl hd)
  · intro d row hd
    cases extractStoreHash row.2 with
    | none => exact .pure d
    | some hash => exact .exec (by simp [sqlite, Statement.run, hd])

theorem updates_eq (db : Database) :
    ((db.rows.rows.map fun row => (row.rowid, row.storePath)).flatMap fun row =>
      ((extractStoreHash row.2).map fun hash => Statement.setStoreHash hash row.1).toList) =
      db.updates := by
  rw [updates, toFill, List.map_filterMap, List.flatMap_map, ← List.filterMap_eq_flatMap_toList]
  simp [Function.comp_def]

theorem run_createIndex {db : Database} {column : Column} (h : column ∈ db.columns) (name : String) :
    ∃ next, sqlite.run (.createIndex name column) db = .ok next := by
  by_cases known : name ∈ db.indexes
  · exact ⟨db, by simp [sqlite, Statement.run, known]⟩
  · exact ⟨{ db with indexes := db.indexes ++ [name] }, by simp [sqlite, Statement.run, known, h]⟩

theorem run_addColumn {db : Database} {column : Column} (table : db.columns ≠ [])
    (absent : column ∉ db.columns) : ∃ next, sqlite.run (.addColumn column) db = .ok next := by
  simp [sqlite, Statement.run, table, absent]

theorem migrateStoreHash_commits {db : Database} (h : db.Usable) :
    sqlite.Commits db db.migrateStoreHash db.addStoreHash := by
  rw [addStoreHash, migrateStoreHash]
  by_cases present : .storeHash ∈ db.columns
  · simp only [hasColumn, present, decide_true, if_true]
    exact .pure db
  · simp only [hasColumn, present, decide_false, Bool.false_eq_true, if_false]
    have added : .storeHash ∈ (sqlite.apply db (.addColumn .storeHash)).columns :=
      (mem_columns_apply h.table _ _).mpr (.inr rfl)
    refine .step (run_addColumn h.table present) (.step (run_createIndex added _) ?_)
    rw [withoutStoreHash_new h.table present, ← updates_eq]
    refine backfill_commits _ ?_
    rw [(apply_createIndex _ _ _).1]
    exact added

theorem migrateReferences_commits {db : Database} (h : db.Usable) :
    sqlite.Commits db db.migrateReferences db.addReferences := by
  rw [addReferences, migrateReferences]
  by_cases present : .references ∈ db.columns
  · simp only [hasColumn, present, decide_true, if_true]
    exact .pure db
  · simp only [hasColumn, present, decide_false, Bool.false_eq_true, if_false]
    have absent : .deriver ∉ db.columns := fun hd => present (h.deriver hd)
    refine .step (run_addColumn h.table present) (.exec ?_)
    refine run_addColumn ?_ ?_
    · simp [apply_addColumn h.table present]
    · simp [apply_addColumn h.table present, absent]

/-- What `init_schema` does to a table, from the columns and rows it finds. -/
def script (db : Database) : List Statement := preamble ++ (db.addStoreHash ++ db.addReferences)

theorem Usable.of_columns {a b : Database} (h : a.Usable)
    (same : ∀ column ≠ .storeHash, column ∈ b.columns ↔ column ∈ a.columns) : b.Usable := by
  constructor
  · exact (same _ (by simp)).mpr h.blake3
  · exact (same _ (by simp)).mpr h.sha256
  · exact (same _ (by simp)).mpr h.storePath
  · exact (same _ (by simp)).mpr h.narSize
  · rw [same _ (by simp), same _ (by simp)]
    exact h.deriver

theorem addStoreHash_columns {db : Database} (table : db.columns ≠ []) {column : Column}
    (other : column ≠ .storeHash) :
    column ∈ (db.addStoreHash.foldl sqlite.apply db).columns ↔ column ∈ db.columns := by
  rw [mem_columns_foldl table, addStoreHash]
  split <;> simp [other, updates]

theorem hasColumn_congr {a b : Database} {column : Column}
    (same : column ∈ b.columns ↔ column ∈ a.columns) : b.hasColumn column = a.hasColumn column := by
  simp [hasColumn, same]

theorem migrate_commits {db : Database} (h : db.Usable) :
    sqlite.Commits db db.migrate (db.addStoreHash ++ db.addReferences) := by
  have later : (db.addStoreHash.foldl sqlite.apply db).Usable :=
    h.of_columns fun column hc => addStoreHash_columns h.table hc
  have same : (db.addStoreHash.foldl sqlite.apply db).addReferences = db.addReferences := by
    rw [addReferences, addReferences, hasColumn_congr (addStoreHash_columns h.table (by simp))]
  have rest := migrateReferences_commits later
  rw [same] at rest
  exact (migrateStoreHash_commits h).bind rest

theorem SameTable.script {a b : Database} (same : a.SameTable b) :
    b.addStoreHash ++ b.addReferences = a.addStoreHash ++ a.addReferences := by
  obtain ⟨hcolumns, hrows⟩ := same
  have column (c : Column) : b.hasColumn c = a.hasColumn c := hasColumn_congr (by rw [hcolumns])
  rw [addStoreHash, addStoreHash, addReferences, addReferences, column, column, updates, updates,
    toFill, toFill, hrows]

theorem initSchema_commits {db : Database} (h : db.Usable) :
    sqlite.Commits db db.initSchema db.script := by
  have same := preamble_sameTable h.table
  have later : (preamble.foldl sqlite.apply db).Usable :=
    h.of_columns fun column _ => by rw [same.1]
  have rest := migrate_commits later
  rw [same.script] at rest
  have created : ∃ next, sqlite.run .createTable db = .ok next := by
    simp [sqlite, Statement.run, h.table]
  refine .step created (.step (run_createIndex ?_ _) (.step (run_createIndex ?_ _) rest))
  · simpa [apply_createTable h.table] using h.sha256
  · simpa [apply_createTable h.table, (apply_createIndex _ _ _).1] using h.storePath

/-- The statements that leave every store hash as it is. -/
def Statement.Aside : Statement → Prop
  | .addColumn column => column ≠ .storeHash
  | .setStoreHash _ _ => False
  | _ => True

theorem filled_map {f : StoredRow → StoredRow} (hpath : ∀ row, (f row).storePath = row.storePath)
    (hhash : ∀ row, (f row).storeHash = row.storeHash) (rows : List StoredRow) :
    Filled (rows.map f) ↔ Filled rows := by
  simp [Filled, hpath, hhash]

theorem filled_apply {db : Database} (table : db.columns ≠ []) {st : Statement}
    (aside : Statement.Aside st) :
    Filled (sqlite.apply db st).rows.rows ↔ Filled db.rows.rows := by
  cases st with
  | createTable => rw [apply_createTable table]
  | createIndex name column => rw [(apply_createIndex db name column).2]
  | addColumn column =>
    by_cases present : column ∈ db.columns
    · rw [apply_addColumn_present present]
    · rw [apply_addColumn table present]
      refine filled_map (fun row => (column.fill_sameKeys row).storePath) (fun row => ?_) _
      cases column with
      | storeHash => exact absurd rfl aside
      | _ => rfl
  | setStoreHash storeHash rowid => exact aside.elim

theorem filled_foldl {db : Database} (table : db.columns ≠ []) {script : List Statement}
    (aside : ∀ st ∈ script, Statement.Aside st) :
    Filled (script.foldl sqlite.apply db).rows.rows ↔ Filled db.rows.rows := by
  induction script generalizing db with
  | nil => rfl
  | cons st script ih =>
    rw [List.foldl_cons, ih (table_apply table st) fun st' h => aside st' (by simp [h]),
      filled_apply table (aside st (by simp))]

/-- The rows of these ids, with the store hashes of their paths. -/
def fillRows (ids : List Int64) (row : StoredRow) : StoredRow :=
  if row.rowid ∈ ids then { row with storeHash := extractStoreHash row.storePath } else row

theorem fillRows_cons (rowid : Int64) (ids : List Int64) (row : StoredRow) :
    fillRows ids (fillRows [rowid] row) = fillRows (rowid :: ids) row := by
  grind [fillRows]

/-- Updates that write what the paths of the rows say fill these rows. -/
theorem rows_updates (targets : List (Int64 × String)) (db : Database)
    (column : .storeHash ∈ db.columns)
    (honest : ∀ target ∈ targets, ∀ row ∈ db.rows.rows, row.rowid = target.1 →
      extractStoreHash row.storePath = some target.2) :
    ((targets.map fun target => Statement.setStoreHash target.2 target.1).foldl
      sqlite.apply db).rows.rows = db.rows.rows.map (fillRows (targets.map Prod.fst)) := by
  induction targets generalizing db with
  | nil => exact (List.map_id'' (fun row => by simp [fillRows]) _).symm
  | cons target targets ih =>
    have next := apply_setStoreHash column target.2 target.1
    have first (row : StoredRow) (hr : row ∈ db.rows.rows) :
        writeStoreHash target.2 target.1 row = fillRows [target.1] row := by
      by_cases hid : row.rowid = target.1
      · simp [writeStoreHash, fillRows, hid, honest target (by simp) row hr hid]
      · simp [writeStoreHash, fillRows, hid]
    have rows : (sqlite.apply db (.setStoreHash target.2 target.1)).rows.rows =
        db.rows.rows.map (fillRows [target.1]) := by
      rw [next]
      exact List.map_congr_left first
    rw [List.map_cons, List.foldl_cons, ih]
    · rw [rows, List.map_map]
      exact List.map_congr_left fun row _ => fillRows_cons _ _ row
    · rwa [next]
    · intro other ho row hr hid
      rw [next] at hr
      obtain ⟨before, hb, rfl⟩ := List.mem_map.mp hr
      have same := writeStoreHash_sameKeys target.2 target.1 before
      rw [same.storePath]
      exact honest other (by simp [ho]) before hb (same.rowid ▸ hid)

theorem mem_toFill {db : Database} {target : Int64 × String} : target ∈ db.toFill ↔
    ∃ row ∈ db.rows.rows, row.rowid = target.1 ∧ extractStoreHash row.storePath = some target.2 := by
  obtain ⟨rowid, hash⟩ := target
  simp only [toFill, List.mem_filterMap, Option.map_eq_some_iff, Prod.mk.injEq]
  constructor
  · intro h
    obtain ⟨row, hr, hash', hh, hid, rfl⟩ := h
    exact ⟨row, hr, hid, hh⟩
  · intro h
    obtain ⟨row, hr, hid, hh⟩ := h
    exact ⟨row, hr, hash, hh, hid, rfl⟩

theorem row_of_rowid (db : Database) {a b : StoredRow} (ha : a ∈ db.rows.rows)
    (hb : b ∈ db.rows.rows) (same : a.rowid = b.rowid) : a = b := by
  by_cases h : a = b
  · exact h
  · exact absurd same (stored_clash_false.mp (db.rows.apart ha hb h)).1

theorem toFill_nodup (db : Database) : (db.toFill.map Prod.fst).Nodup := by
  rw [toFill, List.map_filterMap, List.Nodup]
  refine List.Pairwise.filterMap _ ?_ db.rows.distinct
  intro a b apart i hi j hj
  simp only [Option.map_map, Option.map_eq_some_iff, Function.comp_apply] at hi hj
  obtain ⟨_, _, rfl⟩ := hi
  obtain ⟨_, _, rfl⟩ := hj
  exact (stored_clash_false.mp apart).1

/-- A row that starts without its store hash has it once an update names its rowid. -/
theorem filled_fillRows (ids : List Int64) (rows : List StoredRow) :
    Filled ((rows.map fun row => { row with storeHash := none }).map (fillRows ids)) ↔
      ∀ row ∈ rows, ∀ hash, extractStoreHash row.storePath = some hash → row.rowid ∈ ids := by
  simp only [Filled, List.forall_mem_map]
  refine forall₂_congr fun row _ => ?_
  by_cases hid : row.rowid ∈ ids <;> simp [fillRows, hid]

/-- After a part of the updates every row is filled just if no update is left. -/
theorem filled_updates {db added : Database} (column : .storeHash ∈ added.columns)
    (hrows : added.rows.rows = db.rows.rows.map fun row => { row with storeHash := none })
    (j : Nat) :
    Filled ((db.updates.take j).foldl sqlite.apply added).rows.rows ↔ db.toFill.length ≤ j := by
  have honest : ∀ target ∈ db.toFill.take j, ∀ row ∈ added.rows.rows, row.rowid = target.1 →
      extractStoreHash row.storePath = some target.2 := by
    intro target ht row hr hid
    rw [hrows] at hr
    obtain ⟨before, hb, rfl⟩ := List.mem_map.mp hr
    obtain ⟨other, ho, hoid, hhash⟩ := mem_toFill.mp (List.mem_of_mem_take ht)
    rwa [db.row_of_rowid hb ho (hid.trans hoid.symm)]
  rw [updates, ← List.map_take, rows_updates _ _ column honest, hrows, filled_fillRows]
  constructor
  · intro h
    have all : db.toFill.map Prod.fst ⊆ (db.toFill.take j).map Prod.fst := by
      intro i hi
      obtain ⟨target, ht, rfl⟩ := List.mem_map.mp hi
      obtain ⟨row, hr, hid, hhash⟩ := mem_toFill.mp ht
      exact hid ▸ h row hr target.2 hhash
    have hlen := (db.toFill_nodup.subperm all).length_le
    simp only [List.length_map, List.length_take] at hlen
    omega
  · intro h row hr hash hhash
    rw [List.take_of_length_le h]
    exact List.mem_map.mpr ⟨(row.rowid, hash), mem_toFill.mpr ⟨row, hr, rfl, hhash⟩, rfl⟩

theorem addStoreHash_take (db : Database) (column : Column) (j : Nat) :
    .addColumn column ∈ db.addStoreHash.take j ↔
      column = .storeHash ∧ .storeHash ∉ db.columns ∧ 1 ≤ j := by
  rw [addStoreHash]
  by_cases present : .storeHash ∈ db.columns
  · simp [hasColumn, present]
  · cases j with
    | zero => simp
    | succ j =>
      have rest : .addColumn column ∉
          (.createIndex "idx_store_hash" .storeHash :: db.updates).take j := by
        intro h
        simpa [updates] using List.mem_of_mem_take h
      simp [hasColumn, present, rest]

theorem addReferences_take (db : Database) (column : Column) (j : Nat) :
    .addColumn column ∈ db.addReferences.take j ↔
      .references ∉ db.columns ∧ (column = .references ∧ 1 ≤ j ∨ column = .deriver ∧ 2 ≤ j) := by
  rw [addReferences]
  by_cases present : .references ∈ db.columns
  · simp [hasColumn, present]
  · match j with
    | 0 => simp
    | 1 => simp [hasColumn, present]
    | j + 2 => simp [hasColumn, present]

/-- Which statements are over when the process stops. -/
theorem script_take (db : Database) (k : Nat) : db.script.take k = preamble.take k ++
    (db.addStoreHash.take (k - 3) ++ db.addReferences.take (k - 3 - db.addStoreHash.length)) := by
  rw [script, List.take_append, List.take_append]
  rfl

/-- The columns of a database whose migration stopped. -/
theorem stopped_columns {db : Database} (h : db.Usable) (k : Nat) (column : Column) :
    column ∈ (sqlite.stoppedAfter db db.initSchema k).columns ↔
      column ∈ db.columns ∨ (column = .storeHash ∧ .storeHash ∉ db.columns ∧ 4 ≤ k) ∨
      (.references ∉ db.columns ∧ (column = .references ∧ 4 + db.addStoreHash.length ≤ k ∨
        column = .deriver ∧ 5 + db.addStoreHash.length ≤ k)) := by
  have start : .addColumn column ∉ preamble.take k := by
    intro h
    simpa [preamble] using List.mem_of_mem_take h
  rw [(initSchema_commits h).stoppedAfter, mem_columns_foldl h.table, script_take,
    List.mem_append, List.mem_append, or_iff_right start, addStoreHash_take, addReferences_take]
  refine or_congr_right (or_congr (and_congr_right fun _ => and_congr_right fun _ => ?_)
    (and_congr_right fun _ => or_congr (and_congr_right fun _ => ?_)
      (and_congr_right fun _ => ?_))) <;> omega

theorem stopped_usable {db : Database} (h : db.Usable) (k : Nat) :
    (sqlite.stoppedAfter db db.initSchema k).Usable := by
  constructor
  · exact (stopped_columns h k _).mpr (.inl h.blake3)
  · exact (stopped_columns h k _).mpr (.inl h.sha256)
  · exact (stopped_columns h k _).mpr (.inl h.storePath)
  · exact (stopped_columns h k _).mpr (.inl h.narSize)
  · rw [stopped_columns h, stopped_columns h]
    intro hd
    rcases hd with hd | ⟨hd, _⟩ | ⟨habsent, hd | ⟨_, hk⟩⟩
    · exact .inl (h.deriver hd)
    · cases hd
    · cases hd.1
    · exact .inr (.inr ⟨habsent, .inl ⟨rfl, by omega⟩⟩)

theorem stopped_keepsRows {db : Database} (h : db.Usable) (k : Nat) :
    db.KeepsRows (sqlite.stoppedAfter db db.initSchema k) := by
  rw [(initSchema_commits h).stoppedAfter]
  exact keepsRows_foldl h.table _

theorem preamble_aside : ∀ st ∈ preamble, Statement.Aside st := by
  simp [preamble, Statement.Aside]

theorem addReferences_aside (db : Database) : ∀ st ∈ db.addReferences, Statement.Aside st := by
  intro st h
  rw [addReferences] at h
  split at h
  · contradiction
  · simp only [List.mem_cons, List.not_mem_nil, or_false] at h
    rcases h with rfl | rfl <;> simp [Statement.Aside]

/-- A table that came without store hashes is filled as far as the updates have come. -/
theorem filled_from_new {db : Database} (h : db.Usable) (absent : .storeHash ∉ db.columns)
    {k : Nat} (hk : 4 ≤ k) :
    Filled ((db.script.take k).foldl sqlite.apply db).rows.rows ↔ db.toFill.length ≤ k - 5 := by
  obtain ⟨j, rfl⟩ := Nat.exists_eq_add_of_le' hk
  have same := preamble_sameTable h.table
  have script : db.addStoreHash.take (j + 4 - 3) = .addColumn .storeHash ::
      (.createIndex "idx_store_hash" .storeHash :: db.updates).take j := by
    simp [addStoreHash, hasColumn, absent]
  rw [script_take, List.take_of_length_le (by simp [preamble]), List.foldl_append,
    List.foldl_append, script, List.foldl_cons]
  generalize preamble.foldl sqlite.apply db = begun at same
  have table : begun.columns ≠ [] := same.1 ▸ h.table
  have added : .storeHash ∈ (sqlite.apply begun (.addColumn .storeHash)).columns :=
    (mem_columns_apply table _ _).mpr (.inr rfl)
  have hrows : (sqlite.apply begun (.addColumn .storeHash)).rows.rows =
      db.rows.rows.map fun row => { row with storeHash := none } := by
    rw [apply_addColumn table (same.1 ▸ absent), ← same.2]
    rfl
  rw [filled_foldl (table_foldl (table_apply table _) _) fun st hst =>
    db.addReferences_aside st (List.mem_of_mem_take hst)]
  cases j with
  | zero => exact filled_updates added hrows 0
  | succ j =>
    obtain ⟨hcolumns, hsame⟩ := apply_createIndex (sqlite.apply begun (.addColumn .storeHash))
      "idx_store_hash" .storeHash
    exact filled_updates (hcolumns ▸ added) (hsame ▸ hrows) j

/-- Once the column is there, the rows are as filled as they were found, or as
far as the updates have come. -/
theorem stopped_filled {db : Database} (h : db.Usable) {k : Nat}
    (column : .storeHash ∈ (sqlite.stoppedAfter db db.initSchema k).columns) :
    Filled (sqlite.stoppedAfter db db.initSchema k).rows.rows ↔
      if db.hasColumn .storeHash then Filled db.rows.rows else db.toFill.length ≤ k - 5 := by
  rw [stopped_columns h] at column
  rw [(initSchema_commits h).stoppedAfter]
  by_cases present : .storeHash ∈ db.columns
  · simp only [hasColumn, present, decide_true, if_true]
    refine filled_foldl h.table fun st hst => ?_
    have hmem := List.mem_of_mem_take hst
    simp only [script, addStoreHash, hasColumn, present, decide_true, if_true, List.nil_append,
      List.mem_append] at hmem
    rcases hmem with hmem | hmem
    · exact preamble_aside st hmem
    · exact db.addReferences_aside st hmem
  · simp only [hasColumn, present, decide_false, Bool.false_eq_true, if_false]
    rcases column with hc | ⟨_, _, hk⟩ | ⟨_, hc | hc⟩
    · contradiction
    · exact filled_from_new h present hk
    · cases hc.1
    · cases hc.1

theorem addStoreHash_length (db : Database) : db.addStoreHash.length =
    if db.hasColumn .storeHash then 0 else 2 + db.toFill.length := by
  rw [addStoreHash]
  split
  · rfl
  · simp only [List.length_cons, updates, List.length_map]
    omega

theorem script_length (db : Database) : db.script.length =
    3 + db.addStoreHash.length + (if db.hasColumn .references then 0 else 2) := by
  rw [script, preamble, addReferences, List.length_append, List.length_append]
  split <;> simp only [List.length_cons, List.length_nil] <;> omega

/-- After a whole run, only what a column hid from it may be missing. -/
theorem initSchema_ok {db : Database} (h : db.Usable) : ∃ new, db.initSchema.result = .ok new ∧
    db.KeepsRows new ∧ new.Usable ∧ .storeHash ∈ new.columns ∧ .references ∈ new.columns ∧
    (.deriver ∈ new.columns ↔ .deriver ∈ db.columns ∨ .references ∉ db.columns) ∧
    (Filled new.rows.rows ↔ (.storeHash ∈ db.columns → Filled db.rows.rows)) := by
  have whole : sqlite.stoppedAfter db db.initSchema db.script.length =
      db.script.foldl sqlite.apply db := by
    rw [(initSchema_commits h).stoppedAfter, List.take_length]
  have columns := stopped_columns h db.script.length
  have filled := stopped_filled h (k := db.script.length)
  rw [whole] at columns filled
  have length := db.script_length
  rw [addStoreHash_length] at length columns
  have storeHash : .storeHash ∈ (db.script.foldl sqlite.apply db).columns := by
    rw [columns]
    by_cases present : .storeHash ∈ db.columns
    · exact .inl present
    · simp only [hasColumn, present, decide_false, Bool.false_eq_true, if_false] at length
      exact .inr (.inl ⟨rfl, present, by omega⟩)
  refine ⟨_, (initSchema_commits h).result, whole ▸ stopped_keepsRows h _,
    whole ▸ stopped_usable h _, storeHash, ?_, ?_, ?_⟩
  · rw [columns]
    by_cases present : .references ∈ db.columns
    · exact .inl present
    · simp only [hasColumn, present, decide_false, Bool.false_eq_true, if_false] at length
      exact .inr (.inr ⟨present, .inl ⟨rfl, by simp only [hasColumn]; omega⟩⟩)
  · rw [columns]
    by_cases present : .references ∈ db.columns
    · simp [present]
    · simp only [hasColumn, present, decide_false, Bool.false_eq_true, if_false] at length
      simp only [present, not_false_eq_true, or_true, iff_true, true_and]
      exact .inr (.inr (.inr (by simp only [hasColumn]; omega)))
  · rw [filled storeHash]
    by_cases present : .storeHash ∈ db.columns
    · simp [hasColumn, present]
    · simp only [hasColumn, present, decide_false, Bool.false_eq_true, if_false,
        false_imp_iff, iff_true] at length ⊢
      omega

end Database

end IrohNix.Index
