import IrohNix.Index.HashIndex
import IrohNix.Lib.Statements

namespace IrohNix.Index
open IrohNix.Lib

/-- The columns of `hash_index`, in every version of it. -/
inductive Column where
  | blake3
  | sha256
  | storePath
  | narSize
  | storeHash
  | references
  | deriver
deriving DecidableEq

def Column.name : Column → String
  | .blake3 => "blake3"
  | .sha256 => "sha256"
  | .storePath => "store_path"
  | .narSize => "nar_size"
  | .storeHash => "store_hash"
  | .references => "references"
  | .deriver => "deriver"

/-- A row on disk. What it has in a column that the table lacks is never read. -/
structure StoredRow extends Row where
  rowid : Int64
deriving DecidableEq

/-- The constraints of `hash_index`, and those of every rowid. -/
def stored : UniqueKeys StoredRow where
  clash := fun a b => a.rowid = b.rowid || schema.clash a.toRow b.toRow
  symm := by
    intro a b
    rw [schema.symm]
    simp only [eq_comm]

theorem stored_clash_false {a b : StoredRow} :
    stored.clash a b = false ↔ a.rowid ≠ b.rowid ∧ schema.clash a.toRow b.toRow = false := by
  simp [stored]

/-- The database file. A table without columns is one that does not exist yet. -/
structure Database where
  columns : List Column
  indexes : List String
  rows : Table stored

/-- What a row is given in a column that `ALTER TABLE` adds: its default, or `NULL`. -/
def Column.fill (row : StoredRow) : Column → StoredRow
  | .storeHash => { row with storeHash := none }
  | .references => { row with references := "" }
  | .deriver => { row with deriver := none }
  | _ => row

/-- Neither a rowid nor one of the unique columns changes. -/
structure SameKeys (a b : StoredRow) : Prop where
  rowid : b.rowid = a.rowid
  blake3 : b.blake3 = a.blake3
  sha256 : b.sha256 = a.sha256
  storePath : b.storePath = a.storePath
  narSize : b.narSize = a.narSize

theorem clash_of_sameKeys {f : StoredRow → StoredRow} (same : ∀ r, SameKeys r (f r))
    (a b : StoredRow) : stored.clash (f a) (f b) = stored.clash a b := by
  simp only [stored, schema, (same a).rowid, (same a).blake3, (same a).sha256, (same a).storePath,
    (same b).rowid, (same b).blake3, (same b).sha256, (same b).storePath]

theorem Column.fill_sameKeys (column : Column) (row : StoredRow) :
    SameKeys row (column.fill row) := by
  cases column <;> constructor <;> rfl

/-- `UPDATE hash_index SET store_hash = … WHERE rowid = …` -/
def writeStoreHash (storeHash : String) (rowid : Int64) (row : StoredRow) : StoredRow :=
  if row.rowid = rowid then { row with storeHash := some storeHash } else row

theorem writeStoreHash_sameKeys (storeHash : String) (rowid : Int64) (row : StoredRow) :
    SameKeys row (writeStoreHash storeHash rowid row) := by
  rw [writeStoreHash]
  split <;> constructor <;> rfl

/-- The statements of `init_schema` and `migrate`. -/
inductive Statement where
  | createTable
  | createIndex (name : String) (column : Column)
  | addColumn (column : Column)
  | setStoreHash (storeHash : String) (rowid : Int64)
deriving DecidableEq

namespace Statement

def noSuchColumn (column : Column) : Error := .database ("no such column: " ++ column.name)

def run : Statement → Database → Except Error Database
  | .createTable, db =>
    if db.columns = [] then
      .ok ⟨[.blake3, .sha256, .storePath, .narSize], db.indexes, Table.empty⟩
    else .ok db
  | .createIndex name column, db =>
    if name ∈ db.indexes then .ok db
    else if column ∈ db.columns then .ok { db with indexes := db.indexes ++ [name] }
    else .error (noSuchColumn column)
  | .addColumn column, db =>
    if db.columns = [] then .error (.database "no such table: hash_index")
    else if column ∈ db.columns then .error (.database ("duplicate column name: " ++ column.name))
    else .ok {
      columns := db.columns ++ [column]
      indexes := db.indexes
      rows := db.rows.update column.fill (clash_of_sameKeys column.fill_sameKeys) }
  | .setStoreHash storeHash rowid, db =>
    if .storeHash ∈ db.columns then
      .ok { db with
        rows := db.rows.update (writeStoreHash storeHash rowid)
          (clash_of_sameKeys (writeStoreHash_sameKeys storeHash rowid)) }
    else .error (noSuchColumn .storeHash)

end Statement

/-- Outside a transaction, SQLite commits every statement by itself. -/
def sqlite : Statements Database Statement Error := ⟨Statement.run⟩

/-- A program over the database: the statements it has run, and what they left. -/
abbrev Session := Logged Statement Error Database

namespace Database

/-- `SELECT COUNT(*) > 0 FROM pragma_table_info('hash_index') WHERE name = …` -/
def hasColumn (db : Database) (column : Column) : Bool := column ∈ db.columns

/-- `SELECT rowid, store_path FROM hash_index WHERE store_hash IS NULL` -/
def withoutStoreHash (db : Database) : List (Int64 × String) :=
  (db.rows.rows.filter fun row => row.storeHash = none).map fun row => (row.rowid, row.storePath)

/-- The backfill, one row at a time. -/
def backfill (rows : List (Int64 × String)) (db : Database) : Session :=
  rows.foldlM (fun db row =>
    match extractStoreHash row.2 with
    | some hash => sqlite.exec (.setStoreHash hash row.1) db
    | none => pure db) db

/-- Adds the `store_hash` column, and fills it from the paths. -/
def migrateStoreHash (db : Database) : Session :=
  if db.hasColumn .storeHash then pure db
  else do
    let db ← sqlite.exec (.addColumn .storeHash) db
    let db ← sqlite.exec (.createIndex "idx_store_hash" .storeHash) db
    backfill db.withoutStoreHash db

/-- Adds the `references` and `deriver` columns. -/
def migrateReferences (db : Database) : Session :=
  if db.hasColumn .references then pure db
  else do
    let db ← sqlite.exec (.addColumn .references) db
    sqlite.exec (.addColumn .deriver) db

def migrate (db : Database) : Session := do
  let db ← migrateStoreHash db
  migrateReferences db

def initSchema (db : Database) : Session := do
  let db ← sqlite.exec .createTable db
  let db ← sqlite.exec (.createIndex "idx_sha256" .sha256) db
  let db ← sqlite.exec (.createIndex "idx_store_path" .storePath) db
  migrate db

/-- The table as the queries see it. -/
def index (db : Database) : HashIndex where
  rows := db.rows.rows.map StoredRow.toRow
  distinct := by
    rw [List.pairwise_map]
    exact db.rows.distinct.imp fun apart => (stored_clash_false.mp apart).2

/-- A query cannot be prepared when a column it names does not exist. -/
def prepare (db : Database) (columns : List Column) : Except Error Unit :=
  match columns.find? fun column => column ∉ db.columns with
  | some column => .error (Statement.noSuchColumn column)
  | none => .ok ()

/-- The columns of an entry, in the order of every `SELECT`. -/
def entryColumns : List Column :=
  [.blake3, .sha256, .storePath, .narSize, .references, .deriver]

def listAll (db : Database) : Except Error (List HashEntry) := do
  db.prepare entryColumns
  pure db.index.listAll

def getByStoreHash (db : Database) (storeHash : String) : Except Error (Option HashEntry) := do
  db.prepare (entryColumns ++ [.storeHash])
  pure (db.index.getByStoreHash storeHash)

end Database

end IrohNix.Index
