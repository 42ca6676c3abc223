import IrohNix.Basic
import IrohNix.Lib.Table
import IrohNix.Lib.Text

namespace IrohNix.Index
open IrohNix.Lib

/-- Entry in the hash index. -/
structure HashEntry where
  blake3 : Blake3Hash
  sha256 : Sha256Hash
  storePath : String
  narSize : UInt64
  references : List String
  deriver : Option String
deriving DecidableEq

/-- A row of the SQLite table `hash_index`. -/
structure Row where
  blake3 : Bytes32
  sha256 : Bytes32
  storePath : String
  narSize : Int64
  storeHash : Option String
  references : String
  deriver : Option String
deriving DecidableEq

/-- `blake3` is the primary key; `sha256` and `store_path` are unique. -/
def schema : UniqueKeys Row where
  clash := fun a b => a.blake3 = b.blake3 || a.sha256 = b.sha256 || a.storePath = b.storePath
  symm := by
    intro a b
    simp only [eq_comm]

theorem schema_clash_false {a b : Row} : schema.clash a b = false ↔
    a.blake3 ≠ b.blake3 ∧ a.sha256 ≠ b.sha256 ∧ a.storePath ≠ b.storePath := by
  simp [schema, and_assoc]

/-- `HashIndex`: the rows of `hash_index`, in the order they were written. -/
abbrev HashIndex := Table schema

def storePathBasename (path : String) : Option String := stripPrefix "/nix/store/" path

def referencesToBasenames (references : List String) : List String :=
  references.filterMap storePathBasename

def basenamesToReferences (basenames : String) : List String :=
  ((splitWhitespace basenames).filter (fun s => !s.isEmpty)).map ("/nix/store/" ++ ·)

/-- Given "/nix/store/abc123-name", returns "abc123". -/
def extractStoreHash (storePath : String) : Option String :=
  (stripPrefix "/nix/store/" storePath).map fun s => String.ofList (s.toList.takeWhile (· != '-'))

/-- The row an entry is stored as. -/
def HashEntry.toRow (entry : HashEntry) : Row where
  blake3 := entry.blake3.bytes
  sha256 := entry.sha256.bytes
  storePath := entry.storePath
  narSize := entry.narSize.toInt64
  storeHash := extractStoreHash entry.storePath
  references := " ".intercalate (referencesToBasenames entry.references)
  deriver := entry.deriver.bind storePathBasename

/-- `tuple_to_entry` -/
def Row.toEntry (row : Row) : HashEntry where
  blake3 := ⟨row.blake3⟩
  sha256 := ⟨row.sha256⟩
  storePath := row.storePath
  narSize := row.narSize.toUInt64
  references := basenamesToReferences row.references
  deriver := row.deriver.map ("/nix/store/" ++ ·)

namespace HashIndex

def insert (index : HashIndex) (entry : HashEntry) : HashIndex :=
  index.insertOrReplace entry.toRow

def getByBlake3 (index : HashIndex) (blake3 : Blake3Hash) : Option HashEntry :=
  (index.find? fun row => row.blake3 = blake3.bytes).map Row.toEntry

def getBySha256 (index : HashIndex) (sha256 : Sha256Hash) : Option HashEntry :=
  (index.find? fun row => row.sha256 = sha256.bytes).map Row.toEntry

def getByStorePath (index : HashIndex) (storePath : String) : Option HashEntry :=
  (index.find? fun row => row.storePath = storePath).map Row.toEntry

/-- Store hashes are not unique: any row with this one may answer, here the oldest. -/
def getByStoreHash (index : HashIndex) (storeHash : String) : Option HashEntry :=
  (index.find? fun row => row.storeHash = some storeHash).map Row.toEntry

/-- The table without the entry, and whether there was one. -/
def deleteByBlake3 (index : HashIndex) (blake3 : Blake3Hash) : HashIndex × Bool :=
  (index.delete fun row => row.blake3 = blake3.bytes,
    index.rows.any fun row => row.blake3 = blake3.bytes)

def listAll (index : HashIndex) : List HashEntry := index.rows.map Row.toEntry

def count (index : HashIndex) : UInt64 := .ofNat index.rows.length

theorem mem_insert (index : HashIndex) (entry : HashEntry) (row : Row) :
    row ∈ (index.insert entry).rows ↔
      row ∈ index.rows ∧ entry.toRow.blake3 ≠ row.blake3 ∧ entry.toRow.sha256 ≠ row.sha256 ∧
        entry.toRow.storePath ≠ row.storePath ∨ row = entry.toRow := by
  rw [insert, Table.mem_insertOrReplace, schema_clash_false]

theorem mem_deleteByBlake3 (index : HashIndex) (blake3 : Blake3Hash) (row : Row) :
    row ∈ (index.deleteByBlake3 blake3).1.rows ↔ row ∈ index.rows ∧ row.blake3 ≠ blake3.bytes := by
  simp [deleteByBlake3]

end HashIndex

/-- An entry whose hashes and size are those of one byte string. -/
structure HashEntry.Describes (hashers : Hashers) (nar : Bytes) (entry : HashEntry) : Prop where
  blake3 : entry.blake3 = ⟨hashers.blake3 nar⟩
  sha256 : entry.sha256 = ⟨hashers.sha256 nar⟩
  narSize : entry.narSize.toNat = nar.length

/-- An entry whose references and deriver are store paths, of names that hold no
white space. -/
structure HashEntry.WellFormed (entry : HashEntry) : Prop where
  references : ∃ names : List String, entry.references = names.map ("/nix/store/" ++ ·) ∧
    ∀ n ∈ names, IsWord n
  deriver : ∀ d, entry.deriver = some d → ∃ name, d = "/nix/store/" ++ name

theorem basenames_of_references {names : List String} :
    referencesToBasenames (names.map ("/nix/store/" ++ ·)) = names := by
  simp [referencesToBasenames, List.filterMap_map, storePathBasename, Function.comp_def]

theorem references_of_basenames {names : List String} (hn : ∀ n ∈ names, IsWord n) :
    basenamesToReferences (" ".intercalate names) = names.map ("/nix/store/" ++ ·) := by
  rw [basenamesToReferences, splitWhitespace_join hn]
  congr 1
  rw [List.filter_eq_self]
  intro n hmem
  simpa using (hn n hmem).1

/-- The row of a well-formed entry is read back as that entry. -/
theorem HashEntry.WellFormed.read_back {entry : HashEntry} (hw : entry.WellFormed) :
    entry.toRow.toEntry = entry := by
  obtain ⟨blake3, sha256, storePath, narSize, references, deriver⟩ := entry
  obtain ⟨⟨names, hrefs, hnames⟩, hder⟩ := hw
  simp only at hrefs hder
  subst hrefs
  have hd : (deriver.bind storePathBasename).map ("/nix/store/" ++ ·) = deriver := by
    cases deriver with
    | none => rfl
    | some d =>
      obtain ⟨name, rfl⟩ := hder d rfl
      simp [storePathBasename]
  simp [HashEntry.toRow, Row.toEntry, basenames_of_references, references_of_basenames hnames, hd]

end IrohNix.Index
