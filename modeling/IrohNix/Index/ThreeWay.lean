import IrohNix.Index.Forgetting
import Mathlib.Data.List.Nodup

namespace IrohNix.Index
open IrohNix.Lib

namespace HashIndex

/-- Each of the entry's three keys leads to the entry itself. -/
structure Holds (index : HashIndex) (entry : HashEntry) : Prop where
  byBlake3 : index.getByBlake3 entry.blake3 = some entry
  bySha256 : index.getBySha256 entry.sha256 = some entry
  byStorePath : index.getByStorePath entry.storePath = some entry

/-- The entry is what a lookup under some key returns. -/
inductive Returns (index : HashIndex) (entry : HashEntry) : Prop where
  | byBlake3 (blake3 : Blake3Hash) (found : index.getByBlake3 blake3 = some entry)
  | bySha256 (sha256 : Sha256Hash) (found : index.getBySha256 sha256 = some entry)
  | byStorePath (storePath : String) (found : index.getByStorePath storePath = some entry)

/-- A lookup under a unique key that a row of the table has finds that row. -/
theorem lookup_unique {κ : Type} (index : HashIndex) (key : Row → κ)
    (unique : ∀ a b : Row, key a = key b → schema.clash a b = true) {row : Row}
    (hr : row ∈ index.rows) {p : Row → Bool} (hp : ∀ r, p r = true ↔ key r = key row) :
    (index.find? p).map Row.toEntry = some row.toEntry := by
  have found : index.find? p = some row := by
    refine Table.find_of_only hr ((hp row).mpr rfl) (fun other ho hk => ?_)
    by_cases same : other = row
    · exact same
    · have apart := index.apart ho hr same
      rw [unique other row ((hp other).mp hk)] at apart
      contradiction
  rw [found, Option.map_some]

theorem holds_of_row (index : HashIndex) {row : Row} (hr : row ∈ index.rows) :
    index.Holds row.toEntry where
  byBlake3 := index.lookup_unique Row.blake3 (by simp +contextual [schema]) hr
    (fun _ => decide_eq_true_iff)
  bySha256 := index.lookup_unique Row.sha256 (by simp +contextual [schema]) hr
    (fun _ => decide_eq_true_iff)
  byStorePath := index.lookup_unique Row.storePath (by simp +contextual [schema]) hr
    (fun _ => decide_eq_true_iff)

/-- Whatever a lookup returns is the reading of a row. -/
theorem row_of_find {index : HashIndex} {p : Row → Bool} {entry : HashEntry}
    (found : (index.find? p).map Row.toEntry = some entry) :
    ∃ row ∈ index.rows, row.toEntry = entry := by
  obtain ⟨row, hf, he⟩ := Option.map_eq_some_iff.mp found
  exact ⟨row, (Table.find_mem hf).1, he⟩

theorem Returns.holds {index : HashIndex} {entry : HashEntry} (h : index.Returns entry) :
    index.Holds entry := by
  have row : ∃ row ∈ index.rows, row.toEntry = entry := by
    cases h with
    | byBlake3 blake3 found => exact row_of_find found
    | bySha256 sha256 found => exact row_of_find found
    | byStorePath storePath found => exact row_of_find found
  obtain ⟨row, hr, rfl⟩ := row
  exact index.holds_of_row hr

/-- Two rows that read as one entry share its BLAKE3 hash. -/
theorem listAll_nodup (index : HashIndex) : index.listAll.Nodup := by
  rw [listAll, List.Nodup, List.pairwise_map]
  refine index.distinct.imp ?_
  intro a b apart same
  have hb : a.blake3 = b.blake3 := congrArg (fun e => e.blake3.bytes) same
  exact (schema_clash_false.mp apart).1 hb

/-- The entries listed are those that the lookups return. -/
theorem mem_listAll_iff (index : HashIndex) (entry : HashEntry) :
    entry ∈ index.listAll ↔ index.Returns entry := by
  constructor
  · intro h
    obtain ⟨row, hr, rfl⟩ := List.mem_map.mp h
    exact .byBlake3 _ (index.holds_of_row hr).byBlake3
  · intro h
    obtain ⟨row, hr, he⟩ := row_of_find h.holds.byBlake3
    exact List.mem_map.mpr ⟨row, hr, he⟩

theorem insert_holds (index : HashIndex) {entry : HashEntry} (hw : entry.WellFormed) :
    (index.insert entry).Holds entry := by
  have hr : entry.toRow ∈ (index.insert entry).rows := (index.mem_insert _ _).mpr (.inr rfl)
  have holds := (index.insert entry).holds_of_row hr
  rwa [hw.read_back] at holds

/-- The three lookups agree in every state the calls reach, they and the listing
speak of the same entries, and an entry just inserted is read back whole. -/
theorem three_way (ops : List IndexOp) :
    (∀ entry, (run ops).Returns entry →
      (run ops).Holds entry ∧ (run ops).listAll.count entry = 1) ∧
    (run ops).count = .ofNat (run ops).listAll.length ∧
    (∀ entry, entry.WellFormed → ((run ops).insert entry).Holds entry) := by
  refine ⟨?_, ?_, ?_⟩
  · intro entry h
    refine ⟨h.holds, List.count_eq_one_of_mem (run ops).listAll_nodup ?_⟩
    exact ((run ops).mem_listAll_iff entry).mpr h
  · rw [count, listAll, List.length_map]
  · intro entry hw
    exact (run ops).insert_holds hw

/-- An entry of the largest size that replaces two others, one by each of its hashes. -/
theorem three_way_replaced :
    let other : HashEntry := { twinEntry "c-z" with blake3 := ⟨Vector.replicate 32 1⟩ }
    let entry : HashEntry := { twinEntry "b-y" with
      blake3 := other.blake3, narSize := 18446744073709551615, references := ["/nix/store/a-x"] }
    ((run [.insert (twinEntry "a-x"), .insert other]).insert entry).Holds entry := by
  intro other entry
  refine (three_way [.insert (twinEntry "a-x"), .insert other]).2.2 entry ?_
  exact ⟨⟨["a-x"], rfl, by decide +kernel⟩, by simp [entry, twinEntry]⟩

end HashIndex

end IrohNix.Index
