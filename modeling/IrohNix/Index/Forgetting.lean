import IrohNix.Index.HashIndex
import Mathlib.Data.List.Induction

namespace IrohNix.Index
open IrohNix.Lib

/-- A call that changes the index. -/
inductive IndexOp where
  | insert (entry : HashEntry)
  | deleteByBlake3 (blake3 : Blake3Hash)
deriving DecidableEq

namespace HashIndex

def apply (index : HashIndex) : IndexOp → HashIndex
  | .insert entry => index.insert entry
  | .deleteByBlake3 blake3 => (index.deleteByBlake3 blake3).1

/-- The index after the calls, from an empty one. -/
def run (ops : List IndexOp) : HashIndex := ops.foldl apply Table.empty

end HashIndex

/-- What takes the row of an entry away: deleting it, or inserting an entry with
one of its hashes, which for true hashes is one of the same contents. -/
def IndexOp.Evicts (entry : HashEntry) : IndexOp → Prop
  | .insert other => other.blake3 = entry.blake3 ∨ other.sha256 = entry.sha256
  | .deleteByBlake3 blake3 => blake3 = entry.blake3

theorem evicts_of_same_contents {hashers : Hashers} {nar : Bytes} {entry other : HashEntry}
    (he : entry.Describes hashers nar) (ho : other.Describes hashers nar) :
    (IndexOp.insert other).Evicts entry := .inl (ho.blake3.trans he.blake3.symm)

/-- Calls that write no entry for a store path. -/
def Leaves (storePath : String) (ops : List IndexOp) : Prop :=
  ∀ other, .insert other ∈ ops → other.storePath ≠ storePath

/-- A call that writes nothing for an entry's store path takes the entry's row
away exactly when it evicts it. -/
theorem row_kept_iff {entry : HashEntry} {op : IndexOp} (leaves : Leaves entry.storePath [op])
    (index : HashIndex) :
    entry.toRow ∈ (index.apply op).rows ↔ entry.toRow ∈ index.rows ∧ ¬ op.Evicts entry := by
  cases op with
  | deleteByBlake3 blake3 =>
    rw [HashIndex.apply, HashIndex.mem_deleteByBlake3, IndexOp.Evicts, Blake3Hash.ext_iff,
      eq_comm (a := blake3.bytes)]
    rfl
  | insert other =>
    have hpath := leaves other (by simp)
    have hrow : entry.toRow ≠ other.toRow := fun h => hpath (congrArg Row.storePath h).symm
    rw [HashIndex.apply, HashIndex.mem_insert, or_iff_left hrow, IndexOp.Evicts, not_or,
      Blake3Hash.ext_iff, Sha256Hash.ext_iff]
    constructor
    · intro h
      obtain ⟨hmem, hblake, hsha, _⟩ := h
      exact ⟨hmem, hblake, hsha⟩
    · intro h
      obtain ⟨hmem, hblake, hsha⟩ := h
      exact ⟨hmem, hblake, hsha, hpath⟩

/-- An entry's row is the only one of its store path. -/
def OnlyRow (entry : HashEntry) (index : HashIndex) : Prop :=
  ∀ row ∈ index.rows, row.storePath = entry.storePath → row = entry.toRow

theorem only_row_insert (index : HashIndex) (entry : HashEntry) :
    OnlyRow entry (index.insert entry) := by
  intro row hr hp
  rcases (index.mem_insert entry row).mp hr with ⟨_, _, _, hne⟩ | rfl
  · exact absurd hp.symm hne
  · rfl

theorem OnlyRow.apply {entry : HashEntry} {index : HashIndex} (only : OnlyRow entry index)
    {op : IndexOp} (leaves : Leaves entry.storePath [op]) : OnlyRow entry (index.apply op) := by
  intro row hr hp
  cases op with
  | deleteByBlake3 blake3 => exact only row ((index.mem_deleteByBlake3 blake3 row).mp hr).1 hp
  | insert other =>
    rcases (index.mem_insert other row).mp hr with ⟨hmem, _⟩ | rfl
    · exact only row hmem hp
    · exact absurd hp (leaves other (by simp))

/-- From an insertion on, as long as nothing else is written for the path. -/
theorem row_after (index : HashIndex) (entry : HashEntry) {after : List IndexOp}
    (leaves : Leaves entry.storePath after) :
    OnlyRow entry (after.foldl HashIndex.apply (index.insert entry)) ∧
      (entry.toRow ∈ (after.foldl HashIndex.apply (index.insert entry)).rows ↔
        ∀ op ∈ after, ¬ op.Evicts entry) := by
  induction after using List.reverseRecOn with
  | nil => exact ⟨only_row_insert index entry, by simp [HashIndex.mem_insert]⟩
  | append_singleton after op ih =>
    obtain ⟨only, hrow⟩ := ih (fun other ho => leaves other (by simp [ho]))
    have hop : Leaves entry.storePath [op] := by
      intro other ho
      simp only [List.mem_singleton] at ho
      exact leaves other (by simp [ho])
    simp only [List.foldl_append, List.foldl_cons, List.foldl_nil]
    refine ⟨only.apply hop, ?_⟩
    rw [row_kept_iff hop, hrow, List.forall_mem_append, List.forall_mem_singleton]

/-- Every row is that of an entry that was inserted. -/
theorem rows_inserted (ops : List IndexOp) :
    ∀ row ∈ (HashIndex.run ops).rows, ∃ entry, .insert entry ∈ ops ∧ row = entry.toRow := by
  induction ops using List.reverseRecOn with
  | nil => simp [HashIndex.run]
  | append_singleton ops op ih =>
    intro row hr
    simp only [HashIndex.run, List.foldl_append, List.foldl_cons, List.foldl_nil] at hr
    have older : row ∈ (HashIndex.run ops).rows →
        ∃ entry, .insert entry ∈ ops ++ [op] ∧ row = entry.toRow := by
      intro hmem
      obtain ⟨entry, he, rfl⟩ := ih row hmem
      exact ⟨entry, by simp [he], rfl⟩
    cases op with
    | deleteByBlake3 blake3 => exact older ((HashIndex.mem_deleteByBlake3 _ _ _).mp hr).1
    | insert entry =>
      rcases (HashIndex.mem_insert _ _ _).mp hr with ⟨hmem, _⟩ | rfl
      · exact older hmem
      · exact ⟨entry, by simp, rfl⟩

/-- A lookup for which the entry's row alone qualifies finds it if it is there. -/
theorem found_iff {index : HashIndex} {entry : HashEntry} {p : Row → Bool}
    (hp : p entry.toRow = true) (only : ∀ row ∈ index.rows, p row = true → row = entry.toRow) :
    (index.find? p).map Row.toEntry = some entry.toRow.toEntry ↔ entry.toRow ∈ index.rows := by
  constructor
  · intro h
    obtain ⟨row, hf, _⟩ := Option.map_eq_some_iff.mp h
    obtain ⟨hr, hpr⟩ := Table.find_mem hf
    exact only row hr hpr ▸ hr
  · intro hr
    rw [Table.find_of_only hr hp only]
    rfl

/-- A store path's latest entry is found, as it is read back, for exactly as
long as it is not deleted and no entry with one of its hashes is inserted: by its
path, and by its store hash where no other path inserted has that hash. -/
theorem remembered_iff (before after : List IndexOp) (entry : HashEntry)
    (latest : Leaves entry.storePath after) :
    ((HashIndex.run (before ++ .insert entry :: after)).getByStorePath entry.storePath =
        some entry.toRow.toEntry ↔ ∀ op ∈ after, ¬ op.Evicts entry) ∧
      (∀ storeHash, extractStoreHash entry.storePath = some storeHash →
        (∀ other, .insert other ∈ before ++ after →
          extractStoreHash other.storePath = some storeHash → other.storePath = entry.storePath) →
        ((HashIndex.run (before ++ .insert entry :: after)).getByStoreHash storeHash =
          some entry.toRow.toEntry ↔ ∀ op ∈ after, ¬ op.Evicts entry)) ∧
      (entry.WellFormed → entry.toRow.toEntry = entry) := by
  have hrun : HashIndex.run (before ++ .insert entry :: after) =
      after.foldl HashIndex.apply ((HashIndex.run before).insert entry) := by
    simp [HashIndex.run, HashIndex.apply]
  obtain ⟨only, hrow⟩ := row_after (HashIndex.run before) entry latest
  rw [← hrun] at only hrow
  refine ⟨?_, ?_, HashEntry.WellFormed.read_back⟩
  · rw [← hrow]
    refine found_iff (by simp [HashEntry.toRow]) (fun row hr hp => ?_)
    exact only row hr (by simpa using hp)
  · intro storeHash hh unshared
    rw [← hrow]
    refine found_iff (by simp [HashEntry.toRow, hh]) (fun row hr hp => ?_)
    obtain ⟨other, ho, rfl⟩ := rows_inserted _ row hr
    have hother : extractStoreHash other.storePath = some storeHash :=
      of_decide_eq_true hp
    refine only other.toRow hr ?_
    simp only [List.mem_append, List.mem_cons, IndexOp.insert.injEq] at ho
    rcases ho with hb | rfl | ha
    · exact unshared other (by simp [hb]) hother
    · rfl
    · exact unshared other (by simp [ha]) hother

/-- The entry of a store path whose NAR is empty, under hashes that are all zero. -/
def twinEntry (name : String) : HashEntry where
  blake3 := ⟨zeroBytes32⟩
  sha256 := ⟨zeroBytes32⟩
  storePath := "/nix/store/" ++ name
  narSize := 0
  references := []
  deriver := none

theorem remembered_until_twin :
    ((HashIndex.run [.insert (twinEntry "a-x")]).getByStorePath "/nix/store/a-x" =
      some (twinEntry "a-x").toRow.toEntry) ∧
    ((HashIndex.run [.insert (twinEntry "a-x"), .insert (twinEntry "b-y")]).getByStorePath
      "/nix/store/a-x" ≠ some (twinEntry "a-x").toRow.toEntry) := by
  have alone := remembered_iff [] [] (twinEntry "a-x") (by simp [Leaves])
  have beside := remembered_iff [] [.insert (twinEntry "b-y")] (twinEntry "a-x") (by
    simp [Leaves, twinEntry])
  refine ⟨alone.1.mpr (by simp), fun h => beside.1.mp h _ (List.mem_singleton_self _) (.inl rfl)⟩

/-- The index forgets a path once another one of the same contents is inserted. -/
theorem twin_forgotten :
    ¬ ∀ (hashers : Hashers) (contents : String → Bytes) (before after : List IndexOp)
      (entry : HashEntry),
      (∀ other, .insert other ∈ before ++ .insert entry :: after →
        other.Describes hashers (contents other.storePath)) →
      Leaves entry.storePath after → (∀ blake3, .deleteByBlake3 blake3 ∉ before ++ after) →
      (HashIndex.run (before ++ .insert entry :: after)).getByStorePath entry.storePath =
        some entry := by
  intro claim
  have found := claim zeroHashers (fun _ => []) [] [.insert (twinEntry "b-y")] (twinEntry "a-x")
    (by
      intro other ho
      simp only [List.nil_append, List.mem_cons, IndexOp.insert.injEq, List.not_mem_nil,
        or_false] at ho
      rcases ho with rfl | rfl <;> exact ⟨rfl, rfl, rfl⟩)
    (by simp [Leaves, twinEntry]) (by simp)
  have forgotten : (HashIndex.run ([] ++ [.insert (twinEntry "a-x"),
      .insert (twinEntry "b-y")])).getByStorePath (twinEntry "a-x").storePath = none := rfl
  rw [forgotten] at found
  contradiction

end IrohNix.Index
