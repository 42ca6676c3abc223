import Mathlib.Data.List.Pairwise

namespace IrohNix.Lib

/-- The unique constraints of a table: which rows may not stand side by side. -/
structure UniqueKeys (ρ : Type) where
  clash : ρ → ρ → Bool
  symm : ∀ a b, clash a b = clash b a

/-- The rows of a table whose unique constraints hold, the oldest first. -/
structure Table {ρ : Type} (unique : UniqueKeys ρ) where
  rows : List ρ
  distinct : rows.Pairwise fun a b => unique.clash a b = false

namespace Table

variable {ρ : Type} {unique : UniqueKeys ρ}

def empty : Table unique := ⟨[], .nil⟩

@[simp] theorem rows_empty : (empty : Table unique).rows = [] := rfl

/-- `INSERT OR REPLACE`: every row that clashes with the new one is deleted first. -/
def insertOrReplace (t : Table unique) (row : ρ) : Table unique where
  rows := t.rows.filter (fun r => !unique.clash row r) ++ [row]
  distinct := by
    rw [List.pairwise_append]
    refine ⟨t.distinct.filter _, List.pairwise_singleton _ _, ?_⟩
    intro a ha b hb
    simp only [List.mem_singleton] at hb
    subst hb
    rw [unique.symm]
    simpa using (List.mem_filter.mp ha).2

/-- `DELETE … WHERE` -/
def delete (t : Table unique) (p : ρ → Bool) : Table unique where
  rows := t.rows.filter (fun r => !p r)
  distinct := t.distinct.filter _

/-- `UPDATE … SET` of columns that no unique constraint speaks of. -/
def update (t : Table unique) (f : ρ → ρ)
    (keeps : ∀ a b, unique.clash (f a) (f b) = unique.clash a b) : Table unique where
  rows := t.rows.map f
  distinct := by
    rw [List.pairwise_map]
    simpa only [keeps] using t.distinct

/-- `SELECT … WHERE`, and of the rows that qualify the first. -/
def find? (t : Table unique) (p : ρ → Bool) : Option ρ := t.rows.find? p

@[simp] theorem mem_insertOrReplace (t : Table unique) (row r : ρ) :
    r ∈ (t.insertOrReplace row).rows ↔ r ∈ t.rows ∧ unique.clash row r = false ∨ r = row := by
  simp [insertOrReplace]

@[simp] theorem mem_delete (t : Table unique) (p : ρ → Bool) (r : ρ) :
    r ∈ (t.delete p).rows ↔ r ∈ t.rows ∧ p r = false := by
  simp [delete]

/-- No two rows clash. -/
theorem apart (t : Table unique) {a b : ρ} (ha : a ∈ t.rows) (hb : b ∈ t.rows) (hne : a ≠ b) :
    unique.clash a b = false := by
  have : Std.Symm fun a b => unique.clash a b = false := ⟨fun a b h => by rwa [unique.symm]⟩
  exact t.distinct.forall ha hb hne

theorem find_mem {t : Table unique} {p : ρ → Bool} {r : ρ} (h : t.find? p = some r) :
    r ∈ t.rows ∧ p r = true :=
  ⟨List.mem_of_find?_eq_some h, List.find?_some h⟩

/-- A row is found when every row that qualifies is that row. -/
theorem find_of_only {t : Table unique} {p : ρ → Bool} {r : ρ} (hr : r ∈ t.rows) (hp : p r = true)
    (only : ∀ a ∈ t.rows, p a = true → a = r) : t.find? p = some r := by
  cases hf : t.find? p with
  | none =>
    have := List.find?_eq_none.mp hf r hr
    contradiction
  | some a =>
    obtain ⟨ha, hpa⟩ := find_mem hf
    rw [only a ha hpa]

end Table

end IrohNix.Lib
