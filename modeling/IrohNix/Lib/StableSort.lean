import Mathlib.Data.List.Sort
import Mathlib.Order.Defs.LinearOrder

namespace IrohNix.Lib

variable {α κ : Type} [LinearOrder κ] {key : α → κ} {xs : List α}

/-- The stable sort by a key. -/
def sortByKey (key : α → κ) (xs : List α) : List α := xs.mergeSort fun a b => decide (key a ≤ key b)

/-- The order of elements with their positions that a stable sort establishes: by key, and
by position among equal keys. -/
def Earlier (key : α → κ) (p q : α × Nat) : Prop :=
  key p.1 < key q.1 ∨ key p.1 = key q.1 ∧ p.2 < q.2

instance {p q : α × Nat} : Decidable (Earlier key p q) := inferInstanceAs (Decidable (_ ∨ _))

theorem Earlier.asymm {p q : α × Nat} (h : Earlier key p q) : ¬ Earlier key q p := by
  intro h'
  rcases h with h | ⟨heq, h⟩ <;> rcases h' with h' | ⟨heq', h'⟩
  · exact lt_asymm h h'
  · exact h.ne heq'.symm
  · exact h'.ne heq.symm
  · omega

/-- The elements with their positions, sorted. -/
def ranked (key : α → κ) (xs : List α) : List (α × Nat) :=
  xs.zipIdx.mergeSort (List.zipIdxLE fun a b => decide (key a ≤ key b))

theorem map_fst_ranked : (ranked key xs).map Prod.fst = sortByKey key xs := List.mergeSort_zipIdx

theorem mem_ranked {p : α × Nat} : p ∈ ranked key xs ↔ p ∈ xs.zipIdx := List.mem_mergeSort

theorem earlier_of_zipIdxLE {p q : α × Nat} (hne : p.2 ≠ q.2)
    (h : List.zipIdxLE (fun a b => decide (key a ≤ key b)) p q = true) : Earlier key p q := by
  simp only [List.zipIdxLE, decide_eq_true_eq] at h
  split at h
  · rename_i hle
    split at h
    · rename_i hge
      exact .inr ⟨le_antisymm hle hge, by simp only [decide_eq_true_eq] at h; omega⟩
    · rename_i hge
      exact .inl (not_le.mp hge)
  · contradiction

theorem pairwise_ranked : (ranked key xs).Pairwise (Earlier key) := by
  have sorted : (ranked key xs).Pairwise
      (fun p q => List.zipIdxLE (fun a b => decide (key a ≤ key b)) p q = true) := by
    apply List.pairwise_mergeSort
    · apply List.zipIdxLE_trans
      intro a b c hab hbc
      simp only [decide_eq_true_eq] at hab hbc ⊢
      exact le_trans hab hbc
    · apply List.zipIdxLE_total
      intro a b
      simp only [Bool.or_eq_true, decide_eq_true_eq]
      exact le_total (key a) (key b)
  have distinct : (ranked key xs).Pairwise (fun p q => p.2 ≠ q.2) := by
    have hperm : (ranked key xs).Perm xs.zipIdx := List.mergeSort_perm _ _
    have hnodup : (xs.zipIdx.map Prod.snd).Nodup := by
      rw [List.zipIdx_map_snd]
      exact List.nodup_range'
    exact List.pairwise_map.mp ((hperm.map Prod.snd).nodup_iff.mpr hnodup)
  exact (sorted.and distinct).imp fun h => earlier_of_zipIdxLE h.2 h.1

/-- What comes before an element of the sorted list is what is earlier. -/
theorem mem_before_ranked {before after : List (α × Nat)} {p q : α × Nat}
    (h : ranked key xs = before ++ p :: after) :
    q ∈ before ↔ q ∈ xs.zipIdx ∧ Earlier key q p := by
  have hpair : (before ++ p :: after).Pairwise (Earlier key) := h ▸ pairwise_ranked
  obtain ⟨_, hafter, hcross⟩ := List.pairwise_append.mp hpair
  constructor
  · intro hq
    have hmem : q ∈ ranked key xs := by simp [h, hq]
    exact ⟨mem_ranked.mp hmem, hcross q hq p (by simp)⟩
  · intro hq
    obtain ⟨hmem, hearlier⟩ := hq
    have hmem : q ∈ ranked key xs := mem_ranked.mpr hmem
    rw [h] at hmem
    rcases List.mem_append.mp hmem with hq | hq
    · exact hq
    · rcases List.mem_cons.mp hq with rfl | hq
      · exact absurd hearlier hearlier.asymm
      · exact absurd hearlier ((List.pairwise_cons.mp hafter).1 q hq).asymm

/-- An element of the sorted list is at the place that the number of earlier ones gives. -/
theorem count_earlier {before after : List (α × Nat)} {p : α × Nat}
    (h : ranked key xs = before ++ p :: after) :
    (xs.zipIdx.countP fun q => decide (Earlier key q p)) = before.length := by
  have hpair : (before ++ p :: after).Pairwise (Earlier key) := h ▸ pairwise_ranked
  obtain ⟨_, hafter, hcross⟩ := List.pairwise_append.mp hpair
  have same : (ranked key xs).Perm xs.zipIdx := List.mergeSort_perm _ _
  have earlier : (before.countP fun q => decide (Earlier key q p)) = before.length :=
    List.countP_eq_length.mpr fun q hq => decide_eq_true (hcross q hq p (by simp))
  have later : ((p :: after).countP fun q => decide (Earlier key q p)) = 0 := by
    refine List.countP_eq_zero.mpr fun q hq => ?_
    rw [decide_eq_true_eq]
    rcases List.mem_cons.mp hq with rfl | hq
    · exact fun hearlier => hearlier.asymm hearlier
    · exact ((List.pairwise_cons.mp hafter).1 q hq).asymm
  rw [← same.countP_eq, h, List.countP_append, earlier, later, Nat.add_zero]

/-- The earliest element with a property. -/
theorem exists_earliest (key : α → κ) {P : α × Nat → Prop} (h : ∃ p ∈ xs.zipIdx, P p) :
    ∃ before p after, ranked key xs = before ++ p :: after ∧ P p ∧ ∀ q ∈ before, ¬ P q := by
  classical
  obtain ⟨p, hp, hP⟩ := h
  have hfind : ((ranked key xs).find? (fun p => decide (P p))).isSome := by
    rw [List.find?_isSome]
    exact ⟨p, mem_ranked.mpr hp, by simpa using hP⟩
  obtain ⟨first, hfirst⟩ := Option.isSome_iff_exists.mp hfind
  obtain ⟨hP, before, after, hsplit, hbefore⟩ := List.find?_eq_some_iff_append.mp hfirst
  exact ⟨before, first, after, hsplit, by simpa using hP, fun q hq => by simpa using hbefore q hq⟩

end IrohNix.Lib
