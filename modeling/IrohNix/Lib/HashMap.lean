import Mathlib.Data.Finmap

namespace IrohNix.Lib

/-- A finite map, equal to another exactly when all lookups agree. It has no
order of its own: whatever walks over one is given an `Iter`. -/
abbrev HashMap (K V : Type) := Finmap (fun _ : K => V)

abbrev HashSet (K : Type) := HashMap K Unit

namespace HashMap

variable {K V : Type}

/-- The number of entries. -/
def len (m : HashMap K V) : Nat := m.keys.card

@[simp] theorem len_empty : len (∅ : HashMap K V) = 0 := rfl

variable [DecidableEq K]

def get? (m : HashMap K V) (k : K) : Option V := Finmap.lookup k m

theorem ext_get {m m' : HashMap K V} (h : ∀ k, m.get? k = m'.get? k) : m = m' :=
  Finmap.ext_lookup h

@[simp] theorem get_empty (k : K) : get? (∅ : HashMap K V) k = none := Finmap.lookup_empty k

theorem get_insert (m : HashMap K V) (a k : K) (v : V) :
    get? (m.insert k v) a = if a = k then some v else m.get? a := by
  split
  · rename_i he
    subst he
    exact Finmap.lookup_insert m
  · rename_i hne
    exact Finmap.lookup_insert_of_ne m hne

@[simp] theorem get_insert_self (m : HashMap K V) (k : K) (v : V) :
    get? (m.insert k v) k = some v := by simp [get_insert]

theorem get_erase (m : HashMap K V) (a k : K) :
    get? (m.erase k) a = if a = k then none else m.get? a := by
  split
  · rename_i he
    subst he
    exact Finmap.lookup_erase a m
  · rename_i hne
    exact Finmap.lookup_erase_ne hne

/-- What is left after a removal was there before. -/
theorem get_of_erase {m : HashMap K V} {a k : K} {v : V} (h : get? (m.erase k) a = some v) :
    m.get? a = some v := by
  rw [get_erase] at h
  split at h
  · cases h
  · exact h

theorem get_eraseAll (m : HashMap K V) (ks : List K) (a : K) :
    get? (ks.foldl (fun m k => m.erase k) m) a = if a ∈ ks then none else m.get? a := by
  induction ks generalizing m with
  | nil => simp
  | cons k ks ih =>
    rw [List.foldl_cons, ih, get_erase]
    by_cases ha : a = k <;> simp [ha]

/-- The set of a list's members, as `collect` builds it. -/
def collect (xs : List K) : HashSet K := xs.foldl (fun m x => m.insert x ()) ∅

theorem get_collect (xs : List K) (a : K) :
    get? (collect xs) a = if a ∈ xs then some () else none := by
  have all : ∀ (m : HashSet K), get? (xs.foldl (fun m x => m.insert x ()) m) a =
      if a ∈ xs then some () else m.get? a := by
    induction xs with
    | nil => simp
    | cons x xs ih =>
      intro m
      rw [List.foldl_cons, ih, get_insert]
      by_cases ha : a = x <;> simp [ha]
  exact (all ∅).trans (by rw [get_empty])

theorem get_of_len_zero {m : HashMap K V} (h : m.len = 0) (k : K) : m.get? k = none := by
  have empty : m.keys = ∅ := Finset.card_eq_zero.mp h
  refine Finmap.lookup_eq_none.mpr fun hk => ?_
  have hk := Finmap.mem_keys.mpr hk
  simp [empty] at hk

theorem len_insert_new {m : HashMap K V} {k : K} (h : m.get? k = none) (v : V) :
    len (m.insert k v) = m.len + 1 := by
  have hk : k ∉ m.keys := by
    rw [Finmap.mem_keys]
    exact Finmap.lookup_eq_none.mp h
  have he : (m.insert k v).keys = insert k m.keys := by
    ext x
    simp [Finmap.mem_keys, Finmap.mem_insert]
  simp [len, he, Finset.card_insert_of_notMem hk]

theorem len_insert_old {m : HashMap K V} {k : K} {v : V} (h : m.get? k = some v) (w : V) :
    len (m.insert k w) = m.len := by
  have hk : k ∈ m := Finmap.mem_of_lookup_eq_some h
  have he : (m.insert k w).keys = m.keys := by
    ext x
    simp only [Finmap.mem_keys, Finmap.mem_insert, or_iff_right_iff_imp]
    intro h
    obtain rfl := h
    exact hk
  simp [len, he]

theorem len_erase_some {m : HashMap K V} {k : K} {v : V} (h : m.get? k = some v) :
    len (m.erase k) + 1 = m.len := by
  have hk : k ∈ m.keys := Finmap.mem_keys.mpr (Finmap.mem_of_lookup_eq_some h)
  simpa [len, Finmap.keys_erase] using Finset.card_erase_add_one hk

/-- Removing an entry and putting it back leaves the map as it was. -/
theorem insert_erase_new {m : HashMap K V} {k : K} (h : m.get? k = none) (v : V) :
    Finmap.erase k (m.insert k v) = m := by
  apply ext_get
  intro a
  rw [get_erase, get_insert]
  split
  · rename_i he
    rw [he, h]
  · rfl

theorem erase_insert_same {m : HashMap K V} {k : K} {v : V} (h : m.get? k = some v) :
    (m.erase k).insert k v = m := by
  apply ext_get
  intro a
  rw [get_insert, get_erase]
  split
  · rename_i he
    rw [he, h]
  · rfl

/-- The map with every value rewritten in place. -/
def mapValues {W : Type} (m : HashMap K V) (f : V → W) : HashMap K W where
  entries := m.entries.map fun e => ⟨e.1, f e.2⟩
  nodupKeys := by
    rw [← Multiset.nodup_keys, Multiset.keys, Multiset.map_map]
    exact m.nodupKeys.nodup_keys

theorem get_mapValues {W : Type} (m : HashMap K V) (f : V → W) (k : K) :
    get? (m.mapValues f) k = (m.get? k).map f := by
  apply Option.ext
  intro w
  rw [Option.map_eq_some_iff, get?, Finmap.lookup_eq_some_iff]
  simp only [mapValues, Multiset.mem_map]
  constructor
  · intro h
    obtain ⟨⟨a, v⟩, hm, he⟩ := h
    cases he
    exact ⟨v, Finmap.lookup_eq_some_iff.mpr hm, rfl⟩
  · intro h
    obtain ⟨v, hv, rfl⟩ := h
    exact ⟨⟨k, v⟩, Finmap.lookup_eq_some_iff.mp hv, rfl⟩

/-- The entries whose value passes a test. -/
def retain (m : HashMap K V) (keep : V → Bool) : HashMap K V where
  entries := m.entries.filter fun e => keep e.2
  nodupKeys := by
    rw [← Multiset.nodup_keys]
    exact Multiset.nodup_of_le (Multiset.map_le_map (Multiset.filter_le _ _))
      m.nodupKeys.nodup_keys

theorem get_retain (m : HashMap K V) (keep : V → Bool) (k : K) :
    get? (m.retain keep) k = (m.get? k).filter keep := by
  apply Option.ext
  intro v
  rw [Option.filter_eq_some_iff, get?, Finmap.lookup_eq_some_iff, retain, Multiset.mem_filter,
    ← Finmap.lookup_eq_some_iff]
  rfl

/-- One order in which a map's entries may be visited. -/
structure Iter (m : HashMap K V) where
  items : List (K × V)
  nodup : (items.map Prod.fst).Nodup
  mem_iff : ∀ k v, (k, v) ∈ items ↔ m.get? k = some v

/-- The keys in that order. -/
def Iter.keys {m : HashMap K V} (o : m.Iter) : List K := o.items.map Prod.fst

theorem Iter.keys_nodup {m : HashMap K V} (o : m.Iter) : o.keys.Nodup := o.nodup

theorem Iter.mem_keys {m : HashMap K V} (o : m.Iter) (k : K) : k ∈ o.keys ↔ (m.get? k).isSome := by
  rw [keys, List.mem_map, Option.isSome_iff_exists]
  constructor
  · intro h
    obtain ⟨⟨a, v⟩, hm, rfl⟩ := h
    exact ⟨v, (o.mem_iff a v).mp hm⟩
  · intro h
    obtain ⟨v, hv⟩ := h
    exact ⟨(k, v), (o.mem_iff k v).mpr hv, rfl⟩

/-- The order of a map of one entry. -/
def Iter.single (k : K) (v : V) : Iter (Finmap.insert k v ∅ : HashMap K V) where
  items := [(k, v)]
  nodup := List.nodup_singleton k
  mem_iff := by
    intro a w
    rw [get_insert, get_empty, List.mem_singleton, Prod.mk.injEq]
    split
    · rename_i ha
      simp [ha, eq_comm]
    · rename_i ha
      simp [ha]

/-- Searching any visiting order for a key is looking the key up. -/
theorem Iter.find_key {m : HashMap K V} (o : m.Iter) (k : K) :
    o.items.find? (fun e => e.1 == k) = (m.get? k).map (fun v => (k, v)) := by
  cases hf : o.items.find? (fun e => e.1 == k) with
  | none =>
    cases hl : m.get? k with
    | none => rfl
    | some v =>
      have hn := List.find?_eq_none.mp hf (k, v) ((o.mem_iff k v).mpr hl)
      simp at hn
  | some e =>
    obtain ⟨a, v⟩ := e
    have ha : a = k := by simpa using List.find?_some hf
    subst ha
    rw [(o.mem_iff a v).mp (List.mem_of_find?_eq_some hf)]
    rfl

/-- Every map has a visiting order. -/
theorem iter_exists (m : HashMap K V) : Nonempty m.Iter := by
  induction m using Finmap.induction_on with
  | H a =>
    refine ⟨⟨a.entries.map (fun e => (e.1, e.2)), ?_, ?_⟩⟩
    · rw [List.map_map]
      exact a.nodupKeys
    · intro k v
      rw [get?, Finmap.lookup_toFinmap, ← Option.mem_def, AList.mem_lookup_iff, List.mem_map]
      constructor
      · intro h
        obtain ⟨⟨x, y⟩, hm, he⟩ := h
        obtain ⟨rfl, rfl⟩ := Prod.mk.inj he
        exact hm
      · intro hm
        exact ⟨⟨k, v⟩, hm, rfl⟩

/-- Some visiting order. -/
noncomputable def someIter (m : HashMap K V) : m.Iter := Classical.choice m.iter_exists

end HashMap

end IrohNix.Lib
