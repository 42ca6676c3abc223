import Mathlib.Data.List.Sort

namespace IrohNix.Lib

variable {α β γ : Type}

/-- A list of optional values collects to a list exactly if each is there. -/
theorem mapM_eq_some {f : α → Option β} {xs : List α} {ys : List β} :
    xs.mapM f = some ys ↔ xs.map f = ys.map some := by
  induction xs generalizing ys with
  | nil => cases ys <;> simp
  | cons x xs ih =>
    rw [List.mapM_cons]
    cases hx : f x with
    | none => cases ys <;> simp [hx]
    | some y =>
      cases ys with
      | nil => cases hxs : xs.mapM f <;> simp
      | cons z zs =>
        cases hxs : xs.mapM f with
        | none =>
          have differ : xs.map f ≠ zs.map some := fun h => by simp [ih.mpr h] at hxs
          simp [hx, differ]
        | some ws =>
          have same : xs.map f = zs.map some ↔ ws = zs := by simp [← ih, hxs]
          simp [hx, same]

/-- Outcomes collect to a list exactly if each is a success. -/
theorem mapM_eq_ok {ε : Type} {f : α → Except ε β} {xs : List α} {ys : List β} :
    xs.mapM f = .ok ys ↔ xs.map f = ys.map .ok := by
  induction xs generalizing ys with
  | nil => cases ys <;> simp [pure, Except.pure]
  | cons x xs ih =>
    rw [List.mapM_cons]
    cases hx : f x with
    | error e => cases ys <;> simp [hx, bind, Except.bind]
    | ok y =>
      cases hxs : xs.mapM f with
      | error e =>
        have differ : ∀ zs : List β, xs.map f ≠ zs.map .ok := fun zs h => by
          rw [← ih, hxs] at h
          cases h
        cases ys <;> simp [hx, bind, Except.bind, differ]
      | ok ws =>
        have same : ∀ zs, xs.map f = zs.map .ok ↔ ws = zs := fun zs => by
          rw [← ih, hxs, Except.ok.injEq]
        cases ys <;> simp [hx, bind, Except.bind, pure, Except.pure, same]

/-- What one entry alone of a list without duplicates has is found where that entry is. -/
theorem findIdx_unique {xs : List α} (nodup : xs.Nodup) {p : α → Bool}
    (only : ∀ a b, p a = true → p b = true → a = b) {n : Nat} :
    xs.findIdx? p = some n ↔ ∃ a, xs[n]? = some a ∧ p a = true := by
  rw [List.findIdx?_eq_some_iff_getElem]
  constructor
  · intro h
    obtain ⟨hn, holds, _⟩ := h
    exact ⟨xs[n], List.getElem?_eq_getElem hn, holds⟩
  · intro h
    obtain ⟨a, ha, holds⟩ := h
    obtain ⟨hn, rfl⟩ := List.getElem?_eq_some_iff.mp ha
    refine ⟨hn, holds, fun j hj earlier => ?_⟩
    have same := nodup.getElem_inj_iff.mp (only _ _ earlier holds)
    omega

theorem mapM_eq_none {f : α → Option β} {xs : List α} :
    xs.mapM f = none ↔ ∃ x ∈ xs, f x = none := by
  induction xs with
  | nil => simp
  | cons x xs ih =>
    rw [List.mapM_cons]
    cases hx : f x with
    | none => simp [hx]
    | some y =>
      cases hxs : xs.mapM f with
      | none => simpa [hx] using ih.mp hxs
      | some ys => simpa [hx, hxs] using ih

theorem mapM_map_some (f : α → Option β) (g : β → γ) (xs : List α) :
    (xs.mapM fun x => (f x).map g) = (xs.mapM f).map (List.map g) := by
  cases h : xs.mapM f with
  | none =>
    obtain ⟨x, hx, hn⟩ := mapM_eq_none.mp h
    exact mapM_eq_none.mpr ⟨x, hx, by rw [hn]; rfl⟩
  | some ys =>
    refine mapM_eq_some.mpr ?_
    have := congrArg (List.map (Option.map g)) (mapM_eq_some.mp h)
    simpa [Function.comp_def] using this

/-- Values may be sorted before they are collected, if they compare alike. -/
theorem mapM_insertionSort {f : α → Option β} {xs : List α} {r : α → α → Prop} {s : β → β → Prop}
    [DecidableRel r] [DecidableRel s]
    (alike : ∀ x y a b, f x = some a → f y = some b → (r x y ↔ s a b)) :
    (xs.insertionSort r).mapM f = (xs.mapM f).map (List.insertionSort s) := by
  classical
  cases h : xs.mapM f with
  | none =>
    obtain ⟨x, hx, hn⟩ := mapM_eq_none.mp h
    exact mapM_eq_none.mpr ⟨x, (List.mem_insertionSort r).mpr hx, hn⟩
  | some ys =>
    have values := mapM_eq_some.mp h
    let q : Option β → Option β → Prop := fun a b => ∃ x y, a = some x ∧ b = some y ∧ s x y
    have through : (xs.insertionSort r).map f = (xs.map f).insertionSort q := by
      refine List.map_insertionSort r q f xs fun x hx y hy => ?_
      have hfx : f x ∈ ys.map some := values ▸ List.mem_map_of_mem hx
      have hfy : f y ∈ ys.map some := values ▸ List.mem_map_of_mem hy
      obtain ⟨a, _, ha⟩ := List.mem_map.mp hfx
      obtain ⟨b, _, hb⟩ := List.mem_map.mp hfy
      rw [alike x y a b ha.symm hb.symm, ← ha, ← hb]
      simp [q]
    refine mapM_eq_some.mpr ?_
    rw [through, values]
    exact (List.map_insertionSort s q some ys fun a _ b _ => by simp [q]).symm

theorem filterMap_snoc (f : α → Option β) (xs : List α) (x : α) :
    (xs ++ [x]).filterMap f = xs.filterMap f ++ (f x).toList := by
  rw [List.filterMap_append]
  cases h : f x <;> simp [h]

/-- Two members with one value make that value occur twice. -/
theorem two_le_count_filterMap [DecidableEq β] {f : α → Option β} {xs : List α} {a b : α} {y : β}
    (ha : a ∈ xs) (hb : b ∈ xs) (differ : a ≠ b) (hfa : f a = some y) (hfb : f b = some y) :
    2 ≤ (xs.filterMap f).count y := by
  obtain ⟨before, after, rfl⟩ := List.append_of_mem ha
  have hrest : y ∈ (before ++ after).filterMap f := by
    refine List.mem_filterMap.mpr ⟨b, ?_, hfb⟩
    simpa [Ne.symm differ] using hb
  have hpos := List.count_pos_iff.mpr hrest
  rw [List.filterMap_append, List.count_append] at hpos
  rw [List.filterMap_append, List.count_append, List.filterMap_cons_some hfa, List.count_cons_self]
  omega

/-- Lists without a repetition between them hold each member in exactly one place. -/
theorem existsUnique_of_nodup_flatten {xss : List (List α)} (nodup : xss.flatten.Nodup) {x : α}
    (h : x ∈ xss.flatten) : ∃! n : Nat, ∃ xs, xss[n]? = some xs ∧ x ∈ xs := by
  obtain ⟨xs, hxs, hx⟩ := List.mem_flatten.mp h
  obtain ⟨n, hn, rfl⟩ := List.getElem_of_mem hxs
  have apart := (List.nodup_flatten.mp nodup).2
  refine ⟨n, ⟨_, List.getElem?_eq_getElem hn, hx⟩, ?_⟩
  intro m hm
  obtain ⟨ys, hys, hy⟩ := hm
  obtain ⟨hm, rfl⟩ := List.getElem?_eq_some_iff.mp hys
  rcases Nat.lt_trichotomy m n with hlt | heq | hgt
  · exact absurd hx (List.pairwise_iff_getElem.mp apart m n hm hn hlt hy)
  · exact heq
  · exact absurd hy (List.pairwise_iff_getElem.mp apart n m hn hm hgt hx)

end IrohNix.Lib
