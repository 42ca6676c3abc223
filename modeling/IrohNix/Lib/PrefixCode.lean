import Mathlib.Data.Set.Basic

namespace IrohNix.Lib

variable {α β γ : Type}

/-- A code for the members of a set: no code word is the beginning of another's. -/
def PrefixFree (S : Set α) (code : α → List β) : Prop :=
  ∀ a ∈ S, ∀ b ∈ S, code a <+: code b → a = b

namespace PrefixFree

variable {S : Set α} {code : α → List β}

/-- Two streams that are equal and start with code words start with the same one. -/
theorem cancel (free : PrefixFree S code) {a b : α} (ha : a ∈ S) (hb : b ∈ S) {r s : List β}
    (h : code a ++ r = code b ++ s) : a = b ∧ r = s := by
  have hab : a = b := by
    have hpa : code a <+: code b ++ s := ⟨r, h⟩
    rcases List.prefix_or_prefix_of_prefix hpa (List.prefix_append _ s) with hp | hp
    · exact free a ha b hb hp
    · exact (free b hb a ha hp).symm
  subst hab
  exact ⟨rfl, List.append_cancel_left h⟩

theorem of_cancel (h : ∀ a ∈ S, ∀ b ∈ S, ∀ r s, code a ++ r = code b ++ s → a = b) :
    PrefixFree S code := by
  intro a ha b hb hp
  obtain ⟨r, hr⟩ := hp
  exact h a ha b hb r [] (by simpa using hr)

/-- A text is recovered from the code words of its letters. -/
theorem flatMap_prefix (free : PrefixFree S code) (nonempty : ∀ a ∈ S, code a ≠ [])
    {xs ys : List α} (hx : ∀ x ∈ xs, x ∈ S) (hy : ∀ y ∈ ys, y ∈ S)
    (h : xs.flatMap code <+: ys.flatMap code) : xs <+: ys := by
  induction xs generalizing ys with
  | nil => exact List.nil_prefix
  | cons x xs ih =>
    cases ys with
    | nil =>
      have := List.prefix_nil.mp h
      simp only [List.flatMap_cons, List.append_eq_nil_iff] at this
      exact absurd this.1 (nonempty x (hx x (by simp)))
    | cons y ys =>
      obtain ⟨r, hr⟩ := h
      simp only [List.flatMap_cons, List.append_assoc] at hr
      obtain ⟨rfl, hrest⟩ := free.cancel (hx x (by simp)) (hy y (by simp)) hr
      have := ih (fun z hz => hx z (by simp [hz])) (fun z hz => hy z (by simp [hz])) ⟨r, hrest⟩
      exact (List.prefix_cons_inj x).mpr this

/-- A code whose code words are spelled in another code. -/
theorem spelled {T : Set γ} {letters : γ → List α} (outer : PrefixFree T letters)
    (inner : PrefixFree S code) (nonempty : ∀ a ∈ S, code a ≠ [])
    (within : ∀ c ∈ T, ∀ a ∈ letters c, a ∈ S) :
    PrefixFree T fun c => (letters c).flatMap code := by
  intro c hc d hd h
  exact outer c hc d hd (inner.flatMap_prefix nonempty (within c hc) (within d hd) h)

end PrefixFree

end IrohNix.Lib
