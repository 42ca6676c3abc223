import IrohNix.Lib.Effects
import IrohNix.Lib.Runs

namespace IrohNix.Lib

variable {φ ε E α β : Type}

/-- From this phase, what a computation does is a run of a protocol, and the phase it leaves
fits how it returns. -/
def Conforms (step : φ → ε → φ → Prop) (start : φ) (m : Logged ε E α)
    (post : Except E α → φ → Prop) : Prop :=
  ∃ phase, Run step start m.effects phase ∧ post m.result phase

namespace Conforms

variable {step : φ → ε → φ → Prop} {start : φ} {m : Logged ε E α} {post : Except E α → φ → Prop}

theorem mono {post' : Except E α → φ → Prop} (h : Conforms step start m post)
    (weaker : ∀ result phase, post result phase → post' result phase) :
    Conforms step start m post' := by
  obtain ⟨phase, run, ends⟩ := h
  exact ⟨phase, run, weaker _ _ ends⟩

theorem lift {outcome : Except E α} (h : post outcome start) :
    Conforms step start (Logged.lift outcome : Logged ε E α) post := ⟨start, .nil, h⟩

theorem pure {a : α} (h : post (.ok a) start) :
    Conforms step start (Pure.pure a : Logged ε E α) post := ⟨start, .nil, h⟩

theorem fail {e : E} (h : post (.error e) start) :
    Conforms step start (Logged.fail e : Logged ε E α) post := ⟨start, .nil, h⟩

theorem perform {effect : ε} {phase : φ} (h : step start effect phase)
    {post : Except E Unit → φ → Prop} (ends : post (.ok ()) phase) :
    Conforms step start (Logged.perform effect : Logged ε E Unit) post :=
  ⟨phase, Run.nil.snoc h, ends⟩

/-- One after the other: the second goes on where the first left off, with what it returned. -/
theorem bind_result {f : α → Logged ε E β} {mid : Except E α → φ → Prop}
    {post : Except E β → φ → Prop} (first : Conforms step start m mid)
    (second : ∀ a phase, m.result = .ok a → mid (.ok a) phase → Conforms step phase (f a) post)
    (failed : ∀ e phase, mid (.error e) phase → post (.error e) phase) :
    Conforms step start (m >>= f) post := by
  obtain ⟨phase, run, ends⟩ := first
  cases hm : m.result with
  | ok a =>
    rw [hm] at ends
    obtain ⟨phase', run', ends'⟩ := second a phase hm ends
    refine ⟨phase', ?_, ?_⟩
    · rw [Logged.effects_bind hm]
      exact run.trans run'
    · obtain ⟨effects, result⟩ := m
      cases hm
      exact ends'
  | error e =>
    rw [hm] at ends
    refine ⟨phase, ?_, ?_⟩
    · rw [Logged.effects_bind_error hm]
      exact run
    · obtain ⟨effects, result⟩ := m
      cases hm
      exact failed e phase ends

theorem bind {f : α → Logged ε E β} {mid : Except E α → φ → Prop} {post : Except E β → φ → Prop}
    (first : Conforms step start m mid)
    (second : ∀ a phase, mid (.ok a) phase → Conforms step phase (f a) post)
    (failed : ∀ e phase, mid (.error e) phase → post (.error e) phase) :
    Conforms step start (m >>= f) post :=
  first.bind_result (fun a phase _ => second a phase) failed

/-- An effect that the protocol allows, and then the rest. -/
theorem performs {effect : ε} {phase : φ} {f : Unit → Logged ε E β}
    {post : Except E β → φ → Prop} (may : step start effect phase)
    (further : Conforms step phase (f ()) post) :
    Conforms step start (Logged.perform effect >>= f) post := by
  obtain ⟨last, run, ends⟩ := further
  exact ⟨last, (Run.nil.snoc may).trans run, ends⟩

/-- A loop each of whose turns succeeds and stays in the phase. -/
theorem forEach {f : β → Logged ε E Unit} {xs : List β} {post : Except E Unit → φ → Prop}
    (each : ∀ x ∈ xs, Conforms step start (f x) fun result phase => result = .ok () ∧ phase = start)
    (ends : post (.ok ()) start) : Conforms step start (Logged.forEach f xs) post := by
  have all : Conforms step start (Logged.mapEach f xs) fun result phase =>
      (∃ as, result = .ok as) ∧ phase = start := by
    induction xs with
    | nil => exact .pure ⟨⟨[], rfl⟩, rfl⟩
    | cons x xs ih =>
      refine (each x (by simp)).bind ?_ ?_
      · intro _ phase h
        obtain ⟨_, rfl⟩ := h
        refine (ih fun y hy => each y (by simp [hy])).bind ?_ ?_
        · intro as phase h
          obtain ⟨_, rfl⟩ := h
          exact .pure ⟨⟨_, rfl⟩, rfl⟩
        · intro e phase h
          obtain ⟨⟨as, has⟩, _⟩ := h
          cases has
      · intro e phase h
        cases h.1
  refine all.bind ?_ ?_
  · intro as phase h
    obtain ⟨_, rfl⟩ := h
    exact .pure ends
  · intro e phase h
    obtain ⟨⟨as, has⟩, _⟩ := h
    cases has

end Conforms

end IrohNix.Lib
