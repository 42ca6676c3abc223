import IrohNix.Lib.Effects

namespace IrohNix.Lib

variable {σ ε E α : Type}

/-- Statements over a stored state, each committed on its own. One that fails
changes nothing. -/
structure Statements (σ ε E : Type) where
  run : ε → σ → Except E σ

namespace Statements

variable (sys : Statements σ ε E)

/-- What is stored after a statement. -/
def apply (state : σ) (st : ε) : σ :=
  match sys.run st state with
  | .ok next => next
  | .error _ => state

/-- Runs one statement in the middle of a program, which stops if it fails. -/
def exec (st : ε) (state : σ) : Logged ε E σ := do
  let next ← Logged.lift (sys.run st state)
  Logged.perform st
  pure next

/-- What is stored when the program stops after the first `k` statements. -/
def stoppedAfter (state : σ) (m : Logged ε E α) (k : Nat) : σ :=
  (m.effects.take k).foldl sys.apply state

/-- The program runs through a script, and hands on what is stored after it. -/
structure Commits (state : σ) (m : Logged ε E σ) (script : List ε) : Prop where
  effects : m.effects = script
  result : m.result = .ok (script.foldl sys.apply state)

variable {sys}

theorem apply_ok {st : ε} {state next : σ} (h : sys.run st state = .ok next) :
    sys.apply state st = next := by
  rw [apply, h]

/-- What every statement keeps, every script keeps. -/
theorem keeps_of_apply {P : σ → Prop} (step : ∀ state st, P state → P (sys.apply state st))
    (script : List ε) {state : σ} (h : P state) : P (script.foldl sys.apply state) := by
  induction script generalizing state with
  | nil => exact h
  | cons st script ih => exact ih (step state st h)

namespace Commits

theorem pure (state : σ) : sys.Commits state (pure state) [] := ⟨rfl, rfl⟩

theorem exec {st : ε} {state : σ} (h : ∃ next, sys.run st state = .ok next) :
    sys.Commits state (sys.exec st state) [st] := by
  obtain ⟨next, hn⟩ := h
  constructor
  · simp [Statements.exec, hn, Bind.bind, Logged.lift, Logged.perform]
  · simp [Statements.exec, hn, apply_ok hn]

/-- A program that goes on from where another stopped. -/
theorem bind {state : σ} {m : Logged ε E σ} {f : σ → Logged ε E σ} {xs ys : List ε}
    (hm : sys.Commits state m xs)
    (hf : sys.Commits (xs.foldl sys.apply state) (f (xs.foldl sys.apply state)) ys) :
    sys.Commits state (m >>= f) (xs ++ ys) := by
  obtain ⟨effects, result⟩ := m
  obtain ⟨heffects, hresult⟩ := hm
  simp only at heffects hresult
  subst heffects hresult
  constructor
  · simp [Bind.bind, hf.effects]
  · simp [hf.result]

/-- A program that starts with one statement. -/
theorem step {st : ε} {state : σ} {f : σ → Logged ε E σ} {script : List ε}
    (h : ∃ next, sys.run st state = .ok next)
    (hf : sys.Commits (sys.apply state st) (f (sys.apply state st)) script) :
    sys.Commits state (sys.exec st state >>= f) (st :: script) := bind (exec h) hf

/-- A loop whose body runs through the script of each element, while the stored
state keeps what the body needs. -/
theorem foldlM {β : Type} {P : σ → Prop} {f : σ → β → Logged ε E σ} {script : β → List ε}
    (keeps : ∀ state st, P state → P (sys.apply state st))
    (body : ∀ state x, P state → sys.Commits state (f state x) (script x)) (xs : List β) {state : σ}
    (h : P state) : sys.Commits state (xs.foldlM f state) (xs.flatMap script) := by
  induction xs generalizing state with
  | nil => exact pure state
  | cons x xs ih =>
    rw [List.foldlM_cons, List.flatMap_cons]
    exact (body state x h).bind (ih (keeps_of_apply keeps (script x) h))

theorem stoppedAfter {state : σ} {m : Logged ε E σ} {script : List ε}
    (h : sys.Commits state m script) (k : Nat) :
    sys.stoppedAfter state m k = (script.take k).foldl sys.apply state := by
  rw [Statements.stoppedAfter, h.effects]

end Commits

end Statements

end IrohNix.Lib
