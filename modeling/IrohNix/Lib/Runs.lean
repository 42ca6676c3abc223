import IrohNix.Lib.Collect
import Mathlib.Data.List.Induction

namespace IrohNix.Lib

variable {σ ε : Type}

/-- A finite run of a labelled step relation: its labels in order and the state
it ends in. -/
inductive Run (step : σ → ε → σ → Prop) (init : σ) : List ε → σ → Prop where
  | nil : Run step init [] init
  | snoc {h : List ε} {s t : σ} {e : ε} (run : Run step init h s) (last : step s e t) :
      Run step init (h ++ [e]) t

/-- An invariant relating the labels so far to the state holds after every run. -/
theorem Run.invariant {step : σ → ε → σ → Prop} {init : σ} (I : List ε → σ → Prop)
    (start : I [] init)
    (keep : ∀ h s e t, Run step init h s → I h s → step s e t → I (h ++ [e]) t)
    {h : List ε} {s : σ} (run : Run step init h s) : I h s := by
  induction run with
  | nil => exact start
  | snoc run last ih => exact keep _ _ _ _ run ih last

theorem Run.last_step {step : σ → ε → σ → Prop} {init : σ} {h : List ε} {s : σ} {e : ε}
    (run : Run step init (h ++ [e]) s) : ∃ t, Run step init h t ∧ step t e s := by
  generalize hs : h ++ [e] = h' at run
  cases run with
  | nil => simp at hs
  | snoc run last =>
    obtain ⟨rfl, he⟩ := List.append_inj' hs rfl
    cases he
    exact ⟨_, run, last⟩

theorem Run.nil_inv {step : σ → ε → σ → Prop} {init s : σ} (run : Run step init [] s) :
    s = init := by
  generalize hs : ([] : List ε) = h at run
  cases run with
  | nil => rfl
  | snoc => simp at hs

/-- A run goes on where it ended. -/
theorem Run.trans {step : σ → ε → σ → Prop} {init : σ} {h h' : List ε} {s t : σ}
    (run : Run step init h s) (more : Run step s h' t) : Run step init (h ++ h') t := by
  induction more with
  | nil => simpa using run
  | snoc more last ih =>
    rw [← List.append_assoc]
    exact ih.snoc last

/-- A label of a run stands between two states, the first of them reached by what comes
before it. -/
theorem Run.split {step : σ → ε → σ → Prop} {init : σ} {h before after : List ε} {s : σ} {e : ε}
    (run : Run step init h s) (parts : h = before ++ e :: after) :
    ∃ t t', Run step init before t ∧ step t e t' := by
  induction run generalizing after with
  | nil => simp at parts
  | @snoc h s t e' run last ih =>
    cases after using List.reverseRecOn with
    | nil =>
      obtain ⟨rfl, he⟩ := List.append_inj' parts rfl
      cases he
      exact ⟨_, _, run, last⟩
    | append_singleton after d =>
      rw [← List.cons_append, ← List.append_assoc] at parts
      exact ih (List.append_inj' parts rfl).1

/-- Steps that are a partial function are run by folding it. -/
theorem Run.of_foldlM {f : σ → ε → Option σ} {init : σ} (h : List ε) {s : σ}
    (hf : h.foldlM f init = some s) : Run (fun s e t => f s e = some t) init h s := by
  induction h using List.reverseRecOn generalizing s with
  | nil =>
    cases hf
    exact .nil
  | append_singleton h e ih =>
    rw [List.foldlM_append, Option.bind_eq_bind, Option.bind_eq_some_iff] at hf
    obtain ⟨mid, hmid, hlast⟩ := hf
    exact (ih hmid).snoc (by simpa using hlast)

/-- Where a label leaves no choice, the labels of a run say where it ends. -/
theorem Run.unique {step : σ → ε → σ → Prop} {init : σ}
    (functional : ∀ s e t t', step s e t → step s e t' → t = t') {h : List ε} {s s' : σ}
    (run : Run step init h s) (run' : Run step init h s') : s = s' := by
  induction run generalizing s' with
  | nil =>
    generalize hnil : ([] : List ε) = h at run'
    cases run' with
    | nil => rfl
    | snoc => simp at hnil
  | @snoc h s t e run last ih =>
    generalize hsnoc : h ++ [e] = h' at run'
    cases run' with
    | nil => simp at hsnoc
    | snoc run' last' =>
      obtain ⟨rfl, he⟩ := List.append_inj' hsnoc rfl
      cases he
      cases ih run'
      exact functional _ _ _ _ last last'

/-- A run each of whose steps meets a condition on the run so far, the state it
leaves, and its label. -/
inductive RunWhile (ok : List ε → σ → ε → Prop) (step : σ → ε → σ → Prop) (init : σ) :
    List ε → σ → Prop where
  | nil : RunWhile ok step init [] init
  | snoc {h : List ε} {s t : σ} {e : ε} (run : RunWhile ok step init h s) (last : step s e t)
      (meets : ok h s e) : RunWhile ok step init (h ++ [e]) t

theorem RunWhile.run {ok : List ε → σ → ε → Prop} {step : σ → ε → σ → Prop} {init : σ}
    {h : List ε} {s : σ} (r : RunWhile ok step init h s) : Run step init h s := by
  induction r with
  | nil => exact .nil
  | snoc _ last _ ih => exact ih.snoc last

/-- So does every part of it that starts where it starts. -/
theorem RunWhile.of_prefix {ok : List ε → σ → ε → Prop} {step : σ → ε → σ → Prop} {init : σ}
    {h h' : List ε} {s : σ} (r : RunWhile ok step init h s) (part : h' <+: h) :
    ∃ t, RunWhile ok step init h' t := by
  induction r with
  | nil => exact ⟨init, List.prefix_nil.mp part ▸ .nil⟩
  | snoc r last meets ih =>
    rcases List.prefix_concat_iff.mp part with rfl | part
    · exact ⟨_, r.snoc last meets⟩
    · exact ih part

theorem RunWhile.invariant {ok : List ε → σ → ε → Prop} {step : σ → ε → σ → Prop} {init : σ}
    (I : List ε → σ → Prop) (start : I [] init)
    (keep : ∀ h s e t, Run step init h s → I h s → ok h s e → step s e t → I (h ++ [e]) t)
    {h : List ε} {s : σ} (r : RunWhile ok step init h s) : I h s := by
  induction r with
  | nil => exact start
  | snoc r last meets ih => exact keep _ _ _ _ r.run ih meets last

/-- A run whose every step is, seen from above, no step or one step of another relation
is seen as a run of that relation. -/
theorem Run.simulates {σ' ε' : Type} {step : σ → ε → σ → Prop} {init : σ}
    {step' : σ' → ε' → σ' → Prop} {init' : σ'} (view : σ → σ') (seen : ε → Option ε')
    (start : view init = init')
    (keep : ∀ h s e t, Run step init h s → step s e t →
      (seen e = none ∧ view t = view s) ∨ ∃ e', seen e = some e' ∧ step' (view s) e' (view t))
    {h : List ε} {s : σ} (run : Run step init h s) :
    Run step' init' (h.filterMap seen) (view s) := by
  induction run with
  | nil => exact start ▸ .nil
  | snoc run last ih =>
    rw [filterMap_snoc]
    rcases keep _ _ _ _ run last with ⟨hidden, same⟩ | ⟨e', visible, step⟩
    · rw [hidden, Option.toList_none, List.append_nil, same]
      exact ih
    · rw [visible]
      exact ih.snoc step

/-- Some label of the run adds, and none after it drops. -/
def AddedSince (adds drops : ε → Prop) (h : List ε) : Prop :=
  ∃ before e after, h = before ++ e :: after ∧ adds e ∧ ∀ d ∈ after, ¬ drops d

theorem not_addedSince_nil {adds drops : ε → Prop} : ¬ AddedSince adds drops [] := by
  intro h
  obtain ⟨before, e, after, he, _⟩ := h
  simp at he

theorem addedSince_snoc {adds drops : ε → Prop} {h : List ε} {e : ε} :
    AddedSince adds drops (h ++ [e]) ↔ adds e ∨ AddedSince adds drops h ∧ ¬ drops e := by
  constructor
  · intro hs
    obtain ⟨before, a, after, he, ha, keeps⟩ := hs
    cases after using List.reverseRecOn with
    | nil =>
      obtain ⟨_, hlast⟩ := List.append_inj' he rfl
      cases hlast
      exact .inl ha
    | append_singleton after d =>
      rw [← List.cons_append, ← List.append_assoc] at he
      obtain ⟨hh, hlast⟩ := List.append_inj' he rfl
      cases hlast
      refine .inr ⟨⟨before, a, after, hh, ha, fun x hx => keeps x ?_⟩, keeps e ?_⟩
      · exact List.mem_append_left _ hx
      · simp
  · intro hs
    rcases hs with ha | ⟨⟨before, a, after, rfl, ha, keeps⟩, hd⟩
    · exact ⟨h, e, [], rfl, ha, by simp⟩
    · refine ⟨before, a, after ++ [e], by simp, ha, fun x hx => ?_⟩
      rcases List.mem_append.mp hx with hx | hx
      · exact keeps x hx
      · exact List.mem_singleton.mp hx ▸ hd

/-- What a state has, when each label may add it or drop it, it has after a run exactly
if it was added with no drop since. -/
theorem foldl_addedSince {f : σ → ε → σ} (Has : σ → Prop) {adds drops : ε → Prop}
    (one : ∀ s e, Has (f s e) ↔ adds e ∨ Has s ∧ ¬ drops e) {init : σ} (start : ¬ Has init)
    (h : List ε) : Has (h.foldl f init) ↔ AddedSince adds drops h := by
  induction h using List.reverseRecOn with
  | nil => exact iff_of_false start not_addedSince_nil
  | append_singleton h e ih =>
    rw [List.foldl_append, List.foldl_cons, List.foldl_nil, one, ih, addedSince_snoc]

/-- A step that keeps an invariant keeps it over every run. -/
theorem foldl_invariant {f : σ → ε → σ} (I : σ → Prop) (keep : ∀ s e, I s → I (f s e)) {init : σ}
    (start : I init) (h : List ε) : I (h.foldl f init) := by
  induction h generalizing init with
  | nil => exact start
  | cons e h ih => exact ih (keep init e start)

end IrohNix.Lib
