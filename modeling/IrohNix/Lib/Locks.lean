import IrohNix.Lib.Runs
import Mathlib.Data.List.Nodup
import Mathlib.Data.Set.Insert
import Mathlib.Logic.Function.Basic

namespace IrohNix.Lib

/-- What a call does to the locks, one operation at a time. -/
inductive LockOp (κ : Type) where
  | acquire (lock : κ)
  | release (lock : κ)
deriving DecidableEq

/-- Threads with the operations that are left of the calls they are in, and the locks
with the threads that hold them. -/
structure Locks (ι κ : Type) where
  script : ι → List (LockOp κ)
  holder : κ → Option ι

/-- A thread enters a call, or does the next operation of the call it is in. -/
inductive ThreadEvent (ι C : Type) where
  | call (i : ι) (c : C)
  | next (i : ι)
deriving DecidableEq

namespace Locks

variable {ι κ C : Type}

/-- No thread is in a call, and no lock is held. -/
def idle : Locks ι κ := ⟨fun _ => [], fun _ => none⟩

/-- The thread is about to acquire the lock. -/
def WaitsFor (s : Locks ι κ) (i : ι) (lock : κ) : Prop :=
  ∃ rest, s.script i = .acquire lock :: rest

/-- Each of these threads waits for a lock that another of them holds. -/
structure Deadlocked (s : Locks ι κ) (threads : Set ι) : Prop where
  nonempty : threads.Nonempty
  waits : ∀ i ∈ threads, ∃ lock j, s.WaitsFor i lock ∧ s.holder lock = some j ∧ j ≠ i ∧ j ∈ threads

theorem WaitsFor.unique {s : Locks ι κ} {i : ι} {a b : κ} (ha : s.WaitsFor i a)
    (hb : s.WaitsFor i b) : a = b := by
  obtain ⟨rest, ha⟩ := ha
  obtain ⟨rest', hb⟩ := hb
  rw [ha] at hb
  cases hb
  rfl

/-- If every thread waits for a lock above all those it holds, no threads wait for
each other: the locks waited for would climb past every bound. -/
theorem not_deadlocked {s : Locks ι κ} (rank : κ → Nat) (bound : Nat)
    (bounded : ∀ lock, rank lock < bound)
    (climbs : ∀ i lock held, s.WaitsFor i lock → s.holder held = some i → rank held < rank lock)
    (threads : Set ι) : ¬ s.Deadlocked threads := by
  intro dead
  have descend : ∀ n i lock, i ∈ threads → s.WaitsFor i lock → bound ≤ rank lock + n → False := by
    intro n
    induction n with
    | zero =>
      intro i lock _ _ hn
      have := bounded lock
      omega
    | succ n ih =>
      intro i lock hi hw hn
      obtain ⟨lock', j, hw', hheld, _, hj⟩ := dead.waits i hi
      cases hw.unique hw'
      obtain ⟨above, _, hj', _⟩ := dead.waits j hj
      have := climbs j above lock hj' hheld
      exact ih j above hj hj' (by omega)
  obtain ⟨i, hi⟩ := dead.nonempty
  obtain ⟨lock, _, hw, _⟩ := dead.waits i hi
  exact descend bound i lock hi hw (by omega)

section Scripts

variable [DecidableEq κ]

/-- What is left of a call releases the locks it holds and no others, and acquires a
lock only under locks that may be held then. -/
def Nested (under : κ → κ → Prop) : List κ → List (LockOp κ) → Prop
  | held, [] => held = []
  | held, .acquire lock :: rest => (∀ m ∈ held, under m lock) ∧ Nested under (lock :: held) rest
  | held, .release lock :: rest => lock ∈ held ∧ Nested under (held.erase lock) rest

instance decidableNested (under : κ → κ → Prop) [DecidableRel under] :
    (held : List κ) → (script : List (LockOp κ)) → Decidable (Nested under held script)
  | held, [] => inferInstanceAs (Decidable (held = []))
  | held, .acquire lock :: rest =>
    have := decidableNested under (lock :: held) rest
    inferInstanceAs (Decidable ((∀ m ∈ held, under m lock) ∧ Nested under (lock :: held) rest))
  | held, .release lock :: rest =>
    have := decidableNested under (held.erase lock) rest
    inferInstanceAs (Decidable (lock ∈ held ∧ Nested under (held.erase lock) rest))

/-- Every thread is within a call, and holds what that call has yet to release. -/
structure Orderly (under : κ → κ → Prop) (scripts : C → List (LockOp κ)) (s : Locks ι κ) :
    Prop where
  within : ∀ i, s.script i = [] ∨ ∃ c, s.script i <:+ scripts c
  nested : ∀ i, ∃ held : List κ, held.Nodup ∧ (∀ lock, lock ∈ held ↔ s.holder lock = some i) ∧
    Nested under held (s.script i)

namespace Orderly

variable {under : κ → κ → Prop} {scripts : C → List (LockOp κ)} {s : Locks ι κ}

theorem idle : Orderly under scripts (idle : Locks ι κ) where
  within := fun _ => .inl rfl
  nested := fun _ => ⟨[], List.nodup_nil, by simp [Locks.idle], rfl⟩

theorem holds_under (h : s.Orderly under scripts) {i : ι} {lock held : κ}
    (waits : s.WaitsFor i lock) (holds : s.holder held = some i) : under held lock := by
  obtain ⟨locks, _, hmem, nested⟩ := h.nested i
  obtain ⟨rest, hs⟩ := waits
  rw [hs] at nested
  exact nested.1 held ((hmem held).mpr holds)

theorem free_when_idle (h : s.Orderly under scripts) {i : ι} (done : s.script i = []) (lock : κ) :
    s.holder lock ≠ some i := by
  obtain ⟨locks, _, hmem, nested⟩ := h.nested i
  rw [done] at nested
  cases nested
  intro holds
  simpa using (hmem lock).mpr holds

end Orderly

end Scripts

variable [DecidableEq ι] [DecidableEq κ]

/-- The next operation of a thread. It acquires a lock only while nobody holds it. -/
def advance (s : Locks ι κ) (i : ι) : Option (Locks ι κ) :=
  match s.script i with
  | [] => none
  | .acquire lock :: rest =>
    if s.holder lock = none then
      some ⟨Function.update s.script i rest, Function.update s.holder lock (some i)⟩
    else none
  | .release lock :: rest =>
    some ⟨Function.update s.script i rest, Function.update s.holder lock none⟩

/-- A thread that is in no call enters one. -/
def begin (scripts : C → List (LockOp κ)) (s : Locks ι κ) (i : ι) (c : C) : Option (Locks ι κ) :=
  if s.script i = [] then some ⟨Function.update s.script i (scripts c), s.holder⟩ else none

def step (scripts : C → List (LockOp κ)) (s : Locks ι κ) : ThreadEvent ι C → Option (Locks ι κ)
  | .call i c => s.begin scripts i c
  | .next i => s.advance i

/-- The interleavings of calls with these scripts. -/
def Step (scripts : C → List (LockOp κ)) (s : Locks ι κ) (e : ThreadEvent ι C) (t : Locks ι κ) :
    Prop := s.step scripts e = some t

theorem advance_cases {s t : Locks ι κ} {i : ι} (h : s.advance i = some t) :
    (∃ lock rest, s.script i = .acquire lock :: rest ∧ s.holder lock = none ∧
      t = ⟨Function.update s.script i rest, Function.update s.holder lock (some i)⟩) ∨
    (∃ lock rest, s.script i = .release lock :: rest ∧
      t = ⟨Function.update s.script i rest, Function.update s.holder lock none⟩) := by
  rw [advance] at h
  split at h
  · cases h
  · rename_i lock rest hop
    split at h
    · rename_i free
      cases h
      exact .inl ⟨lock, rest, hop, free, rfl⟩
    · cases h
  · rename_i lock rest hop
    cases h
    exact .inr ⟨lock, rest, hop, rfl⟩

omit [DecidableEq κ] in
theorem begin_cases {scripts : C → List (LockOp κ)} {s t : Locks ι κ} {i : ι} {c : C}
    (h : s.begin scripts i c = some t) :
    s.script i = [] ∧ t = ⟨Function.update s.script i (scripts c), s.holder⟩ := by
  rw [begin] at h
  split at h
  · rename_i done
    cases h
    exact ⟨done, rfl⟩
  · cases h

/-- What another thread holds or waits for after an operation, it did before. -/
theorem advance_other {s t : Locks ι κ} {i j : ι} (h : s.advance i = some t) (other : j ≠ i) :
    (∀ lock, t.holder lock = some j → s.holder lock = some j) ∧
      ∀ lock, t.WaitsFor j lock → s.WaitsFor j lock := by
  rcases advance_cases h with ⟨lock, rest, _, _, rfl⟩ | ⟨lock, rest, _, rfl⟩
  · refine ⟨fun l hl => ?_, fun l hl => by simpa [WaitsFor, other] using hl⟩
    by_cases same : l = lock
    · simp [same, Ne.symm other] at hl
    · simpa [same] using hl
  · refine ⟨fun l hl => ?_, fun l hl => by simpa [WaitsFor, other] using hl⟩
    by_cases same : l = lock
    · simp [same] at hl
    · simpa [same] using hl

/-- An operation before an acquisition. -/
theorem advance_waits {s t : Locks ι κ} {i : ι} {lock : κ} (h : s.advance i = some t)
    (waits : t.WaitsFor i lock) :
    ∃ op rest, s.script i = op :: .acquire lock :: rest ∧ t.script i = .acquire lock :: rest := by
  obtain ⟨rest, hrest⟩ := waits
  rcases advance_cases h with ⟨_, after, hop, _, rfl⟩ | ⟨_, after, hop, rfl⟩
  · simp only [Function.update_self] at hrest
    subst hrest
    exact ⟨_, rest, hop, by simp⟩
  · simp only [Function.update_self] at hrest
    subst hrest
    exact ⟨_, rest, hop, by simp⟩

namespace Orderly

variable {under : κ → κ → Prop} {scripts : C → List (LockOp κ)} {s t : Locks ι κ}

/-- One thread moves on: the locks of the others stay theirs. -/
theorem move (h : s.Orderly under scripts) {i : ι} {rest : List (LockOp κ)}
    {holder : κ → Option ι} (within : ∃ c, rest <:+ scripts c)
    (others : ∀ j ≠ i, ∀ lock, holder lock = some j ↔ s.holder lock = some j)
    (own : ∃ held : List κ, held.Nodup ∧ (∀ lock, lock ∈ held ↔ holder lock = some i) ∧
      Nested under held rest) :
    Orderly under scripts (⟨Function.update s.script i rest, holder⟩ : Locks ι κ) := by
  constructor
  · intro j
    by_cases hj : j = i
    · subst hj
      exact .inr (by simpa using within)
    · simpa [hj] using h.within j
  · intro j
    by_cases hj : j = i
    · subst hj
      simpa using own
    · simpa [hj, others j hj] using h.nested j

omit [DecidableEq ι] in
theorem within_call (h : s.Orderly under scripts) {i : ι} {op : LockOp κ} {rest : List (LockOp κ)}
    (hop : s.script i = op :: rest) : ∃ c, op :: rest <:+ scripts c := by
  rcases h.within i with hi | ⟨c, hc⟩
  · rw [hop] at hi
    cases hi
  · exact ⟨c, hop ▸ hc⟩

omit [DecidableEq ι] in
theorem within_tail (h : s.Orderly under scripts) {i : ι} {op : LockOp κ} {rest : List (LockOp κ)}
    (hop : s.script i = op :: rest) : ∃ c, rest <:+ scripts c := by
  obtain ⟨c, hc⟩ := h.within_call hop
  exact ⟨c, (List.suffix_cons op rest).trans hc⟩

theorem advance (h : s.Orderly under scripts) {i : ι} (hs : s.advance i = some t) :
    t.Orderly under scripts := by
  obtain ⟨held, nodup, hmem, nested⟩ := h.nested i
  rcases advance_cases hs with ⟨lock, rest, hop, free, rfl⟩ | ⟨lock, rest, hop, rfl⟩
  · rw [hop] at nested
    refine h.move (h.within_tail hop) ?_ ⟨lock :: held, ?_, ?_, nested.2⟩
    · intro j hj l
      by_cases hl : l = lock
      · subst hl
        simp [free, Ne.symm hj]
      · simp [hl]
    · refine List.nodup_cons.mpr ⟨?_, nodup⟩
      rw [hmem, free]
      simp
    · intro l
      by_cases hl : l = lock
      · simp [hl]
      · simp [hl, hmem]
  · rw [hop] at nested
    have holds : s.holder lock = some i := (hmem lock).mp nested.1
    refine h.move (h.within_tail hop) ?_ ⟨held.erase lock, nodup.erase lock, ?_, nested.2⟩
    · intro j hj l
      by_cases hl : l = lock
      · subst hl
        simp [holds, Ne.symm hj]
      · simp [hl]
    · intro l
      rw [nodup.mem_erase_iff]
      by_cases hl : l = lock
      · simp [hl]
      · simp [hl, hmem]

theorem step (h : s.Orderly under scripts) (all : ∀ c, Nested under [] (scripts c))
    {e : ThreadEvent ι C} (hs : s.Step scripts e t) : t.Orderly under scripts := by
  cases e with
  | next i => exact h.advance hs
  | call i c =>
    obtain ⟨done, rfl⟩ := begin_cases hs
    refine h.move ⟨c, List.suffix_refl _⟩ (fun _ _ _ => .rfl) ⟨[], List.nodup_nil, ?_, all c⟩
    intro lock
    simpa using h.free_when_idle done lock

/-- It holds in every interleaving of calls that nest their locks. -/
theorem run (all : ∀ c, Nested under [] (scripts c)) {h : List (ThreadEvent ι C)}
    (run : Run (Step scripts) Locks.idle h s) : s.Orderly under scripts :=
  run.invariant (fun _ s => s.Orderly under scripts) idle fun _ _ _ _ _ hs last => hs.step all last

end Orderly

end Locks

end IrohNix.Lib
