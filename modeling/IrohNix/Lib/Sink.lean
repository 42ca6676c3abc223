import Mathlib.Data.List.Basic

namespace IrohNix.Lib

/-- What one call of `write` does: it takes some of the buffer, or is interrupted,
or fails. -/
inductive WriteOutcome where
  | accept (n : Nat)
  | interrupted
  | error (e : String)
deriving DecidableEq

/-- A writer: the outcomes of the calls to come, after which it takes every buffer
whole, and the bytes taken so far. -/
structure Sink where
  outcomes : List WriteOutcome
  written : List UInt8
deriving DecidableEq

/-- One call of `write`, and how much of the buffer it took. -/
def Sink.write (s : Sink) (buf : List UInt8) : WriteOutcome × Sink :=
  match s.outcomes with
  | [] => (.accept buf.length, ⟨[], s.written ++ buf⟩)
  | .accept n :: rest => (.accept (min n buf.length), ⟨rest, s.written ++ buf.take n⟩)
  | .interrupted :: rest => (.interrupted, ⟨rest, s.written⟩)
  | .error e :: rest => (.error e, ⟨rest, s.written⟩)

/-- `write_all`: offers what is left until all is taken. -/
def offerAll : List WriteOutcome → List UInt8 → List UInt8 → Except String Unit × Sink
  | [], written, buf => (.ok (), ⟨[], written ++ buf⟩)
  | outcome :: rest, written, buf =>
    if buf = [] then (.ok (), ⟨outcome :: rest, written⟩)
    else match outcome with
      | .accept 0 => (.error "failed to write whole buffer", ⟨rest, written⟩)
      | .accept n => offerAll rest (written ++ buf.take n) (buf.drop n)
      | .interrupted => offerAll rest written buf
      | .error e => (.error e, ⟨rest, written⟩)

/-- Work that writes to a sink and may fail. -/
abbrev Writing (E α : Type) := ExceptT E (StateM Sink) α

namespace Writing

variable {E α : Type}

/-- The result of the work on a sink, and the sink after it. -/
def on (m : Writing E α) (s : Sink) : Except E α × Sink := m.run.run s

def writeAll (wrap : String → E) (buf : List UInt8) : Writing E Unit :=
  ExceptT.mk fun s => ((offerAll s.outcomes s.written buf).1.mapError wrap,
    (offerAll s.outcomes s.written buf).2)

theorem on_bind {β : Type} (m : Writing E α) (f : α → Writing E β) (s : Sink) :
    (m >>= f).on s = match m.on s with
      | (.ok a, t) => (f a).on t
      | (.error e, t) => (.error e, t) := by
  simp only [on, ExceptT.run_bind, StateT.run_bind]
  obtain ⟨result, t⟩ := m.run.run s
  cases result <;> rfl

theorem on_bind_ok {β : Type} (m : Writing E α) (f : α → Writing E β) (s u : Sink) (b : β) :
    (m >>= f).on s = (.ok b, u) ↔ ∃ a t, m.on s = (.ok a, t) ∧ (f a).on t = (.ok b, u) := by
  rw [on_bind]
  obtain ⟨result, t⟩ := m.on s
  cases result <;> simp

theorem on_writeAll (wrap : String → E) (buf : List UInt8) (s : Sink) :
    (writeAll wrap buf).on s = ((offerAll s.outcomes s.written buf).1.mapError wrap,
      (offerAll s.outcomes s.written buf).2) := rfl

end Writing

/-- No call to come fails. -/
def Sink.Accepting (s : Sink) : Prop :=
  ∀ o ∈ s.outcomes, o = .interrupted ∨ ∃ n, o = .accept (n + 1)

/-- What a call says it took is what it took. -/
theorem Sink.write_written {s t : Sink} {buf : List UInt8} {outcome : WriteOutcome}
    (h : s.write buf = (outcome, t)) : t.written = s.written ++
      match outcome with
      | .accept n => buf.take n
      | .interrupted | .error _ => [] := by
  obtain ⟨outcomes, written⟩ := s
  unfold Sink.write at h
  cases outcomes with
  | nil =>
    cases h
    simp
  | cons o rest =>
    cases o with
    | accept n =>
      cases h
      simp only [List.append_cancel_left_eq]
      rw [← List.take_take, List.take_length]
    | interrupted | error =>
      cases h
      simp

theorem Sink.write_le {s t : Sink} {buf : List UInt8} {n : Nat}
    (h : s.write buf = (.accept n, t)) : n ≤ buf.length := by
  obtain ⟨outcomes, written⟩ := s
  unfold Sink.write at h
  cases outcomes with
  | nil =>
    cases h
    exact Nat.le_refl _
  | cons o rest =>
    cases o with
    | accept n =>
      cases h
      exact Nat.min_le_right _ _
    | interrupted | error => cases h

/-- A call uses up an outcome to come, or takes the buffer whole. -/
theorem Sink.write_outcomes {s t : Sink} {buf : List UInt8} {outcome : WriteOutcome}
    (h : s.write buf = (outcome, t)) :
    t.outcomes.length + 1 = s.outcomes.length ∨ outcome = .accept buf.length := by
  obtain ⟨outcomes, written⟩ := s
  unfold Sink.write at h
  cases outcomes with
  | nil =>
    cases h
    exact .inr rfl
  | cons o rest =>
    cases o <;> cases h <;> exact .inl rfl

theorem offerAll_nil (s : Sink) : offerAll s.outcomes s.written [] = (.ok (), s) := by
  obtain ⟨outcomes, written⟩ := s
  cases outcomes <;> simp [offerAll]

/-- Offering a buffer, one call at a time. -/
theorem offerAll_write {s : Sink} {buf : List UInt8} (hbuf : buf ≠ []) :
    offerAll s.outcomes s.written buf = match s.write buf with
      | (.accept 0, t) => (.error "failed to write whole buffer", t)
      | (.accept n, t) => offerAll t.outcomes t.written (buf.drop n)
      | (.interrupted, t) => offerAll t.outcomes t.written buf
      | (.error e, t) => (.error e, t) := by
  obtain ⟨outcomes, written⟩ := s
  obtain ⟨b, rest, rfl⟩ := List.exists_cons_of_ne_nil hbuf
  cases outcomes with
  | nil => simp [Sink.write, offerAll]
  | cons o outcomes =>
    cases o with
    | accept n =>
      cases n with
      | zero => simp [Sink.write, offerAll]
      | succ n =>
        have taken : min (n + 1) (b :: rest).length = min n rest.length + 1 := by
          rw [List.length_cons]
          omega
        have left : (b :: rest).drop (n + 1) = (b :: rest).drop (min n rest.length + 1) := by
          simp only [List.drop_succ_cons, List.drop_eq_drop_iff]
          omega
        rw [offerAll, if_neg hbuf, Sink.write]
        · simp only [taken, left]
        · exact Nat.succ_ne_zero n
    | interrupted => rw [offerAll, if_neg hbuf, Sink.write]
    | error e => rw [offerAll, if_neg hbuf, Sink.write]

/-- What is offered is taken in order and whole, unless a call fails. -/
theorem offerAll_ok {outcomes : List WriteOutcome} {written buf : List UInt8} {t : Sink}
    (h : offerAll outcomes written buf = (.ok (), t)) : t.written = written ++ buf := by
  induction outcomes generalizing written buf with
  | nil =>
    simp only [offerAll, Prod.mk.injEq, true_and] at h
    rw [← h]
  | cons outcome rest ih =>
    unfold offerAll at h
    split at h
    · rename_i hempty
      simp only [Prod.mk.injEq, true_and] at h
      rw [← h, hempty, List.append_nil]
    · split at h
      · simp at h
      · have := ih h
        rwa [List.append_assoc, List.take_append_drop] at this
      · exact ih h
      · simp at h

theorem offerAll_accepting {outcomes : List WriteOutcome} (written buf : List UInt8)
    (h : Sink.Accepting ⟨outcomes, written⟩) :
    ∃ t, offerAll outcomes written buf = (.ok (), t) ∧ t.Accepting := by
  induction outcomes generalizing written buf with
  | nil => exact ⟨_, rfl, by simp [Sink.Accepting]⟩
  | cons outcome rest ih =>
    have later : Sink.Accepting ⟨rest, written⟩ := fun o ho => h o (List.mem_cons_of_mem _ ho)
    unfold offerAll
    by_cases hempty : buf = []
    · rw [if_pos hempty]
      exact ⟨_, rfl, h⟩
    · rw [if_neg hempty]
      rcases h outcome List.mem_cons_self with rfl | ⟨n, rfl⟩
      · exact ih _ _ later
      · exact ih _ _ later

/-- Succeeds only by writing exactly these bytes, never if there are none to write,
and always if there are and no write fails. -/
structure Emits {E : Type} (m : Writing E Unit) (bytes : Option (List UInt8)) : Prop where
  exactly : ∀ s t, m.on s = (.ok (), t) → ∃ b, bytes = some b ∧ t.written = s.written ++ b
  succeeds : ∀ s, s.Accepting → bytes.isSome → ∃ t, m.on s = (.ok (), t) ∧ t.Accepting

namespace Emits

variable {E α : Type}

theorem nothing : Emits (pure () : Writing E Unit) (some []) where
  exactly := by
    intro s t h
    cases h
    exact ⟨[], rfl, by simp⟩
  succeeds := fun s hs _ => ⟨s, rfl, hs⟩

theorem fail (e : E) : Emits (throw e : Writing E Unit) none where
  exactly := fun s t h => by cases h
  succeeds := fun s _ h => by cases h

theorem writeAll (wrap : String → E) (buf : List UInt8) :
    Emits (Writing.writeAll wrap buf) (some buf) where
  exactly := by
    intro s t h
    refine ⟨buf, rfl, ?_⟩
    have taken : offerAll s.outcomes s.written buf = (.ok (), t) := by
      cases ho : offerAll s.outcomes s.written buf with
      | mk result u =>
        cases result <;> simp_all [Writing.on, Writing.writeAll, ExceptT.run, ExceptT.mk,
          StateT.run, Except.mapError]
    exact offerAll_ok taken
  succeeds := by
    intro s hs _
    obtain ⟨t, ht, hacc⟩ := offerAll_accepting s.written buf hs
    refine ⟨t, ?_, hacc⟩
    simp [Writing.on, Writing.writeAll, ExceptT.run, ExceptT.mk, StateT.run, ht, Except.mapError]

/-- One after the other. -/
theorem bind {m k : Writing E Unit} {a b : Option (List UInt8)} (hm : Emits m a)
    (hk : Emits k b) : Emits (m >>= fun _ => k) (a.bind fun x => b.map (x ++ ·)) where
  exactly := by
    intro s u h
    obtain ⟨_, t, hfirst, hthen⟩ := (Writing.on_bind_ok _ _ _ _ _).mp h
    obtain ⟨x, rfl, hx⟩ := hm.exactly s t hfirst
    obtain ⟨y, rfl, hy⟩ := hk.exactly t u hthen
    exact ⟨x ++ y, rfl, by rw [hy, hx, List.append_assoc]⟩
  succeeds := by
    intro s hs hsome
    cases a with
    | none => cases hsome
    | some x =>
      obtain ⟨t, ht, hacc⟩ := hm.succeeds s hs rfl
      obtain ⟨u, hu, hacc⟩ := hk.succeeds t hacc (by simpa using hsome)
      exact ⟨u, (Writing.on_bind_ok _ _ _ _ _).mpr ⟨(), t, ht, hu⟩, hacc⟩

theorem forM {f : α → Writing E Unit} {g : α → Option (List UInt8)} {xs : List α}
    (h : ∀ x ∈ xs, Emits (f x) (g x)) : Emits (xs.forM f) ((xs.mapM g).map List.flatten) := by
  induction xs with
  | nil => exact nothing
  | cons x xs ih =>
    have both := (h x (by simp)).bind (ih fun y hy => h y (by simp [hy]))
    rw [List.mapM_cons]
    change Emits (f x >>= fun _ => xs.forM f) _
    cases hx : g x with
    | none => simpa [hx] using both
    | some b =>
      cases hxs : xs.mapM g with
      | none => simpa [hx, hxs] using both
      | some bs => simpa [hx, hxs] using both

end Emits

end IrohNix.Lib
