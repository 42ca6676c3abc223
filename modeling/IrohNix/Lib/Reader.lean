import IrohNix.Lib.Bytes

namespace IrohNix.Lib

/-- What is left of a finite stream, and the failure it ends in, unless it just ends. -/
structure Reader (F : Type) where
  rest : List UInt8
  failure : Option F
deriving DecidableEq

/-- How a reading stops short: with an error of its own, or by a panic. -/
inductive Stop (E : Type) where
  | error (e : E)
  | panic (msg : String)
deriving DecidableEq

abbrev Reading (F E α : Type) := StateT (Reader F) (Except (Stop E)) α

namespace Reading

variable {F E α β : Type}

def fail (e : E) : Reading F E α := fun _ => .error (.error e)

def panic (msg : String) : Reading F E α := fun _ => .error (.panic msg)

/-- `read_exact`: so many bytes, unless the stream ends or fails before. -/
def exactly (n : Nat) (ended : E) (failed : F → E) : Reading F E (List UInt8) := fun r =>
  if n ≤ r.rest.length then .ok (r.rest.take n, { r with rest := r.rest.drop n })
  else .error (.error (match r.failure with
    | none => ended
    | some f => failed f))

theorem bind_eq (m : Reading F E α) (f : α → Reading F E β) (r : Reader F) :
    (m >>= f) r = match m r with
      | .error stop => .error stop
      | .ok v => f v.1 v.2 := by
  change Except.bind (m r) _ = _
  cases m r <;> rfl

theorem bind_ok {m : Reading F E α} {f : α → Reading F E β} {r r' : Reader F} {b : β} :
    (m >>= f) r = .ok (b, r') ↔ ∃ a mid, m r = .ok (a, mid) ∧ f a mid = .ok (b, r') := by
  rw [bind_eq]
  cases m r with
  | error stop => simp
  | ok v =>
    obtain ⟨a, mid⟩ := v
    simp

theorem bind_run {m : Reading F E α} {f : α → Reading F E β} {r mid : Reader F} {a : α}
    (h : m r = .ok (a, mid)) : (m >>= f) r = f a mid := by rw [bind_eq, h]

/-- Succeeds exactly on a stream that begins with an encoding of the result, and leaves
what follows it. -/
def Accepts (m : Reading F E α) (Enc : α → List UInt8 → Prop) : Prop :=
  ∀ r a r', m r = .ok (a, r') ↔ ∃ enc, Enc a enc ∧ r = ⟨enc ++ r'.rest, r'.failure⟩

theorem Accepts.run {m : Reading F E α} {Enc : α → List UInt8 → Prop} (h : m.Accepts Enc) {a : α}
    {enc : List UInt8} (ha : Enc a enc) (rest : List UInt8) (failure : Option F) :
    m ⟨enc ++ rest, failure⟩ = .ok (a, ⟨rest, failure⟩) := (h _ _ _).mpr ⟨enc, ha, rfl⟩

theorem Accepts.congr {m : Reading F E α} {Enc Enc' : α → List UInt8 → Prop} (h : m.Accepts Enc)
    (same : ∀ a enc, Enc a enc ↔ Enc' a enc) : m.Accepts Enc' := by
  intro r a r'
  simp only [h r a r', same]

theorem accepts_pure (a : α) : Accepts (pure a : Reading F E α) fun b enc => b = a ∧ enc = [] := by
  intro r b r'
  change Except.ok (a, r) = _ ↔ _
  simp only [Except.ok.injEq, Prod.mk.injEq]
  constructor
  · intro h
    obtain ⟨rfl, rfl⟩ := h
    exact ⟨[], ⟨rfl, rfl⟩, rfl⟩
  · intro h
    obtain ⟨enc, ⟨rfl, rfl⟩, rfl⟩ := h
    exact ⟨rfl, rfl⟩

theorem accepts_exactly (n : Nat) (ended : E) (failed : F → E) :
    Accepts (exactly n ended failed) fun bytes enc => enc = bytes ∧ bytes.length = n := by
  intro r bytes r'
  unfold exactly
  constructor
  · intro h
    split at h
    · rename_i hn
      cases h
      exact ⟨_, ⟨rfl, List.length_take_of_le hn⟩, by simp⟩
    · cases h
  · intro h
    obtain ⟨enc, ⟨rfl, rfl⟩, rfl⟩ := h
    simp

/-- One after the other. -/
theorem Accepts.bind {m : Reading F E α} {f : α → Reading F E β} {Enc : α → List UInt8 → Prop}
    {Enc' : α → β → List UInt8 → Prop} (hm : m.Accepts Enc) (hf : ∀ a, (f a).Accepts (Enc' a)) :
    (m >>= f).Accepts fun b enc => ∃ a x y, Enc a x ∧ Enc' a b y ∧ enc = x ++ y := by
  intro r b r'
  rw [bind_ok]
  constructor
  · intro h
    obtain ⟨a, mid, ha, hb⟩ := h
    obtain ⟨x, hx, rfl⟩ := (hm _ _ _).mp ha
    obtain ⟨y, hy, rfl⟩ := (hf a _ _ _).mp hb
    exact ⟨x ++ y, ⟨a, x, y, hx, hy, rfl⟩, by simp⟩
  · intro h
    obtain ⟨enc, ⟨a, x, y, hx, hy, rfl⟩, rfl⟩ := h
    refine ⟨a, ⟨y ++ r'.rest, r'.failure⟩, ?_, (hf a).run hy _ _⟩
    rw [List.append_assoc]
    exact hm.run hx _ _

theorem accepts_fail (e : E) : Accepts (fail e : Reading F E α) fun _ _ => False := by
  intro r a r'
  simp [fail]

theorem accepts_panic (msg : String) : Accepts (panic msg : Reading F E α) fun _ _ => False := by
  intro r a r'
  simp [panic]

def Panics (m : Reading F E α) (r : Reader F) : Prop := ∃ msg, m r = .error (.panic msg)

/-- A result or an error, not a panic. -/
def Returns (m : Reading F E α) (r : Reader F) : Prop :=
  (∃ a r', m r = .ok (a, r')) ∨ ∃ e, m r = .error (.error e)

theorem returns_iff {m : Reading F E α} {r : Reader F} : m.Returns r ↔ ¬ m.Panics r := by
  unfold Returns Panics
  cases m r with
  | ok v => exact iff_of_true (.inl ⟨v.1, v.2, rfl⟩) (by simp)
  | error stop => cases stop <;> simp

theorem panics_bind {m : Reading F E α} {f : α → Reading F E β} {r : Reader F} :
    (m >>= f).Panics r ↔ m.Panics r ∨ ∃ a r', m r = .ok (a, r') ∧ (f a).Panics r' := by
  unfold Panics
  rw [bind_eq]
  cases m r with
  | error stop => simp
  | ok v =>
    obtain ⟨a, mid⟩ := v
    simp

theorem not_panics_pure (a : α) (r : Reader F) : ¬ (pure a : Reading F E α).Panics r := by
  intro h
  obtain ⟨msg, h⟩ := h
  cases h

theorem not_panics_fail (e : E) (r : Reader F) : ¬ (fail e : Reading F E α).Panics r := by
  intro h
  obtain ⟨msg, h⟩ := h
  cases h

theorem not_panics_exactly (n : Nat) (ended : E) (failed : F → E) (r : Reader F) :
    ¬ (exactly n ended failed).Panics r := by
  intro h
  obtain ⟨msg, h⟩ := h
  unfold exactly at h
  split at h <;> cases h

theorem panics_panic (msg : String) (r : Reader F) : (panic msg : Reading F E α).Panics r :=
  ⟨msg, rfl⟩

/-- Encodings one after another. -/
inductive Sequence (Enc : α → List UInt8 → Prop) : List α → List UInt8 → Prop where
  | nil : Sequence Enc [] []
  | cons {a : α} {as : List α} {enc encs : List UInt8} (head : Enc a enc)
      (tail : Sequence Enc as encs) : Sequence Enc (a :: as) (enc ++ encs)

/-- So many times over. -/
def times (m : Reading F E α) : Nat → Reading F E (List α)
  | 0 => pure []
  | n + 1 => do
    let a ← m
    let as ← times m n
    pure (a :: as)

theorem Accepts.times {m : Reading F E α} {Enc : α → List UInt8 → Prop} (h : m.Accepts Enc)
    (n : Nat) : (m.times n).Accepts fun as enc => as.length = n ∧ Sequence Enc as enc := by
  induction n with
  | zero =>
    apply (accepts_pure []).congr
    intro as enc
    constructor
    · intro h
      obtain ⟨rfl, rfl⟩ := h
      exact ⟨rfl, .nil⟩
    · intro h
      obtain ⟨hlen, h⟩ := h
      cases h with
      | nil => exact ⟨rfl, rfl⟩
      | cons => simp at hlen
  | succ n ih =>
    apply (h.bind fun a => ih.bind fun as => accepts_pure _).congr
    intro as enc
    constructor
    · intro h
      obtain ⟨a, x, _, ha, ⟨tail, y, _, ⟨hlen, htail⟩, ⟨rfl, rfl⟩, rfl⟩, rfl⟩ := h
      rw [List.append_nil]
      exact ⟨congrArg (· + 1) hlen, .cons ha htail⟩
    · intro h
      obtain ⟨hlen, h⟩ := h
      cases h with
      | nil => simp at hlen
      | cons head tail =>
        exact ⟨_, _, _, head, ⟨_, _, [], ⟨by simpa using hlen, tail⟩, ⟨rfl, rfl⟩,
          (List.append_nil _).symm⟩, rfl⟩

/-- A reading repeated panics where it does after fewer than all of them. -/
theorem panics_times {m : Reading F E α} {Enc : α → List UInt8 → Prop} (h : m.Accepts Enc)
    {Bad : List UInt8 → Prop} (hbad : ∀ r, m.Panics r ↔ Bad r.rest) {n : Nat} {r : Reader F} :
    (m.times n).Panics r ↔ ∃ as enc rest, as.length < n ∧ Sequence Enc as enc ∧
      r.rest = enc ++ rest ∧ Bad rest := by
  induction n generalizing r with
  | zero => exact iff_of_false (not_panics_pure _ _) (by simp)
  | succ n ih =>
    have later : ∀ a r', (m.times n >>= fun as => (pure (a :: as) : Reading F E _)).Panics r' ↔
        (m.times n).Panics r' := by
      intro a r'
      simp only [panics_bind, not_panics_pure, and_false, exists_false, or_false]
    rw [times, panics_bind, hbad]
    simp only [later, ih]
    constructor
    · intro hp
      rcases hp with hp | ⟨a, r', ha, as, enc, rest, hlen, hseq, hrest, hp⟩
      · exact ⟨[], [], r.rest, Nat.succ_pos n, .nil, rfl, hp⟩
      · obtain ⟨x, hx, rfl⟩ := (h _ _ _).mp ha
        exact ⟨a :: as, x ++ enc, rest, Nat.succ_lt_succ hlen, .cons hx hseq,
          by simp [hrest], hp⟩
    · intro hp
      obtain ⟨as, enc, rest, hlen, hseq, hrest, hp⟩ := hp
      cases hseq with
      | nil => exact .inl (by simpa [hrest] using hp)
      | @cons a as x encs hx hseq =>
        refine .inr ⟨a, ⟨encs ++ rest, r.failure⟩, ?_, as, encs, rest, Nat.lt_of_succ_lt_succ hlen,
          hseq, rfl, hp⟩
        apply (h _ _ _).mpr
        refine ⟨x, hx, ?_⟩
        obtain ⟨bytes, failure⟩ := r
        simp only at hrest
        simp [hrest]

/-- All its errors have a property. -/
def FailsOnly (P : E → Prop) (m : Reading F E α) : Prop :=
  ∀ r e, m r = .error (.error e) → P e

namespace FailsOnly

variable {P : E → Prop} {m : Reading F E α} {f : α → Reading F E β}

theorem pure (a : α) : FailsOnly P (Pure.pure a : Reading F E α) := by
  intro r e h
  cases h

theorem fail {e : E} (h : P e) : FailsOnly P (Reading.fail e : Reading F E α) := by
  intro r e' h'
  cases h'
  exact h

theorem panic (msg : String) : FailsOnly P (Reading.panic msg : Reading F E α) := by
  intro r e h
  cases h

theorem exactly {n : Nat} {ended : E} {failed : F → E} (h : P ended) (h' : ∀ e, P (failed e)) :
    FailsOnly P (Reading.exactly n ended failed) := by
  intro r e he
  rw [Reading.exactly] at he
  split at he
  · cases he
  · split at he <;> cases he
    · exact h
    · exact h' _

theorem bind (hm : FailsOnly P m) (hf : ∀ a, FailsOnly P (f a)) : FailsOnly P (m >>= f) := by
  intro r e h
  rw [bind_eq] at h
  cases hr : m r with
  | error stop =>
    simp only [hr] at h
    cases h
    exact hm _ _ hr
  | ok taken =>
    simp only [hr] at h
    exact hf _ _ _ h

theorem times (hm : FailsOnly P m) (n : Nat) : FailsOnly P (m.times n) := by
  induction n with
  | zero => exact pure []
  | succ n ih => exact hm.bind fun a => ih.bind fun as => pure (a :: as)

end FailsOnly

end Reading

end IrohNix.Lib
