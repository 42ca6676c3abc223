import Mathlib.Data.List.Basic

namespace IrohNix.Lib

theorem except_bind_ok {ε α β : Type} {x : Except ε α} {f : α → Except ε β} {b : β} :
    x >>= f = .ok b ↔ ∃ a, x = .ok a ∧ f a = .ok b := by
  cases x <;> simp [Bind.bind, Except.bind]

theorem except_ok_bind {ε α β : Type} (a : α) (f : α → Except ε β) :
    (Except.ok a >>= f) = f a := rfl

/-- A computation that may fail, with the effects it had until it returned. -/
structure Logged (ε E α : Type) where
  effects : List ε
  result : Except E α

namespace Logged

variable {ε E α β : Type}

instance : Monad (Logged ε E) where
  pure a := ⟨[], .ok a⟩
  bind m f :=
    match m.result with
    | .ok a => ⟨m.effects ++ (f a).effects, (f a).result⟩
    | .error e => ⟨m.effects, .error e⟩

/-- Has one effect. -/
def perform (effect : ε) : Logged ε E Unit := ⟨[effect], .ok ()⟩

/-- Has no effect but the outcome. -/
def lift (outcome : Except E α) : Logged ε E α := ⟨[], outcome⟩

def fail (e : E) : Logged ε E α := lift (.error e)

/-- The outcome as a value: a caller that handles failures itself. -/
def attempt {E' : Type} (m : Logged ε E α) : Logged ε E' (Except E α) := ⟨m.effects, .ok m.result⟩

/-- One after the other, up to the first that fails. -/
def mapEach (f : β → Logged ε E α) : List β → Logged ε E (List α)
  | [] => pure []
  | x :: xs => do
    let a ← f x
    let as ← mapEach f xs
    pure (a :: as)

def forEach (f : β → Logged ε E Unit) (xs : List β) : Logged ε E Unit := do
  let _ ← mapEach f xs

@[simp] theorem effects_pure (a : α) : (pure a : Logged ε E α).effects = [] := rfl
@[simp] theorem result_pure (a : α) : (pure a : Logged ε E α).result = .ok a := rfl
@[simp] theorem effects_perform (effect : ε) :
    (perform effect : Logged ε E Unit).effects = [effect] := rfl
@[simp] theorem result_perform (effect : ε) :
    (perform effect : Logged ε E Unit).result = .ok () := rfl
@[simp] theorem effects_lift (outcome : Except E α) :
    (lift outcome : Logged ε E α).effects = [] := rfl
@[simp] theorem result_lift (outcome : Except E α) :
    (lift outcome : Logged ε E α).result = outcome := rfl
@[simp] theorem effects_fail (e : E) : (fail e : Logged ε E α).effects = [] := rfl
@[simp] theorem result_fail (e : E) : (fail e : Logged ε E α).result = .error e := rfl
@[simp] theorem effects_attempt {E' : Type} (m : Logged ε E α) :
    (m.attempt : Logged ε E' (Except E α)).effects = m.effects := rfl
@[simp] theorem result_attempt {E' : Type} (m : Logged ε E α) :
    (m.attempt : Logged ε E' (Except E α)).result = .ok m.result := rfl

theorem pure_bind (a : α) (f : α → Logged ε E β) : (pure a >>= f) = f a := rfl

/-- What has succeeded is followed by the rest; what has failed is not. -/
theorem did_bind (effects : List ε) (a : α) (f : α → Logged ε E β) :
    ((⟨effects, .ok a⟩ : Logged ε E α) >>= f) = ⟨effects ++ (f a).effects, (f a).result⟩ := rfl

theorem bind_pure_map (m : Logged ε E α) (f : α → β) :
    (m >>= fun a => pure (f a)) = ⟨m.effects, m.result.map f⟩ := by
  obtain ⟨effects, result⟩ := m
  cases result with
  | ok a => simp [did_bind, Except.map]
  | error e => rfl

@[simp] theorem lift_ok_bind (a : α) (f : α → Logged ε E β) : lift (.ok a) >>= f = f a := rfl

@[simp] theorem lift_error_bind (e : E) (f : α → Logged ε E β) :
    (lift (.error e) : Logged ε E α) >>= f = fail e := rfl

@[simp] theorem result_perform_bind (effect : ε) (f : Unit → Logged ε E β) :
    (perform effect >>= f).result = (f ()).result := rfl

@[simp] theorem effects_perform_bind (effect : ε) (f : Unit → Logged ε E β) :
    (perform effect >>= f).effects = effect :: (f ()).effects := rfl

/-- What is done in sequence: what the first does, and what the second does with
the value the first returns. -/
@[simp] theorem mem_bind (m : Logged ε E α) (f : α → Logged ε E β) (e : ε) :
    e ∈ (m >>= f).effects ↔ e ∈ m.effects ∨ ∃ a, m.result = .ok a ∧ e ∈ (f a).effects := by
  obtain ⟨effects, result⟩ := m
  cases result <;> simp [Bind.bind]

@[simp] theorem bind_ok (m : Logged ε E α) (f : α → Logged ε E β) (b : β) :
    (m >>= f).result = .ok b ↔ ∃ a, m.result = .ok a ∧ (f a).result = .ok b := by
  obtain ⟨effects, result⟩ := m
  cases result <;> simp [Bind.bind]

/-- What follows a step that succeeds comes after its effects. -/
theorem effects_bind {m : Logged ε E α} {a : α} (h : m.result = .ok a) (f : α → Logged ε E β) :
    (m >>= f).effects = m.effects ++ (f a).effects := by
  obtain ⟨effects, result⟩ := m
  cases h
  rfl

/-- Nothing follows a step that fails. -/
theorem effects_bind_error {m : Logged ε E α} {e : E} (h : m.result = .error e)
    (f : α → Logged ε E β) : (m >>= f).effects = m.effects := by
  obtain ⟨effects, result⟩ := m
  cases h
  rfl

/-- A loop does what its body does on an element all of whose predecessors succeed. -/
theorem mem_mapEach {f : β → Logged ε E α} {xs : List β} {e : ε} :
    e ∈ (mapEach f xs).effects ↔ ∃ (i : Nat) (hi : i < xs.length),
      (∀ (j : Nat) (hj : j < i), ∃ a, (f xs[j]).result = .ok a) ∧ e ∈ (f xs[i]).effects := by
  induction xs with
  | nil => simp [mapEach]
  | cons y ys ih =>
    simp only [mapEach, mem_bind, effects_pure, List.not_mem_nil, and_false, exists_false, or_false,
      ih]
    constructor
    · intro h
      rcases h with hy | ⟨a, hok, i, hi, hbefore, he⟩
      · exact ⟨0, by simp, by simp, hy⟩
      · refine ⟨i + 1, by simpa using hi, fun j hj => ?_, he⟩
        cases j with
        | zero => exact ⟨a, hok⟩
        | succ j => exact hbefore j (by omega)
    · intro h
      obtain ⟨i, hi, hbefore, he⟩ := h
      cases i with
      | zero => exact .inl he
      | succ i =>
        obtain ⟨a, hok⟩ := hbefore 0 (by omega)
        refine .inr ⟨a, hok, i, by simpa using hi, fun j hj => ?_, he⟩
        exact hbefore (j + 1) (by omega)

theorem mapEach_ok {f : β → Logged ε E α} {xs : List β}
    (h : ∀ x ∈ xs, ∃ a, (f x).result = .ok a) : ∃ as, (mapEach f xs).result = .ok as := by
  induction xs with
  | nil => exact ⟨[], rfl⟩
  | cons x xs ih =>
    obtain ⟨a, ha⟩ := h x (by simp)
    obtain ⟨as, has⟩ := ih (fun y hy => h y (by simp [hy]))
    refine ⟨a :: as, ?_⟩
    simp only [mapEach, bind_ok]
    exact ⟨a, ha, as, has, rfl⟩

/-- A loop that gets through has got through with every element. -/
theorem ok_of_mapEach {f : β → Logged ε E α} {xs : List β} {as : List α}
    (h : (mapEach f xs).result = .ok as) : ∀ x ∈ xs, ∃ a, (f x).result = .ok a := by
  induction xs generalizing as with
  | nil => simp
  | cons y ys ih =>
    simp only [mapEach, bind_ok] at h
    obtain ⟨a, hy, rest, hrest, _⟩ := h
    intro x hx
    rcases List.mem_cons.mp hx with rfl | hx
    · exact ⟨a, hy⟩
    · exact ih hrest x hx

theorem ok_of_forEach {f : β → Logged ε E Unit} {xs : List β}
    (h : (forEach f xs).result = .ok ()) : ∀ x ∈ xs, (f x).result = .ok () := by
  intro x hx
  rw [forEach, bind_ok] at h
  obtain ⟨as, has, _⟩ := h
  obtain ⟨a, ha⟩ := ok_of_mapEach has x hx
  exact ha

/-- The same for loops that count. -/
theorem mem_mapEach_zipIdx {f : β × Nat → Logged ε E α} {xs : List β} {e : ε} :
    e ∈ (mapEach f xs.zipIdx).effects ↔ ∃ (i : Nat) (hi : i < xs.length),
      (∀ (j : Nat) (hj : j < i), ∃ a, (f (xs[j], j)).result = .ok a) ∧
      e ∈ (f (xs[i], i)).effects := by
  simp [mem_mapEach]

theorem mem_forEach_zipIdx {f : β × Nat → Logged ε E Unit} {xs : List β} {e : ε} :
    e ∈ (forEach f xs.zipIdx).effects ↔ ∃ (i : Nat) (hi : i < xs.length),
      (∀ (j : Nat) (hj : j < i), (f (xs[j], j)).result = .ok ()) ∧ e ∈ (f (xs[i], i)).effects := by
  simp [forEach, mem_mapEach, Unique.exists_iff]

theorem forEach_ok {f : β → Logged ε E Unit} {xs : List β}
    (h : ∀ x ∈ xs, (f x).result = .ok ()) : (forEach f xs).result = .ok () := by
  obtain ⟨as, has⟩ := mapEach_ok (fun x hx => ⟨(), h x hx⟩)
  rw [forEach, bind_ok]
  exact ⟨as, has, rfl⟩

/-- One effect for each element, in order. -/
theorem effects_forEach_perform (effect : β → ε) (xs : List β) :
    (forEach (fun x => perform (effect x)) xs : Logged ε E Unit).effects = xs.map effect := by
  have each : ∀ xs : List β, ∃ as, (mapEach (fun x => perform (effect x)) xs : Logged ε E _).result =
      .ok as ∧ (mapEach (fun x => perform (effect x)) xs : Logged ε E _).effects =
        xs.map effect := by
    intro xs
    induction xs with
    | nil => exact ⟨[], rfl, rfl⟩
    | cons x xs ih =>
      obtain ⟨as, ok, effects⟩ := ih
      refine ⟨() :: as, ?_, ?_⟩
      · simp [mapEach, ok]
      · rw [mapEach, effects_bind rfl, effects_bind ok, effects]
        simp
  obtain ⟨as, ok, effects⟩ := each xs
  rw [forEach, effects_bind ok, effects, effects_pure, List.append_nil]

/-- It succeeds, and what its effects hand over makes up the whole. -/
def Yields {γ : Type} (view : ε → List γ) (m : Logged ε E Unit) (whole : List γ) : Prop :=
  m.result = .ok () ∧ m.effects.flatMap view = whole

namespace Yields

variable {γ : Type} {view : ε → List γ}

theorem pure : Yields view (pure () : Logged ε E Unit) [] := ⟨rfl, rfl⟩

theorem perform (effect : ε) : Yields view (perform effect : Logged ε E Unit) (view effect) :=
  ⟨rfl, by simp⟩

/-- After a step that returns a value. -/
theorem after {m : Logged ε E α} {f : α → Logged ε E Unit} {a : α} {x y : List γ}
    (hm : m.result = .ok a) (hx : m.effects.flatMap view = x) (hf : (f a).Yields view y) :
    (m >>= f).Yields view (x ++ y) := by
  obtain ⟨effects, result⟩ := m
  obtain ⟨hok, rfl⟩ := hf
  cases hm
  exact ⟨hok, by simp [Bind.bind, ← hx]⟩

theorem bind {m k : Logged ε E Unit} {x y : List γ} (hm : m.Yields view x) (hk : k.Yields view y) :
    (m >>= fun _ => k).Yields view (x ++ y) := after hm.1 hm.2 hk

theorem mapEach {f : α → Logged ε E Unit} {g : α → List γ} {xs : List α}
    (h : ∀ x ∈ xs, (f x).Yields view (g x)) : ∃ as, (mapEach f xs).result = .ok as ∧
      (mapEach f xs).effects.flatMap view = xs.flatMap g := by
  induction xs with
  | nil => exact ⟨[], rfl, rfl⟩
  | cons x xs ih =>
    obtain ⟨hx, hwhole⟩ := h x (by simp)
    obtain ⟨as, has, hrest⟩ := ih fun y hy => h y (by simp [hy])
    refine ⟨() :: as, ?_, ?_⟩
    · simp [Logged.mapEach, hx, has]
    · simp [Logged.mapEach, Bind.bind, hx, has, hwhole, hrest]

theorem forEach {f : α → Logged ε E Unit} {g : α → List γ} {xs : List α}
    (h : ∀ x ∈ xs, (f x).Yields view (g x)) : (forEach f xs).Yields view (xs.flatMap g) := by
  obtain ⟨as, has, hwhole⟩ := mapEach h
  refine ⟨forEach_ok fun x hx => (h x hx).1, ?_⟩
  simp [Logged.forEach, Bind.bind, has, hwhole]

end Yields

theorem mapEach_map {γ : Type} (f : β → Logged ε E α) (g : γ → β) (xs : List γ) :
    mapEach f (xs.map g) = mapEach (fun x => f (g x)) xs := by
  induction xs with
  | nil => rfl
  | cons x xs ih => simp only [List.map_cons, mapEach, ih]

theorem forEach_map {γ : Type} (f : β → Logged ε E Unit) (g : γ → β) (xs : List γ) :
    forEach f (xs.map g) = forEach (fun x => f (g x)) xs := by
  rw [forEach, forEach, mapEach_map]

/-- All effects have a property. -/
def Only (P : ε → Prop) (m : Logged ε E α) : Prop := ∀ e ∈ m.effects, P e

theorem Only.bind {P : ε → Prop} {m : Logged ε E α} {f : α → Logged ε E β} (hm : m.Only P)
    (hf : ∀ a, m.result = .ok a → (f a).Only P) : (m >>= f).Only P := by
  intro e he
  rcases (mem_bind m f e).mp he with he | ⟨a, ha, he⟩
  · exact hm e he
  · exact hf a ha e he

end Logged

end IrohNix.Lib
