import IrohNix.Transfer.RetryLoop
import Mathlib.Data.List.Induction

namespace IrohNix.Transfer.RetryLoop
open IrohNix.Lib

variable {α P : Type}

/-- How `with_retry_providers` leaves its loop. -/
inductive ProvidersExit (α : Type) where
  | returned (result : α)
  | noProviders
  | lastError (e : Error)
  | allFailed

def ProvidersExit.result : ProvidersExit α → Except Error α
  | .returned result => .ok result
  | .noProviders => .error (.protocol "no providers available")
  | .lastError e => .error e
  | .allFailed => .error (.protocol "all providers failed")

/-- The error carried between providers, and the providers contacted so far, with their
positions, once for each attempt. -/
structure Contacting (P : Type) where
  lastError : Option Error
  contacts : List (P × Nat)

/-- The retry count is reduced where there are several providers. -/
def providerConfig (config : RetryConfig) (providers : List P) : RetryConfig :=
  if providers.length > 1 then ⟨min config.maxRetries 2⟩ else config

/-- The loop over providers, each with the outcomes its position would give. -/
def tryProviders (config : RetryConfig) (backoff : UInt32 → Nat)
    (outcomes : Nat → Nat → Except Error α) :
    List (P × Nat) → Contacting P → ProvidersExit α × Contacting P
  | [], s =>
    match s.lastError with
    | some e => (.lastError e, s)
    | none => (.allFailed, s)
  | provider :: rest, s =>
    let run := withRetryStats config backoff false (outcomes provider.2)
    let s := { s with contacts := s.contacts ++ List.replicate run.2.invocations provider }
    match run.1.result with
    | .ok result => (.returned result, s)
    | .error e => tryProviders config backoff outcomes rest { s with lastError := some e }

def withRetryProviders (config : RetryConfig) (backoff : UInt32 → Nat) (providers : List P)
    (outcomes : Nat → Nat → Except Error α) : ProvidersExit α × Contacting P :=
  if providers.isEmpty then (.noProviders, ⟨none, []⟩)
  else tryProviders (providerConfig config providers) backoff outcomes providers.zipIdx ⟨none, []⟩

/-- The attempts made on a provider at most. -/
def budget (config : RetryConfig) (providers : List P) : Nat :=
  if providers.length > 1 then min config.maxRetries.toNat 2 + 1 else config.maxRetries.toNat + 1

/-- Some attempt within the budget succeeds, and all before it fail with an error that
is retried. -/
def SucceedsWithin (budget : Nat) (outcomes : Nat → Except Error α) (a : α) : Prop :=
  ∃ k < budget, outcomes k = .ok a ∧ ∀ m < k, ∃ e, outcomes m = .error e ∧ isRetryable e = true

/-- Some attempt within the budget, the last one or one with a permanent error, fails after
others with errors that are retried. -/
def FailsWithin (budget : Nat) (outcomes : Nat → Except Error α) (e : Error) : Prop :=
  ∃ k < budget, outcomes k = .error e ∧ (isRetryable e = false ∨ k + 1 = budget) ∧
    ∀ m < k, ∃ e, outcomes m = .error e ∧ isRetryable e = true

theorem providerConfig_budget (config : RetryConfig) (providers : List P) :
    (providerConfig config providers).maxRetries.toNat + 1 = budget config providers := by
  have hmin : (min config.maxRetries 2).toNat = min config.maxRetries.toNat 2 := by
    have htwo : (2 : UInt32).toNat = 2 := rfl
    change (if config.maxRetries ≤ 2 then config.maxRetries else 2).toNat = _
    by_cases h : config.maxRetries ≤ 2
    · have hn := UInt32.le_iff_toNat_le.mp h
      rw [if_pos h]
      omega
    · have hn := mt UInt32.le_iff_toNat_le.mpr h
      rw [if_neg h]
      omega
  unfold providerConfig budget
  split
  · rw [hmin]
  · rfl

/-- An attempt after others that are retried, and after which there is none, is the one the
loop stops at. -/
theorem stopIndex_eq {config : RetryConfig} {outcomes : Nat → Except Error α} {k : Nat}
    (stops : Stops config outcomes k) (hk : k ≤ config.maxRetries.toNat)
    (before : ∀ m < k, ∃ e, outcomes m = .error e ∧ isRetryable e = true) :
    stopIndex config outcomes = k := by
  apply le_antisymm (Nat.find_min' _ stops)
  apply (Nat.le_find_iff _ _).mpr
  intro m hm hstops
  obtain ⟨e, he, hr⟩ := before m hm
  simp only [Stops, he, hr, Bool.true_eq_false, false_or] at hstops
  omega

theorem succeeds_iff {config : RetryConfig} {outcomes : Nat → Except Error α} {a : α} :
    outcomes (stopIndex config outcomes) = .ok a ↔
      SucceedsWithin (config.maxRetries.toNat + 1) outcomes a := by
  constructor
  · intro h
    exact ⟨_, Nat.lt_succ_of_le (stopIndex_le config), h, fun m hm => goes_on_before hm⟩
  · intro h
    obtain ⟨k, hk, ho, before⟩ := h
    have stops : Stops config outcomes k := by simp only [Stops, ho]
    rw [stopIndex_eq stops (by omega) before, ho]

theorem fails_iff {config : RetryConfig} {outcomes : Nat → Except Error α} {e : Error} :
    outcomes (stopIndex config outcomes) = .error e ↔
      FailsWithin (config.maxRetries.toNat + 1) outcomes e := by
  constructor
  · intro h
    have stops : Stops config outcomes (stopIndex config outcomes) := stopIndex_stops config
    simp only [Stops, h] at stops
    refine ⟨_, Nat.lt_succ_of_le (stopIndex_le config), h, ?_, fun m hm => goes_on_before hm⟩
    exact stops.imp_right (congrArg (· + 1))
  · intro h
    obtain ⟨k, hk, ho, ends, before⟩ := h
    have stops : Stops config outcomes k := by
      simp only [Stops, ho]
      exact ends.imp_right Nat.succ.inj
    rw [stopIndex_eq stops (by omega) before, ho]

theorem withRetry_ok_iff {config : RetryConfig} {outcomes : Nat → Except Error α} {a : α} :
    Transfer.withRetry config outcomes = .ok a ↔
      SucceedsWithin (config.maxRetries.toNat + 1) outcomes a := by
  rw [withRetry_stops, succeeds_iff]

theorem withRetry_error_iff {config : RetryConfig} {outcomes : Nat → Except Error α} {e : Error} :
    Transfer.withRetry config outcomes = .error e ↔
      FailsWithin (config.maxRetries.toNat + 1) outcomes e := by
  rw [withRetry_stops, fails_iff]

/-- The attempts made on a provider. -/
def attemptsOn (config : RetryConfig) (outcomes : Nat → Nat → Except Error α)
    (provider : P × Nat) : Nat := stopIndex config (outcomes provider.2) + 1

/-- Providers that fail are passed over, each after the attempts made on it. -/
theorem tryProviders_past {config : RetryConfig} (backoff : UInt32 → Nat)
    {outcomes : Nat → Nat → Except Error α} (hmax : config.maxRetries.toNat < 2 ^ 32 - 1)
    {done : List (P × Nat)} (rest : List (P × Nat)) (s : Contacting P)
    (fail : ∀ p ∈ done, ∃ e, FailsWithin (config.maxRetries.toNat + 1) (outcomes p.2) e) :
    ∃ s', tryProviders config backoff outcomes (done ++ rest) s =
        tryProviders config backoff outcomes rest s' ∧
      s'.contacts = s.contacts ++
        done.flatMap (fun p => List.replicate (attemptsOn config outcomes p) p) ∧
      ∀ p, done.getLast? = some p → ∃ e, s'.lastError = some e ∧
        FailsWithin (config.maxRetries.toNat + 1) (outcomes p.2) e := by
  induction done using List.reverseRecOn generalizing rest with
  | nil => exact ⟨s, rfl, by simp, by simp⟩
  | append_singleton done p ih =>
    obtain ⟨e, he⟩ := fail p (by simp)
    obtain ⟨hcalls, hresult, _⟩ := stops_at_first config backoff false (outcomes p.2) hmax
    rw [fails_iff.mpr he] at hresult
    obtain ⟨s', hrun, hcontacts, _⟩ := ih (p :: rest) fun q hq => fail q (by simp [hq])
    refine ⟨⟨some e, s'.contacts ++ List.replicate (attemptsOn config outcomes p) p⟩, ?_, ?_, ?_⟩
    · rw [List.append_assoc, List.singleton_append, hrun, tryProviders]
      simp only [hcalls, hresult, attemptsOn]
    · simp [hcontacts]
    · intro q hq
      obtain rfl : p = q := by simpa using hq
      exact ⟨e, rfl, he⟩

/-- Every provider either works or fails, within its budget. -/
theorem succeeds_or_fails (config : RetryConfig) (outcomes : Nat → Except Error α) :
    (∃ a, SucceedsWithin (config.maxRetries.toNat + 1) outcomes a) ∨
      ∃ e, FailsWithin (config.maxRetries.toNat + 1) outcomes e := by
  cases h : outcomes (stopIndex config outcomes) with
  | ok a => exact .inl ⟨a, succeeds_iff.mp h⟩
  | error e => exact .inr ⟨e, fails_iff.mp h⟩

theorem not_succeeds_of_fails {config : RetryConfig} {outcomes : Nat → Except Error α} {e : Error}
    (h : FailsWithin (config.maxRetries.toNat + 1) outcomes e) :
    ¬ ∃ a, SucceedsWithin (config.maxRetries.toNat + 1) outcomes a := by
  intro hs
  obtain ⟨a, hs⟩ := hs
  have both := (fails_iff.mpr h).symm.trans (succeeds_iff.mpr hs)
  cases both

/-- The loop ends at the first provider that works, or has failed with each of them. -/
theorem tryProviders_cases {config : RetryConfig} (backoff : UInt32 → Nat)
    (outcomes : Nat → Nat → Except Error α) (hmax : config.maxRetries.toNat < 2 ^ 32 - 1)
    {providers : List (P × Nat)} (hne : providers ≠ []) :
    ∃ exit s' tried, tryProviders config backoff outcomes providers ⟨none, []⟩ = (exit, s') ∧
      s'.contacts = tried.flatMap (fun p => List.replicate (attemptsOn config outcomes p) p) ∧
      ((∃ done p rest a, providers = done ++ p :: rest ∧ tried = done ++ [p] ∧
          (∀ q ∈ done, ∃ e, FailsWithin (config.maxRetries.toNat + 1) (outcomes q.2) e) ∧
          SucceedsWithin (config.maxRetries.toNat + 1) (outcomes p.2) a ∧ exit = .returned a) ∨
        (tried = providers ∧
          (∀ q ∈ providers, ∃ e, FailsWithin (config.maxRetries.toNat + 1) (outcomes q.2) e) ∧
          ∃ p e, providers.getLast? = some p ∧
            FailsWithin (config.maxRetries.toNat + 1) (outcomes p.2) e ∧ exit = .lastError e)) := by
  let works : P × Nat → Bool := fun p => (outcomes p.2 (stopIndex config (outcomes p.2))).isOk
  have fails : ∀ p, works p = false →
      ∃ e, FailsWithin (config.maxRetries.toNat + 1) (outcomes p.2) e := by
    intro p hp
    simp only [works] at hp
    cases ho : outcomes p.2 (stopIndex config (outcomes p.2)) with
    | ok a => simp [ho, Except.isOk, Except.toBool] at hp
    | error e => exact ⟨e, fails_iff.mp ho⟩
  cases hfind : providers.find? works with
  | some p =>
    obtain ⟨hp, done, rest, hsplit, hdone⟩ := List.find?_eq_some_iff_append.mp hfind
    have hdone : ∀ q ∈ done, ∃ e, FailsWithin (config.maxRetries.toNat + 1) (outcomes q.2) e :=
      fun q hq => fails q (by simpa using hdone q hq)
    obtain ⟨s', hrun, hcontacts, _⟩ := tryProviders_past backoff hmax (p :: rest) ⟨none, []⟩ hdone
    obtain ⟨hcalls, hresult, _⟩ := stops_at_first config backoff false (outcomes p.2) hmax
    cases ho : outcomes p.2 (stopIndex config (outcomes p.2)) with
    | error e => simp [works, ho, Except.isOk, Except.toBool] at hp
    | ok a =>
      rw [ho] at hresult
      refine ⟨.returned a,
        ⟨s'.lastError, s'.contacts ++ List.replicate (attemptsOn config outcomes p) p⟩, done ++ [p],
        ?_, ?_, .inl ⟨done, p, rest, a, hsplit, rfl, hdone, succeeds_iff.mp ho, rfl⟩⟩
      · rw [hsplit, hrun, tryProviders]
        simp only [hcalls, hresult, attemptsOn]
      · simp [hcontacts]
  | none =>
    have hall : ∀ q ∈ providers, ∃ e, FailsWithin (config.maxRetries.toNat + 1) (outcomes q.2) e :=
      fun q hq => fails q (by simpa using List.find?_eq_none.mp hfind q hq)
    obtain ⟨s', hrun, hcontacts, hlast⟩ := tryProviders_past backoff hmax [] ⟨none, []⟩ hall
    have hp := List.getLast?_eq_some_getLast hne
    obtain ⟨e, he, hfails⟩ := hlast _ hp
    refine ⟨.lastError e, s', providers, ?_, by simpa using hcontacts,
      .inr ⟨rfl, hall, _, e, hp, hfails, rfl⟩⟩
    rw [← List.append_nil providers, hrun, tryProviders, he]

/-- Positions count up from the head of the list. -/
theorem zipIdx_split {providers : List P} {done rest : List (P × Nat)} {p : P × Nat}
    (h : providers.zipIdx = done ++ p :: rest) :
    p.2 = done.length ∧ p.2 < providers.length ∧ ∀ j < p.2, ∃ q ∈ done, q.2 = j := by
  have position : ∀ n q, (done ++ p :: rest)[n]? = some q → q.2 = n ∧ n < providers.length := by
    intro n q hq
    rw [← h, List.getElem?_zipIdx, Option.map_eq_some_iff] at hq
    obtain ⟨x, hx, rfl⟩ := hq
    exact ⟨Nat.zero_add n, (List.getElem?_eq_some_iff.mp hx).1⟩
  obtain ⟨hp, hlt⟩ := position done.length p (by simp)
  refine ⟨hp, hp ▸ hlt, fun j hj => ?_⟩
  rw [hp] at hj
  refine ⟨done[j], List.getElem_mem hj, (position j done[j] ?_).1⟩
  rw [List.getElem?_append_left hj, List.getElem?_eq_getElem hj]

/-- Only providers that fail come before one that is contacted. -/
theorem contacted_after_failures (fails : Nat → Prop) {providers : List P}
    {tried : List (P × Nat)} {attempts : P × Nat → Nat} (part : tried <+: providers.zipIdx)
    (h : ∀ p ∈ tried.dropLast, fails p.2) :
    ∀ p ∈ tried.flatMap (fun p => List.replicate (attempts p) p), ∀ j < p.2, fails j := by
  intro p hp j hj
  obtain ⟨q, hq, hm⟩ := List.mem_flatMap.mp hp
  obtain rfl := List.eq_of_mem_replicate hm
  obtain ⟨before, after, rfl⟩ := List.append_of_mem hq
  obtain ⟨rest, hall⟩ := part
  rw [List.append_assoc, List.cons_append] at hall
  obtain ⟨_, _, earlier⟩ := zipIdx_split hall.symm
  obtain ⟨r, hr, rfl⟩ := earlier j hj
  apply h r
  rw [List.dropLast_append_of_ne_nil (by simp)]
  exact List.mem_append_left _ hr

/-- Providers are contacted in order, each within its budget, and none behind one that works.
The value of the first one that works is returned, or the last one's error where all fail. -/
theorem first_working_provider (config : RetryConfig) (backoff : UInt32 → Nat)
    (providers : List P) (outcomes : Nat → Nat → Except Error α) (hne : providers ≠ [])
    (hmax : config.maxRetries.toNat < 2 ^ 32 - 1) :
    let run := withRetryProviders config backoff providers outcomes
    let within := budget config providers
    (∃ (tried : List (P × Nat)) (attempts : P × Nat → Nat), tried <+: providers.zipIdx ∧
      (∀ p, 1 ≤ attempts p ∧ attempts p ≤ within) ∧
      run.2.contacts = tried.flatMap fun p => List.replicate (attempts p) p) ∧
    (∀ p ∈ run.2.contacts, ∀ j < p.2, ∃ e, FailsWithin within (outcomes j) e) ∧
    (∀ a, run.1.result = .ok a ↔ ∃ i < providers.length, SucceedsWithin within (outcomes i) a ∧
      ∀ j < i, ¬ ∃ b, SucceedsWithin within (outcomes j) b) ∧
    (∀ e, run.1.result = .error e →
      (∀ i < providers.length, ∃ e', FailsWithin within (outcomes i) e') ∧
        FailsWithin within (outcomes (providers.length - 1)) e) := by
  have hwithin := providerConfig_budget config providers
  have hmax' : (providerConfig config providers).maxRetries.toNat < 2 ^ 32 - 1 := by
    have hle : budget config providers ≤ config.maxRetries.toNat + 1 := by
      unfold budget
      split <;> omega
    omega
  have hne' : providers.zipIdx ≠ [] := by simpa using hne
  obtain ⟨exit, s', tried, hrun, hcontacts, hcases⟩ :=
    tryProviders_cases backoff outcomes hmax' hne'
  have empty : providers.isEmpty = false := by simpa using hne
  simp only [withRetryProviders, empty, Bool.false_eq_true, if_false, hrun, ← hwithin, hcontacts]
  have within : ∀ p : P × Nat, 1 ≤ attemptsOn (providerConfig config providers) outcomes p ∧
      attemptsOn (providerConfig config providers) outcomes p ≤
        (providerConfig config providers).maxRetries.toNat + 1 := by
    intro p
    have hle : stopIndex (providerConfig config providers) (outcomes p.2) ≤ _ := stopIndex_le _
    simp only [attemptsOn]
    omega
  rcases hcases with ⟨done, p, rest, a, hsplit, rfl, hdone, hworks, rfl⟩ |
    ⟨rfl, hall, p, e, hp, hfails, rfl⟩
  · obtain ⟨hpos, hlt, earlier⟩ := zipIdx_split hsplit
    have part : done ++ [p] <+: providers.zipIdx := ⟨rest, by simp [hsplit]⟩
    have failed : ∀ j < p.2, ∃ e,
        FailsWithin ((providerConfig config providers).maxRetries.toNat + 1) (outcomes j) e := by
      intro j hj
      obtain ⟨q, hq, rfl⟩ := earlier j hj
      exact hdone q hq
    refine ⟨⟨_, _, part, within, rfl⟩, ?_, ?_, ?_⟩
    · exact contacted_after_failures (fun i => ∃ e, FailsWithin _ (outcomes i) e) part
        (by simpa using hdone)
    · intro b
      constructor
      · intro hb
        cases hb
        exact ⟨p.2, hlt, hworks, fun j hj => not_succeeds_of_fails (failed j hj).choose_spec⟩
      · intro hb
        obtain ⟨i, _, hi, before⟩ := hb
        -- neither of two first ones comes before the other
        have hle : ¬ p.2 < i := fun h => before p.2 h ⟨a, hworks⟩
        have hge : ¬ i < p.2 := fun h => not_succeeds_of_fails (failed i h).choose_spec ⟨b, hi⟩
        obtain rfl : i = p.2 := by omega
        exact (succeeds_iff.mpr hworks).symm.trans (succeeds_iff.mpr hi)
    · intro e he
      cases he
  · have everywhere : ∀ i < providers.length, ∃ e,
        FailsWithin ((providerConfig config providers).maxRetries.toNat + 1) (outcomes i) e := by
      intro i hi
      exact hall (providers[i], i) (List.mk_mem_zipIdx_iff_getElem?.mpr (by simp [hi]))
    refine ⟨⟨_, _, List.prefix_rfl, within, rfl⟩, ?_, ?_, ?_⟩
    · exact contacted_after_failures (fun i => ∃ e, FailsWithin _ (outcomes i) e) List.prefix_rfl
        fun q hq => hall q (List.dropLast_subset _ hq)
    · intro b
      constructor
      · intro hb
        cases hb
      · intro hb
        obtain ⟨i, hi, hworks, _⟩ := hb
        exact absurd ⟨b, hworks⟩ (not_succeeds_of_fails (everywhere i hi).choose_spec)
    · intro e' he
      cases he
      refine ⟨everywhere, ?_⟩
      have hpos : p.2 = providers.length - 1 := by
        rw [List.getLast?_eq_getElem?, List.length_zipIdx, List.getElem?_zipIdx,
          Option.map_eq_some_iff] at hp
        obtain ⟨x, _, rfl⟩ := hp
        exact Nat.zero_add _
      exact hpos ▸ hfails

theorem second_provider_works : ([(), ()] : List Unit) ≠ [] ∧
    (RetryConfig.default).maxRetries.toNat < 2 ^ 32 - 1 ∧
    (∀ a : Nat, (withRetryProviders .default (fun _ => 500) [(), ()] fun i _ =>
        if i = 0 then .error (.nar "bad") else .ok 7).1.result = .ok a ↔
      ∃ i < 2, SucceedsWithin (budget .default [(), ()]) (fun _ : Nat =>
          if i = 0 then (.error (.nar "bad") : Except Error Nat) else .ok 7) a ∧
        ∀ j < i, ¬ ∃ b, SucceedsWithin (budget .default [(), ()]) (fun _ : Nat =>
          if j = 0 then (.error (.nar "bad") : Except Error Nat) else .ok 7) b) :=
  ⟨by decide, by decide, (first_working_provider .default (fun _ => 500) [(), ()] _ (by decide)
    (by decide)).2.2.1⟩

end IrohNix.Transfer.RetryLoop
